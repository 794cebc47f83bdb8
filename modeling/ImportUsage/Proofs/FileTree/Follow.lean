import ImportUsage.Proofs.FileTree.Spelling

/-! Where paths lead. Steps can be taken in parts, single dots among them go nowhere, and so two
spellings of one path lead to one place, if they lead anywhere. -/

namespace ImportUsage

theorem bind_eq_ok {ε α β : Type} {x : Except ε α} {f : α → Except ε β} {b : β} :
    x.bind f = .ok b ↔ ∃ a, x = .ok a ∧ f a = .ok b := by
  cases x <;> simp [Except.bind]

namespace Node

theorem at?_append (root : Node) (place more : Location) :
    root.at? (place ++ more) = (root.at? place).bind (·.at? more) := by
  induction place generalizing root with
  | nil => rfl
  | cons name place ih =>
    rw [List.cons_append, at?, at?]
    cases root.child? name with
    | none => rfl
    | some node => exact ih node

theorem at?_cons_eq_some {root node : Node} {name : String} {rest : Location}
    (found : root.at? (name :: rest) = some node) :
    ∃ entries below, root = .directory entries ∧ entries.lookup name = some below ∧
      below.at? rest = some node := by
  obtain ⟨below, entry, further⟩ := Option.bind_eq_some_iff.mp found
  cases root with
  | file content executable => cases entry
  | link target => cases entry
  | directory entries => exact ⟨entries, below, rfl, entry, further⟩

/-- What stands on the way to a directory is a directory. -/
theorem directory_of_at? {node : Node} {place : Location} {entries : List (String × Node)}
    (found : node.at? place = some (.directory entries)) : ∃ inner, node = .directory inner := by
  cases place with
  | nil => exact ⟨entries, Option.some.inj found⟩
  | cons name rest =>
    obtain ⟨inner, _, is, _⟩ := at?_cons_eq_some found
    exact ⟨inner, is⟩

theorem walkSteps_append (root : Node) (left : Nat)
    (jump : Location → List String → Except Fault (Location × Nat)) (more : List String)
    (next : Location × Nat → Except Fault (Location × Nat))
    (jumps : ∀ here steps, jump here (steps ++ more) = (jump here steps).bind next)
    (ends : ∀ here, walkSteps root left jump here more = next (here, left))
    (here : Location) (steps : List String) :
    walkSteps root left jump here (steps ++ more) =
      (walkSteps root left jump here steps).bind next := by
  induction steps generalizing here with
  | nil => exact ends here
  | cons name rest ih =>
    simp only [List.cons_append, walkSteps]
    cases root.at? here with
    | none => rfl
    | some node =>
      cases node with
      | file content executable => rfl
      | link target => rfl
      | directory entries =>
        by_cases stay : name = "."
        · simp only [stay, if_true, ih]
        by_cases up : name = ".."
        · simp only [if_neg stay, if_pos up, ih]
        by_cases long : nameLimit < name.utf8ByteSize
        · simp only [stay, up, long, if_true, if_false]
          rfl
        simp only [stay, up, long, if_false]
        cases entries.lookup name with
        | none => rfl
        | some node =>
          cases node with
          | file content executable => exact ih _
          | link target =>
            dsimp only
            rw [← List.append_assoc, jumps]
          | directory inner => exact ih _

/-- Steps can be taken in two parts; the second goes on with the links that are left. -/
theorem follow_append (root : Node) (left : Nat) (here : Location) (steps more : List String) :
    root.follow left here (steps ++ more) =
      (root.follow left here steps).bind fun r => root.follow r.2 r.1 more := by
  induction left generalizing here steps with
  | zero =>
    rw [follow]
    apply walkSteps_append root 0 _ more fun r => root.follow r.2 r.1 more
    · exact fun _ _ => rfl
    · exact fun here => rfl
  | succ left ih =>
    rw [follow]
    apply walkSteps_append root (left + 1) _ more fun r => root.follow r.2 r.1 more
    · exact fun here steps => ih here steps
    · exact fun here => rfl

theorem follow_eq_walkSteps (root : Node) (left : Nat) :
    ∃ jump, root.follow left = walkSteps root left jump := by
  cases left with
  | zero => exact ⟨_, rfl⟩
  | succ left => exact ⟨_, rfl⟩

theorem follow_dot {root : Node} {left : Nat} {here : Location} {result : Location × Nat}
    (followed : root.follow left here ["."] = .ok result) : result = (here, left) := by
  obtain ⟨jump, same⟩ := follow_eq_walkSteps root left
  rw [same, walkSteps] at followed
  split at followed
  · exact (Except.ok.inj followed).symm
  · cases followed

theorem follow_undotted (root : Node) (steps : List String) (left : Nat) (here : Location)
    (result : Location × Nat) (followed : root.follow left here steps = .ok result) :
    root.follow left here (steps.filter (· ≠ ".")) = .ok result := by
  induction steps generalizing left here with
  | nil => exact followed
  | cons name rest ih =>
    rw [← List.singleton_append, follow_append, bind_eq_ok] at followed
    obtain ⟨reached, step, further⟩ := followed
    have tail := ih _ _ further
    by_cases dot : name = "."
    · subst dot
      cases follow_dot step
      exact tail
    · rw [List.filter_cons_of_pos (by simpa using dot), ← List.singleton_append, follow_append,
        bind_eq_ok]
      exact ⟨reached, step, tail⟩

/-- A name that is no step in place or upwards and not too long. -/
def IsStep (name : String) : Prop := name ≠ "." ∧ name ≠ ".." ∧ name.utf8ByteSize ≤ nameLimit

instance (name : String) : Decidable (IsStep name) :=
  inferInstanceAs (Decidable (_ ∧ _ ∧ _))

theorem follow_place (root : Node) (left : Nat) (here place : Location)
    (entries : List (String × Node)) (found : root.at? (here ++ place) = some (.directory entries))
    (named : ∀ name ∈ place, IsStep name) :
    root.follow left here place = .ok (here ++ place, left) := by
  obtain ⟨jump, same⟩ := follow_eq_walkSteps root left
  rw [same]
  induction place generalizing here with
  | nil => rw [walkSteps, List.append_nil]
  | cons name rest ih =>
    obtain ⟨stay, up, short⟩ := named name List.mem_cons_self
    have long : ¬nameLimit < name.utf8ByteSize := by omega
    have further := found
    rw [at?_append, Option.bind_eq_some_iff] at found
    obtain ⟨node, standing, below⟩ := found
    obtain ⟨inside, next, rfl, entry, onward⟩ := at?_cons_eq_some below
    obtain ⟨inner, rfl⟩ := directory_of_at? onward
    rw [List.append_cons] at further
    simp only [walkSteps, standing, stay, up, long, entry, if_false,
      ih _ further fun other member => named other (List.mem_cons_of_mem name member)]
    simp

end Node

namespace FileTree

/-- A tree as a file system keeps it, whose working directory is one of its directories. -/
structure Settled (t : FileTree) : Prop where
  wellFormed : t.root.WellFormed
  working : ∃ entries, t.root.at? t.workingDirectory = some (.directory entries)
  named : ∀ name ∈ t.workingDirectory, Node.IsStep name

theorem workingPath_ne_empty (t : FileTree) : t.workingPath ≠ "" :=
  Path.below_ne_empty "/" t.workingDirectory (by decide)

theorem names_whole (t : FileTree) (settled : t.Settled) (path : String) :
    Path.names (Path.whole t.workingPath path) =
      Path.startFrom t.workingDirectory path ++ Path.pieces path := by
  obtain ⟨entries, working⟩ := settled.working
  have wording : Path.names t.workingPath = t.workingDirectory :=
    Path.names_below "/" t.workingDirectory (by decide) (settled.wellFormed.of_at? working).2
  have pieces := fun name => Path.isName_of_mem_pieces path name
  rw [Path.whole, Path.base, Path.startFrom]
  cases absolute : Path.isAbsolute path with
  | false =>
    simp only [Bool.not_false, if_true, Bool.false_eq_true, if_false]
    rw [Path.names_below _ _ t.workingPath_ne_empty pieces, wording]
  | true =>
    simp only [Bool.not_true, Bool.false_eq_true, if_false, if_true]
    split
    · exact Path.names_below "//" _ (by decide) pieces
    · exact Path.names_below "/" _ (by decide) pieces

theorem locate_eq_ok {t : FileTree} {path : String} {place : Location} :
    t.locate path = .ok place ↔ Path.fault? path = none ∧
      ∃ left, t.root.follow linkLimit (Path.startFrom t.workingDirectory path) (Path.steps path) =
        .ok (place, left) := by
  unfold locate
  cases Path.fault? path with
  | some fault => simp
  | none =>
    simp only [true_and]
    cases t.root.follow linkLimit (Path.startFrom t.workingDirectory path) (Path.steps path) with
    | error fault => simp [Except.map]
    | ok result =>
      obtain ⟨there, left⟩ := result
      simp [Except.map]

/-- The place that a path leads to is where the names of its absolute form lead. -/
theorem follow_of_locate (t : FileTree) (settled : t.Settled) (path : String) (place : Location)
    (located : t.locate path = .ok place) :
    ∃ left, t.root.follow linkLimit [] (Path.names (Path.whole t.workingPath path)) =
      .ok (place, left) := by
  obtain ⟨_, left, followed⟩ := locate_eq_ok.mp located
  obtain ⟨entries, working⟩ := settled.working
  have plain := Node.follow_undotted _ _ _ _ _ followed
  rw [Path.filter_steps] at plain
  refine ⟨left, ?_⟩
  rw [names_whole t settled, Node.follow_append]
  unfold Path.startFrom at plain ⊢
  by_cases absolute : Path.isAbsolute path = true
  · rw [if_pos absolute] at plain ⊢
    exact plain
  · rw [if_neg absolute] at plain ⊢
    rw [Node.follow_place t.root linkLimit [] _ entries working settled.named]
    exact plain

theorem locate_unique (t : FileTree) (settled : t.Settled) (path path' : String)
    (same : Path.names (Path.whole t.workingPath path) =
      Path.names (Path.whole t.workingPath path')) (place place' : Location)
    (located : t.locate path = .ok place) (located' : t.locate path' = .ok place') :
    place = place' := by
  obtain ⟨left, followed⟩ := t.follow_of_locate settled path place located
  obtain ⟨left', followed'⟩ := t.follow_of_locate settled path' place' located'
  rw [same, followed'] at followed
  exact (congrArg Prod.fst (Except.ok.inj followed)).symm

theorem find_eq_ok {t : FileTree} {path : String} {node : Node} :
    t.find path = .ok node ↔ ∃ place, t.locate path = .ok place ∧ t.root.at? place = some node := by
  unfold find
  cases t.locate path with
  | error fault => simp [bind, Except.bind]
  | ok place =>
    simp only [bind, Except.bind, Except.ok.injEq, exists_eq_left']
    cases t.root.at? place <;> simp

theorem find_unique (t : FileTree) (settled : t.Settled) (path path' : String)
    (same : Path.names (Path.whole t.workingPath path) =
      Path.names (Path.whole t.workingPath path')) (node node' : Node)
    (found : t.find path = .ok node) (found' : t.find path' = .ok node') : node = node' := by
  obtain ⟨place, located, here⟩ := find_eq_ok.mp found
  obtain ⟨place', located', here'⟩ := find_eq_ok.mp found'
  rw [t.locate_unique settled path path' same place place' located located', here'] at here
  exact (Option.some.inj here).symm

theorem readText_eq_ok {t : FileTree} {path text : String} :
    t.readText path = .ok text ↔
      ∃ executable, t.find path = .ok (.file (.text text) executable) := by
  unfold readText
  cases t.find path with
  | error fault => simp [bind, Except.bind]
  | ok node =>
    simp only [bind, Except.bind, Except.ok.injEq]
    cases node with
    | link target => simp
    | directory entries => simp
    | file content executable => cases content <;> simp

end FileTree

end ImportUsage
