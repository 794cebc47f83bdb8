import ImportUsage.Proofs.FileTree.Follow
import ImportUsage.Proofs.FileTree.Write

/-! What a write leaves to readers. A path that led somewhere leads there still, and another file
than the one written holds what it held. -/

namespace ImportUsage

namespace Node

theorem walkSteps_cons (root : Node) (left : Nat)
    (jump : Location → List String → Except Fault (Location × Nat)) (here : Location)
    (name : String) (rest : List String) :
    walkSteps root left jump here (name :: rest) =
      match root.entryAt? here with
      | some .directory =>
        if name = "." then walkSteps root left jump here rest
        else if name = ".." then walkSteps root left jump here.dropLast rest
        else if nameLimit < name.utf8ByteSize then .error .nameTooLong
        else match root.entryAt? (here ++ [name]) with
          | none => .error .missing
          | some (.link target) => jump (Path.startFrom here target) (Path.steps target ++ rest)
          | some _ => walkSteps root left jump (here ++ [name]) rest
      | _ => .error .notDirectory := by
  rw [walkSteps, entryAt?]
  cases found : root.at? here with
  | none => rfl
  | some node =>
    cases node with
    | file content executable => rfl
    | link target => rfl
    | directory entries =>
      simp only [Option.map_some, entry, entryAt?, at?_concat found]
      cases entries.lookup name with
      | none => rfl
      | some next => cases next <;> rfl

/-- Everything that stands in a tree stands in the other one, where only files may have changed. -/
def Keeps (root root' : Node) : Prop :=
  ∀ p entry, root.entryAt? p = some entry → ∃ entry', root'.entryAt? p = some entry' ∧
    (entry' = entry ∨ entry.isFile = true ∧ entry'.isFile = true)

theorem Keeps.refl (root : Node) : root.Keeps root :=
  fun _ entry found => ⟨entry, found, .inl rfl⟩

theorem Keeps.trans {root root' root'' : Node} (first : root.Keeps root')
    (second : root'.Keeps root'') : root.Keeps root'' := by
  intro p entry found
  obtain ⟨entry', found', same⟩ := first p entry found
  obtain ⟨entry'', found'', same'⟩ := second p entry' found'
  refine ⟨entry'', found'', ?_⟩
  rcases same with rfl | ⟨file, file'⟩
  · exact same'
  · rcases same' with rfl | ⟨_, file''⟩
    · exact .inr ⟨file, file'⟩
    · exact .inr ⟨file, file''⟩

theorem Keeps.way {root root' : Node} (keeps : root.Keeps root') {p : Location} {way : Entry}
    (found : root.entryAt? p = some way) (leads : way.isFile = false) :
    root'.entryAt? p = some way := by
  obtain ⟨entry', found', rfl | ⟨file, _⟩⟩ := keeps p way found
  · exact found'
  · rw [leads] at file
    cases file

theorem Free.keeps_put {root : Node} {place : Location} (free : root.Free place)
    (content : Content) (executable : Bool) :
    root.Keeps (put (.file content executable) place root) := by
  intro p entry found
  rw [free.entryAt?_put]
  by_cases here : p = place
  · subst here
    have file : entry.isFile = true := by
      have noWay := free.noWay
      rw [wayAt?, found] at noWay
      simpa [Option.filter] using noWay
    exact ⟨_, if_pos rfl, .inr ⟨file, rfl⟩⟩
  · exact ⟨entry, by rw [if_neg here, found], .inl rfl⟩

section

variable {root root' : Node} (keeps : root.Keeps root')

include keeps

theorem Keeps.walkSteps (left : Nat)
    (jump jump' : Location → List String → Except Fault (Location × Nat))
    (jumps : ∀ here steps result, jump here steps = .ok result → jump' here steps = .ok result)
    (here : Location) (steps : List String) (result : Location × Nat)
    (walked : root.walkSteps left jump here steps = .ok result) :
    root'.walkSteps left jump' here steps = .ok result := by
  induction steps generalizing here with
  | nil => exact walked
  | cons name rest ih =>
    rw [walkSteps_cons] at walked ⊢
    split at walked
    · rename_i directory
      rw [keeps.way directory rfl]
      dsimp only
      by_cases stay : name = "."
      · rw [if_pos stay] at walked ⊢
        exact ih here walked
      by_cases up : name = ".."
      · rw [if_neg stay, if_pos up] at walked ⊢
        exact ih _ walked
      by_cases long : nameLimit < name.utf8ByteSize
      · simp [stay, up, long] at walked
      rw [if_neg stay, if_neg up, if_neg long] at walked ⊢
      cases found : root.entryAt? (here ++ [name]) with
      | none => simp [found] at walked
      | some entry =>
        simp only [found] at walked
        cases entry with
        | link target =>
          rw [keeps.way found rfl]
          exact jumps _ _ _ walked
        | directory =>
          rw [keeps.way found rfl]
          exact ih _ walked
        | file content executable =>
          -- A file may hold something else now, but it is a file.
          obtain ⟨entry', found', rfl | ⟨_, file⟩⟩ := keeps _ _ found
          · rw [found']
            exact ih _ walked
          · rw [found']
            cases entry' with
            | file content' executable' => exact ih _ walked
            | link target => cases file
            | directory => cases file
    · cases walked

theorem Keeps.follow (left : Nat) (here : Location) (steps : List String)
    (result : Location × Nat) (followed : root.follow left here steps = .ok result) :
    root'.follow left here steps = .ok result := by
  induction left generalizing here steps result with
  | zero =>
    rw [Node.follow] at followed ⊢
    exact keeps.walkSteps 0 _ _ (by simp) here steps result followed
  | succ left ih =>
    rw [Node.follow] at followed ⊢
    exact keeps.walkSteps (left + 1) _ _ ih here steps result followed

end

end Node

namespace FileTree

theorem locate_kept {t t' : FileTree} (keeps : t.root.Keeps t'.root)
    (working : t'.workingDirectory = t.workingDirectory) {path : String} {place : Location}
    (located : t.locate path = .ok place) : t'.locate path = .ok place := by
  rw [locate_eq_ok] at located ⊢
  obtain ⟨clear, left, followed⟩ := located
  rw [working]
  exact ⟨clear, left, keeps.follow _ _ _ _ followed⟩

theorem locate_put {t : FileTree} {place : Location} (free : t.root.Free place)
    (content : Content) (executable : Bool) {path : String} {there : Location}
    (located : t.locate path = .ok there) :
    (t.put place (.file content executable)).locate path = .ok there := by
  have keeps : t.root.Keeps (t.put place (.file content executable)).root :=
    free.keeps_put content executable
  exact locate_kept keeps rfl located

theorem readText_kept {t t' : FileTree} (keeps : t.root.Keeps t'.root)
    (working : t'.workingDirectory = t.workingDirectory) {path text : String}
    (read : t.readText path = .ok text)
    (same : ∀ place, t.locate path = .ok place →
      t'.root.entryAt? place = t.root.entryAt? place) : t'.readText path = .ok text := by
  obtain ⟨executable, found⟩ := readText_eq_ok.mp read
  obtain ⟨place, located, here⟩ := find_eq_ok.mp found
  have entry : t'.root.entryAt? place = some (.file (.text text) executable) := by
    rw [same place located, Node.entryAt?, here]
    rfl
  obtain ⟨node, here', is⟩ := Option.map_eq_some_iff.mp entry
  cases node with
  | link target => cases is
  | directory entries => cases is
  | file content mode =>
    cases is
    exact readText_eq_ok.mpr ⟨_, find_eq_ok.mpr ⟨place, locate_kept keeps working located, here'⟩⟩

end FileTree

end ImportUsage
