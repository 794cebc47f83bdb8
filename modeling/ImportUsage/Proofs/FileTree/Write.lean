import ImportUsage.FileTree.Lookup

/-! Writing a file. What is written stands at one place, all else stays as it was, and paths lead to
the same places afterwards. -/

namespace ImportUsage

/-- What stands at a place, without what is below it. -/
inductive Entry
  | file (content : Content) (executable : Bool)
  | link (target : String)
  | directory
deriving DecidableEq

def Entry.content? : Entry → Option Content
  | .file content _ => some content
  | _ => none

def Entry.isFile : Entry → Bool
  | .file _ _ => true
  | _ => false

namespace Node

def entry : Node → Entry
  | .file content executable => .file content executable
  | .link target => .link target
  | .directory _ => .directory

def entryAt? (root : Node) (place : Location) : Option Entry := (root.at? place).map entry

/-- The directory or link at a place, which is what a path can go on through. -/
def wayAt? (root : Node) (place : Location) : Option Entry :=
  (root.entryAt? place).filter (!·.isFile)

/-- A place in a directory where there is a file or nothing. -/
structure Free (root : Node) (place : Location) : Prop where
  inDirectory : ∃ parent name, place = parent ++ [name] ∧ root.wayAt? parent = some .directory
  noWay : root.wayAt? place = none

theorem lookup_entry (key : String) (node : Node) (rest : List (String × Node)) (name : String) :
    ((key, node) :: rest).lookup name = if name = key then some node else rest.lookup name := by
  rw [List.lookup_cons]
  by_cases same : name = key
  · simp [same]
  · rw [if_neg same, beq_eq_false_iff_ne.mpr same]

theorem lookup_setEntry (name : String) (new : Node) (entries : List (String × Node))
    (other : String) :
    (setEntry name new entries).lookup other =
      if other = name then some new else entries.lookup other := by
  induction entries with
  | nil => rw [setEntry, lookup_entry]
  | cons entry rest ih =>
    obtain ⟨key, node⟩ := entry
    rw [setEntry, lookup_entry]
    by_cases found : key = name
    · rw [if_pos found, lookup_entry, found]
      split <;> rfl
    · rw [if_neg found, lookup_entry, ih]
      by_cases first : other = key
      · rw [if_pos first, if_pos first, if_neg (first ▸ found)]
      · rw [if_neg first, if_neg first]

@[simp] theorem entryAt?_nil (root : Node) : root.entryAt? [] = some root.entry := rfl

@[simp] theorem entryAt?_directory (entries : List (String × Node)) (name : String)
    (rest : Location) :
    (directory entries).entryAt? (name :: rest) =
      (entries.lookup name).bind (·.entryAt? rest) := by
  rw [entryAt?, at?, child?, Option.map_bind]
  rfl

theorem entry_eq_directory {node : Node} (is : node.entry = .directory) :
    ∃ entries, node = directory entries := by
  cases node with
  | file content executable => cases is
  | link target => cases is
  | directory entries => exact ⟨entries, rfl⟩

theorem wayAt?_eq_some {root : Node} {place : Location} {way : Entry} :
    root.wayAt? place = some way ↔ root.entryAt? place = some way ∧ way.isFile = false := by
  simp [wayAt?, Option.filter_eq_some_iff]

theorem entryAt?_below {root : Node} {place : Location} (noWay : root.wayAt? place = none)
    (name : String) (rest : Location) : root.entryAt? (place ++ name :: rest) = none := by
  induction place generalizing root with
  | nil =>
    cases root with
    | file content executable => rfl
    | link target => cases noWay
    | directory entries => cases noWay
  | cons first place ih =>
    cases root with
    | file content executable => rfl
    | link target => rfl
    | directory entries =>
      rw [List.cons_append, entryAt?_directory]
      cases found : entries.lookup first with
      | none => rfl
      | some node =>
        rw [wayAt?, entryAt?_directory, found] at noWay
        exact ih noWay

theorem put_cons (new node : Node) (entries : List (String × Node)) (name : String)
    (place : Location) (more : place ≠ []) (found : entries.lookup name = some node) :
    put new (name :: place) (directory entries) =
      directory (setEntry name (put new place node) entries) := by
  rw [put, found]
  exact more

theorem entryAt?_put_leaf (root : Node) (parent : Location) (name : String) (content : Content)
    (executable : Bool) (inside : root.wayAt? parent = some .directory)
    (noWay : root.wayAt? (parent ++ [name]) = none) (p : Location) :
    (put (.file content executable) (parent ++ [name]) root).entryAt? p =
      if p = parent ++ [name] then some (.file content executable) else root.entryAt? p := by
  -- Along the way to the place, each directory is the old one with one entry set.
  induction parent generalizing root p with
  | nil =>
    obtain ⟨entries, rfl⟩ := entry_eq_directory (Option.some.inj (wayAt?_eq_some.mp inside).1)
    cases p with
    | nil => simp [put, entry]
    | cons other rest =>
      simp only [List.nil_append, put, entryAt?_directory, lookup_setEntry]
      by_cases same : other = name
      · subst same
        cases rest with
        | nil => simp [entry]
        | cons next rest =>
          have nothing := entryAt?_below noWay next rest
          simp only [List.nil_append, List.cons_append, entryAt?_directory] at nothing
          rw [nothing]
          simp [entryAt?, at?, child?]
      · simp [same]
  | cons first parent ih =>
    have here := (wayAt?_eq_some.mp inside).1
    cases root with
    | file content executable => cases here
    | link target => cases here
    | directory entries =>
      cases found : entries.lookup first with
      | none => simp [found] at here
      | some node =>
        rw [List.cons_append, put_cons _ node _ _ _ (by simp) found]
        simp only [wayAt?, List.cons_append, entryAt?_directory, found] at inside noWay
        cases p with
        | nil => simp [entry]
        | cons other rest =>
          simp only [entryAt?_directory, lookup_setEntry]
          by_cases same : other = first
          · subst same
            simp only [if_pos, Option.bind_some, ih node inside noWay, found]
            simp
          · simp [same]

/-- A file that is put at a free place is all that changes. -/
theorem Free.entryAt?_put {root : Node} {place : Location} (free : root.Free place)
    (content : Content) (executable : Bool) (p : Location) :
    (put (.file content executable) place root).entryAt? p =
      if p = place then some (.file content executable) else root.entryAt? p := by
  obtain ⟨parent, name, rfl, inside⟩ := free.inDirectory
  exact entryAt?_put_leaf root parent name content executable inside free.noWay p

theorem Free.wayAt?_put {root : Node} {place : Location} (free : root.Free place)
    (content : Content) (executable : Bool) (p : Location) :
    (put (.file content executable) place root).wayAt? p = root.wayAt? p := by
  rw [wayAt?, free.entryAt?_put]
  by_cases same : p = place
  · rw [if_pos same, same, free.noWay]
    rfl
  · rw [if_neg same, wayAt?]

theorem wayAt?_directory_iff {root : Node} {place : Location} :
    root.wayAt? place = some .directory ↔
      ∃ entries, root.at? place = some (directory entries) := by
  rw [wayAt?_eq_some, entryAt?, Option.map_eq_some_iff]
  constructor
  · rintro ⟨⟨node, found, is⟩, _⟩
    obtain ⟨entries, rfl⟩ := entry_eq_directory is
    exact ⟨entries, found⟩
  · rintro ⟨entries, found⟩
    exact ⟨⟨_, found, rfl⟩, rfl⟩

theorem at?_concat {root : Node} {here : Location} {entries : List (String × Node)}
    (found : root.at? here = some (directory entries)) (name : String) :
    root.at? (here ++ [name]) = entries.lookup name := by
  induction here generalizing root with
  | nil =>
    cases found
    simp [at?, child?]
  | cons first here ih =>
    obtain ⟨node, below, further⟩ := Option.bind_eq_some_iff.mp found
    rw [List.cons_append, at?, below, Option.bind_some, ih further]

theorem wayAt?_concat {root : Node} {here : Location} {entries : List (String × Node)}
    (found : root.at? here = some (directory entries)) (name : String) :
    root.wayAt? (here ++ [name]) = ((entries.lookup name).map entry).filter (!·.isFile) := by
  rw [wayAt?, entryAt?, at?_concat found]

theorem lookup_of_way {root : Node} {here : Location} {entries : List (String × Node)}
    (found : root.at? here = some (directory entries)) {name : String} {way : Entry}
    (along : root.wayAt? (here ++ [name]) = some way) :
    ∃ node, entries.lookup name = some node ∧ node.entry = way := by
  rw [wayAt?_concat found, Option.filter_eq_some_iff, Option.map_eq_some_iff] at along
  exact along.1

theorem lookup_of_link {root : Node} {here : Location} {entries : List (String × Node)}
    (found : root.at? here = some (directory entries)) {name target : String}
    (along : root.wayAt? (here ++ [name]) = some (.link target)) :
    entries.lookup name = some (link target) := by
  obtain ⟨node, named, is⟩ := lookup_of_way found along
  cases node with
  | file content executable => cases is
  | link other =>
    cases is
    exact named
  | directory entries => cases is

theorem directory_of_walkSteps {root : Node} {left : Nat}
    {jump : Location → List String → Except Fault (Location × Nat)} {here : Location}
    {name : String} {rest : List String} {result : Location × Nat}
    (walked : walkSteps root left jump here (name :: rest) = .ok result) :
    ∃ entries, root.at? here = some (directory entries) := by
  rw [walkSteps] at walked
  split at walked
  · exact ⟨_, ‹_›⟩
  · cases walked

theorem start_of_walkSteps {root : Node} {left : Nat}
    {jump : Location → List String → Except Fault (Location × Nat)} {here : Location}
    {steps : List String} {result : Location × Nat}
    (walked : walkSteps root left jump here steps = .ok result)
    (ends : root.wayAt? result.1 = some .directory) : root.wayAt? here = some .directory := by
  cases steps with
  | nil =>
    cases walked
    exact ends
  | cons name rest => exact wayAt?_directory_iff.mpr (directory_of_walkSteps walked)

/-- When and where a path can be written: its last name stands in a directory, and what it names is
a link that leads on, or a file, or nothing yet. -/
theorem placeIn_eq_ok_iff (root : Node) (left : Nat)
    (jump : Nat → Location → String → Except Fault Location) (here : Location) (path : String)
    (place : Location) :
    root.placeIn left jump here path = .ok place ↔
      ∃ name parent rest, (Path.names path).getLast? = some name ∧
        root.follow left here (Path.names path).dropLast = .ok (parent, rest) ∧
        root.wayAt? parent = some .directory ∧
        (name = "." || name = ".." || Path.endsWithSlash path) = false ∧
        ¬nameLimit < name.utf8ByteSize ∧
        ((∃ target more, root.wayAt? (parent ++ [name]) = some (.link target) ∧
            rest = more + 1 ∧ jump more (Path.startFrom parent target) target = .ok place) ∨
          root.wayAt? (parent ++ [name]) = none ∧ parent ++ [name] = place) := by
  unfold placeIn
  cases last : (Path.names path).getLast? with
  | none => simp
  | some name =>
    cases followed : root.follow left here (Path.names path).dropLast with
    | error fault => simp [bind, Except.bind]
    | ok result =>
      obtain ⟨parent, rest⟩ := result
      simp only [bind, Except.bind, Option.some.injEq, Except.ok.injEq, Prod.mk.injEq, and_assoc,
        exists_and_left, exists_eq_left']
      by_cases inside : root.wayAt? parent = some .directory
      · obtain ⟨entries, found⟩ := wayAt?_directory_iff.mp inside
        simp only [found, inside, wayAt?_concat found]
        by_cases shown : (name = "." || name = ".." || Path.endsWithSlash path) = true
        · simp [shown]
        by_cases long : nameLimit < name.utf8ByteSize
        · simp [shown, long]
        rw [if_neg shown, if_neg long]
        cases named : entries.lookup name with
        | none => simp [shown, long]
        | some node =>
          cases node with
          | file content executable => simp [shown, long, entry, Entry.isFile]
          | link target => cases rest <;> simp [shown, long, entry, Entry.isFile]
          | directory inner => simp [entry, Entry.isFile]
      · cases found : root.at? parent with
        | none => simp [inside]
        | some node =>
          cases node with
          | file content executable => simp [inside]
          | link target => simp [inside]
          | directory entries => exact absurd (wayAt?_directory_iff.mpr ⟨entries, found⟩) inside

theorem placeIn_free {root : Node} {left : Nat}
    {jump : Nat → Location → String → Except Fault Location} {here : Location} {path : String}
    {place : Location} (placed : root.placeIn left jump here path = .ok place)
    (jumps : ∀ more here path place, jump more here path = .ok place → root.Free place) :
    root.Free place := by
  rw [placeIn_eq_ok_iff] at placed
  obtain ⟨name, parent, rest, _, _, inside, _, _, leads⟩ := placed
  obtain ⟨target, more, _, _, jumped⟩ | ⟨fresh, rfl⟩ := leads
  · exact jumps _ _ _ _ jumped
  · exact ⟨⟨parent, name, rfl, inside⟩, fresh⟩

theorem place_free (root : Node) (times left : Nat) (here : Location) (path : String)
    (place : Location) (placed : root.place times left here path = .ok place) :
    root.Free place := by
  induction times generalizing left here path place with
  | zero =>
    rw [Node.place] at placed
    exact placeIn_free placed (by simp)
  | succ times ih =>
    rw [Node.place] at placed
    exact placeIn_free placed ih

section SameWays

variable {root root' : Node} (same : ∀ p, root'.wayAt? p = root.wayAt? p)

include same

theorem directory_of_same {here : Location} {entries : List (String × Node)}
    (found : root.at? here = some (directory entries)) :
    ∃ entries', root'.at? here = some (directory entries') := by
  rw [← wayAt?_directory_iff, same, wayAt?_directory_iff]
  exact ⟨entries, found⟩

/-- Steps that lead to a directory lead there in every tree with the same directories and links. -/
theorem walkSteps_same (left : Nat)
    (jump jump' : Location → List String → Except Fault (Location × Nat))
    (jumps : ∀ here steps result, jump here steps = .ok result →
      root.wayAt? result.1 = some .directory → jump' here steps = .ok result)
    (here : Location) (steps : List String) (result : Location × Nat)
    (walked : walkSteps root left jump here steps = .ok result)
    (ends : root.wayAt? result.1 = some .directory) :
    walkSteps root' left jump' here steps = .ok result := by
  induction steps generalizing here with
  | nil => exact walked
  | cons name rest ih =>
    obtain ⟨entries, found⟩ := directory_of_walkSteps walked
    obtain ⟨entries', found'⟩ := directory_of_same same found
    simp only [walkSteps, found, found'] at walked ⊢
    by_cases stay : name = "."
    · rw [if_pos stay] at walked ⊢
      exact ih here walked
    by_cases up : name = ".."
    · rw [if_neg stay, if_pos up] at walked ⊢
      exact ih _ walked
    by_cases long : nameLimit < name.utf8ByteSize
    · simp [stay, up, long] at walked
    rw [if_neg stay, if_neg up, if_neg long] at walked ⊢
    -- A file in the middle would end the walk, so the next node is a link or a directory.
    cases named : entries.lookup name with
    | none => simp [named] at walked
    | some node =>
      cases node with
      | link target =>
        have along : root.wayAt? (here ++ [name]) = some (.link target) := by
          simp [wayAt?_concat found, named, entry, Entry.isFile]
        rw [lookup_of_link found' ((same _).trans along)]
        simp only [named] at walked
        exact jumps _ _ _ walked ends
      | file content executable =>
        simp only [named] at walked
        have along := start_of_walkSteps walked ends
        simp [wayAt?_concat found, named, entry, Entry.isFile] at along
      | directory inner =>
        simp only [named] at walked
        have along := start_of_walkSteps walked ends
        obtain ⟨node, named', is⟩ := lookup_of_way found' ((same _).trans along)
        obtain ⟨inner', rfl⟩ := entry_eq_directory is
        simp only [named']
        exact ih _ walked

theorem follow_same (left : Nat) (here : Location) (steps : List String)
    (result : Location × Nat) (followed : root.follow left here steps = .ok result)
    (ends : root.wayAt? result.1 = some .directory) :
    root'.follow left here steps = .ok result := by
  induction left generalizing here steps result with
  | zero =>
    rw [follow] at followed ⊢
    exact walkSteps_same same 0 _ _ (by simp) here steps result followed ends
  | succ left ih =>
    rw [follow] at followed ⊢
    exact walkSteps_same same (left + 1) _ _ (fun further more _ => ih further more _) here steps
      result followed ends

theorem placeIn_same (left : Nat) (jump jump' : Nat → Location → String → Except Fault Location)
    (jumps : ∀ more here path place, jump more here path = .ok place →
      jump' more here path = .ok place)
    (here : Location) (path : String) (place : Location)
    (placed : root.placeIn left jump here path = .ok place) :
    root'.placeIn left jump' here path = .ok place := by
  rw [placeIn_eq_ok_iff] at placed ⊢
  obtain ⟨name, parent, rest, last, followed, inside, plain, short, leads⟩ := placed
  refine ⟨name, parent, rest, last, follow_same same left here _ _ followed inside,
    (same _).trans inside, plain, short, ?_⟩
  rw [same]
  obtain ⟨target, more, along, counted, jumped⟩ | fresh := leads
  · exact .inl ⟨target, more, along, counted, jumps _ _ _ _ jumped⟩
  · exact .inr fresh

theorem place_same (times left : Nat) (here : Location) (path : String) (place : Location)
    (placed : root.place times left here path = .ok place) :
    root'.place times left here path = .ok place := by
  induction times generalizing left here path place with
  | zero =>
    rw [Node.place] at placed ⊢
    exact placeIn_same same left _ _ (by simp) here path place placed
  | succ times ih =>
    rw [Node.place] at placed ⊢
    exact placeIn_same same left _ _ ih here path place placed

end SameWays

end Node

namespace FileTree

/-- What the file at a place holds. Links are not followed. -/
def contentAt? (t : FileTree) (place : Location) : Option Content :=
  (t.root.entryAt? place).bind Entry.content?

/-- One tree is the other one after a text has been written at a place. -/
structure Writes (t : FileTree) (place : Location) (text : String) (t' : FileTree) : Prop where
  contents : ∀ p, t'.contentAt? p = if p = place then some (.text text) else t.contentAt? p
  places : ∀ path p, t'.placeFor path = .ok p ↔ t.placeFor path = .ok p

theorem placeFor_free {t : FileTree} {path : String} {place : Location}
    (placed : t.placeFor path = .ok place) : t.root.Free place := by
  unfold placeFor at placed
  split at placed
  · cases placed
  · exact Node.place_free _ _ _ _ _ _ placed

theorem placeFor_same {t t' : FileTree} (same : ∀ p, t'.root.wayAt? p = t.root.wayAt? p)
    (here : t'.workingDirectory = t.workingDirectory) {path : String} {place : Location}
    (placed : t.placeFor path = .ok place) : t'.placeFor path = .ok place := by
  unfold placeFor at placed ⊢
  rw [here]
  split at placed
  · cases placed
  · exact Node.place_same same _ _ _ _ _ placed

theorem put_writes {t : FileTree} {place : Location} (free : t.root.Free place) (text : String)
    (executable : Bool) : t.Writes place text (t.put place (.file (.text text) executable)) where
  contents p := by
    rw [contentAt?, put, free.entryAt?_put]
    by_cases same : p = place
    · rw [if_pos same, if_pos same]
      rfl
    · rw [if_neg same, if_neg same, contentAt?]
  places path p := by
    have ways : ∀ q, (t.put place (.file (.text text) executable)).root.wayAt? q =
        t.root.wayAt? q := fun q => free.wayAt?_put (.text text) executable q
    constructor
    · exact placeFor_same (fun q => (ways q).symm) rfl
    · exact placeFor_same ways rfl

theorem writeText_error {t : FileTree} {path : String} {fault : Fault}
    (placed : t.placeFor path = .error fault) (text : String) :
    t.writeText path text = .error fault := by
  rw [writeText, placed]
  rfl

theorem writeText_writes {t : FileTree} {path : String} {place : Location}
    (placed : t.placeFor path = .ok place) (text : String) :
    ∃ t', t.writeText path text = .ok t' ∧ t.Writes place text t' := by
  rw [writeText, placed]
  exact ⟨_, rfl, put_writes (placeFor_free placed) text _⟩

end FileTree

end ImportUsage
