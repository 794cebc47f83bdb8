import ImportUsage.Proofs.FileTree.Kept

/-! The last name of a path. Where it does not stand at a link, what is read or written by the path
has that name, so files of different names are different files. -/

namespace ImportUsage

namespace Path

theorem fileName?_of_last {path name : String} (last : (names path).getLast? = some name)
    (stays : name ≠ ".") (rises : name ≠ "..") : fileName? path = some name := by
  obtain ⟨front, whole⟩ := List.getLast?_eq_some_iff.mp last
  have pieced : (pieces path).getLast? = some name := by
    rw [pieces_eq_filter, whole, List.filter_append, List.filter_cons_of_pos (by simpa using stays),
      List.filter_nil, List.getLast?_concat]
  rw [fileName?, pieced]
  exact if_neg rises

theorem last_of_fileName? {path name : String} (named : fileName? path = some name) :
    ∃ front last, names path = front ++ [last] ∧ (last ≠ "." → last = name ∧ last ≠ "..") := by
  cases whole : names path using List.reverseRecOn with
  | nil => simp [fileName?, pieces_eq_filter, whole] at named
  | append_singleton front last _ =>
    refine ⟨front, last, rfl, fun stays => ?_⟩
    have ends : (names path).getLast? = some last := by rw [whole, List.getLast?_concat]
    by_cases rises : last = ".."
    · rw [fileName?, pieces_eq_filter, whole, List.filter_append,
        List.filter_cons_of_pos (by simpa using stays), List.filter_nil, List.getLast?_concat,
        rises] at named
      cases named
    · rw [fileName?_of_last ends stays rises, Option.some.injEq] at named
      exact ⟨named, rises⟩

theorem splitName_extension (piece extension : List Char) (plain : '.' ∉ extension) :
    (splitName (String.ofList (piece ++ '.' :: extension))).2 =
      if piece = [] then none else some (String.ofList extension) := by
  have back : (piece ++ '.' :: extension).reverse = extension.reverse ++ '.' :: piece.reverse := by
    simp
  have last : (extension.reverse ++ '.' :: piece.reverse).takeWhile (· ≠ '.') =
      extension.reverse := by
    rw [List.takeWhile_append_of_pos, List.takeWhile_cons_of_neg (by simp), List.append_nil]
    intro c member
    rw [decide_eq_true_eq]
    rintro rfl
    exact plain (List.mem_reverse.mp member)
  simp only [splitName, String.toList_ofList, back, last, List.drop_left]
  cases reversed : piece.reverse with
  | nil => rw [if_pos (by simpa using reversed)]
  | cons c front =>
    rw [if_neg (by rintro rfl; cases reversed)]
    simp

/-- A path that was given an extension ends with it. -/
theorem last_withExtension (base extension : String) (filled : extension ≠ "")
    (flat : '/' ∉ extension.toList) :
    ∃ piece, (pieces (withExtension base extension)).getLast? =
      some (String.ofList (piece ++ '.' :: extension.toList)) := by
  have clean : '/' ∉ '.' :: extension.toList := by
    simpa using flat
  have chars : (withExtension base extension).toList = base.toList ++ '.' :: extension.toList := by
    simp [withExtension]
  obtain ⟨front, piece, _, cut⟩ := cutAt_concat '/' base.toList _ clean
  have longer : piece ++ '.' :: extension.toList ≠ ['.'] := by
    intro same
    have size : 0 < extension.toList.length := by simpa [List.length_pos_iff] using filled
    have sizes := congrArg List.length same
    simp only [List.length_append, List.length_cons, List.length_nil] at sizes
    omega
  refine ⟨piece, ?_⟩
  rw [pieces, chars, cut, List.filter_append, List.filter_cons_of_pos (by simp [longer]),
    List.filter_nil, List.map_append, List.map_singleton, List.getLast?_concat]

theorem fileName?_withExtension {base extension name : String} (filled : extension ≠ "")
    (flat : '/' ∉ extension.toList) (named : fileName? (withExtension base extension) = some name) :
    '.' :: extension.toList <:+ name.toList := by
  obtain ⟨piece, last⟩ := last_withExtension base extension filled flat
  rw [fileName?, last] at named
  dsimp only at named
  split at named
  · cases named
  · cases named
    rw [String.toList_ofList]
    exact List.suffix_append piece _

/-- A path that was given an extension has no other one. -/
theorem extension?_withExtension (base extension : String) (filled : extension ≠ "")
    (plain : '.' ∉ extension.toList) (flat : '/' ∉ extension.toList) :
    extension? (withExtension base extension) = none ∨
      extension? (withExtension base extension) = some extension := by
  obtain ⟨piece, last⟩ := last_withExtension base extension filled flat
  rw [extension?, fileName?, last]
  dsimp only
  split
  · exact .inl rfl
  · rw [Option.bind_some, splitName_extension piece _ plain, String.ofList_toList]
    split
    · exact .inl rfl
    · exact .inr rfl

end Path

def Entry.isLink : Entry → Bool
  | .link _ => true
  | _ => false

theorem Node.follow_last {root : Node} {left : Nat} {here : Location} {name : String}
    {result : Location × Nat} (followed : root.follow left here [name] = .ok result)
    (stays : name ≠ ".") (rises : name ≠ "..")
    (plain : ∀ target, root.entryAt? (here ++ [name]) ≠ some (.link target)) :
    result.1 = here ++ [name] := by
  obtain ⟨jump, same⟩ := follow_eq_walkSteps root left
  rw [same, walkSteps_cons] at followed
  split at followed
  · rw [if_neg stays, if_neg rises] at followed
    split at followed
    · cases followed
    · split at followed
      · cases followed
      · rename_i target linked
        exact absurd linked (plain target)
      · cases followed
        rfl
  · cases followed

theorem Node.follow_dot_directory {root : Node} {left : Nat} {here : Location}
    {result : Location × Nat} (followed : root.follow left here ["."] = .ok result) :
    ∃ entries, root.at? result.1 = some (.directory entries) := by
  obtain ⟨jump, same⟩ := follow_eq_walkSteps root left
  rw [follow_dot followed]
  rw [same] at followed
  exact directory_of_walkSteps followed

theorem Node.place_eq_placeIn (root : Node) (times : Nat) :
    ∃ jump, ∀ left, root.place times left = root.placeIn left jump := by
  cases times with
  | zero => exact ⟨_, fun left => rfl⟩
  | succ times => exact ⟨_, fun left => rfl⟩

namespace FileTree

/-- Does the last name of a path stand at a link? -/
def isLink (t : FileTree) (path : String) : Bool :=
  match (Path.names path).getLast? with
  | none => false
  | some name =>
    match t.root.follow linkLimit (Path.startFrom t.workingDirectory path)
        (Path.names path).dropLast with
    | .ok (parent, _) => (t.root.entryAt? (parent ++ [name])).any (·.isLink)
    | .error _ => false

theorem no_link_at {t : FileTree} {path name : String} {front : List String} {parent : Location}
    {left : Nat} (plain : t.isLink path = false) (whole : Path.names path = front ++ [name])
    (followed : t.root.follow linkLimit (Path.startFrom t.workingDirectory path) front =
      .ok (parent, left)) (target : String) :
    t.root.entryAt? (parent ++ [name]) ≠ some (.link target) := by
  intro linked
  rw [isLink, whole, List.getLast?_concat, List.dropLast_concat] at plain
  simp only [followed, linked] at plain
  cases plain

/-- The way to what is written by such a path: the last name in a directory, where there is a file
or nothing. -/
theorem placeFor_way {t : FileTree} {path : String} {place : Location}
    (placed : t.placeFor path = .ok place) (plain : t.isLink path = false) :
    ∃ front name parent left, Path.names path = front ++ [name] ∧ place = parent ++ [name] ∧
      t.root.follow linkLimit (Path.startFrom t.workingDirectory path) front =
        .ok (parent, left) ∧
      t.root.wayAt? parent = some .directory ∧ Node.IsStep name ∧
      Path.endsWithSlash path = false ∧ Path.fault? path = none := by
  unfold placeFor at placed
  split at placed
  · cases placed
  · rename_i clear
    obtain ⟨jump, same⟩ := Node.place_eq_placeIn t.root linkLimit
    rw [same, Node.placeIn_eq_ok_iff] at placed
    obtain ⟨name, parent, rest, last, followed, inside, shown, short, leads⟩ := placed
    simp only [Bool.or_eq_false_iff, decide_eq_false_iff_not] at shown
    obtain ⟨front, whole⟩ := List.getLast?_eq_some_iff.mp last
    rw [whole, List.dropLast_concat] at followed
    obtain ⟨target, more, linked, _⟩ | ⟨_, rfl⟩ := leads
    · exact absurd (Node.wayAt?_eq_some.mp linked).1 (no_link_at plain whole followed target)
    · exact ⟨front, name, parent, rest, whole, rfl, followed, inside,
        ⟨shown.1.1, shown.1.2, Nat.le_of_not_lt short⟩, shown.2, clear⟩

/-- What is written by such a path gets its last name. -/
theorem placeFor_last {t : FileTree} {path : String} {place : Location}
    (placed : t.placeFor path = .ok place) (plain : t.isLink path = false) :
    ∃ parent name, place = parent ++ [name] ∧ Path.fileName? path = some name := by
  obtain ⟨front, name, parent, left, whole, rfl, _, _, step, _, _⟩ := placeFor_way placed plain
  refine ⟨parent, name, rfl, Path.fileName?_of_last ?_ step.1 step.2.1⟩
  rw [whole, List.getLast?_concat]

/-- Such a path reads where it writes, once there is a file. -/
theorem locate_of_placeFor {t t' : FileTree} {path : String} {place : Location}
    (placed : t.placeFor path = .ok place) (plain : t.isLink path = false)
    (working : t'.workingDirectory = t.workingDirectory)
    (ways : ∀ p, t'.root.wayAt? p = t.root.wayAt? p) {content : Content} {executable : Bool}
    (held : t'.root.entryAt? place = some (.file content executable)) :
    t'.locate path = .ok place := by
  obtain ⟨front, name, parent, left, whole, rfl, followed, inside, ⟨stays, rises, short⟩, open_end,
    clear⟩ := placeFor_way placed plain
  have long : ¬nameLimit < name.utf8ByteSize := Nat.not_lt.mpr short
  have last : t'.root.follow left parent [name] = .ok (parent ++ [name], left) := by
    obtain ⟨jump, same⟩ := Node.follow_eq_walkSteps t'.root left
    rw [same, Node.walkSteps_cons, (Node.wayAt?_eq_some.mp ((ways parent).trans inside)).1]
    dsimp only
    rw [if_neg stays, if_neg rises, if_neg long, held]
    rfl
  refine locate_eq_ok.mpr ⟨clear, left, ?_⟩
  rw [working, Path.steps, open_end, if_neg Bool.false_ne_true, whole, Node.follow_append,
    Node.follow_same ways _ _ _ _ followed inside]
  exact last

theorem readText_of_placeFor {t t' : FileTree} {path text : String} {place : Location}
    (placed : t.placeFor path = .ok place) (plain : t.isLink path = false)
    (working : t'.workingDirectory = t.workingDirectory)
    (ways : ∀ p, t'.root.wayAt? p = t.root.wayAt? p)
    (held : t'.contentAt? place = some (.text text)) : t'.readText path = .ok text := by
  obtain ⟨entry, here, holds⟩ := Option.bind_eq_some_iff.mp held
  cases entry with
  | link target => cases holds
  | directory => cases holds
  | file content executable =>
    cases holds
    have located := locate_of_placeFor placed plain working ways here
    obtain ⟨node, found, is⟩ := Option.map_eq_some_iff.mp here
    cases node with
    | link target => cases is
    | directory entries => cases is
    | file content mode =>
      cases is
      exact readText_eq_ok.mpr ⟨_, find_eq_ok.mpr ⟨place, located, found⟩⟩

/-- What is read by such a path has its last name. -/
theorem locate_last {t : FileTree} {path name text : String} {place : Location}
    (located : t.locate path = .ok place) (read : t.readText path = .ok text)
    (named : Path.fileName? path = some name) (plain : t.isLink path = false) :
    ∃ parent, place = parent ++ [name] := by
  have file : ∀ entries, t.root.at? place ≠ some (.directory entries) := by
    intro entries directory
    obtain ⟨executable, found⟩ := readText_eq_ok.mp read
    obtain ⟨there, located', here⟩ := find_eq_ok.mp found
    cases located.symm.trans located'
    rw [directory] at here
    cases here
  obtain ⟨_, left, followed⟩ := locate_eq_ok.mp located
  obtain ⟨front, last, whole, ordinary⟩ := Path.last_of_fileName? named
  rw [Path.steps] at followed
  split at followed
  · rw [Node.follow_append, bind_eq_ok] at followed
    obtain ⟨reached, _, step⟩ := followed
    obtain ⟨entries, directory⟩ := Node.follow_dot_directory step
    exact absurd directory (file entries)
  · rw [whole, Node.follow_append, bind_eq_ok] at followed
    obtain ⟨⟨parent, rest⟩, first, step⟩ := followed
    by_cases stays : last = "."
    · subst stays
      obtain ⟨entries, directory⟩ := Node.follow_dot_directory step
      exact absurd directory (file entries)
    · obtain ⟨rfl, rises⟩ := ordinary stays
      exact ⟨parent, Node.follow_last step stays rises (no_link_at plain whole first)⟩

end FileTree

end ImportUsage
