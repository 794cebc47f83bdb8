import ImportUsage.Proofs.FileTree.Below

/-! Spellings of one path. The absolute form keeps the names of a path and drops how they were
written: dots, slashes that repeat, and whether the working directory was spelled out. Joining names
to two spellings keeps them spellings of one path. -/

namespace ImportUsage

namespace Path

theorem pieces_eq_filter (path : String) : pieces path = (names path).filter (· ≠ ".") := by
  rw [pieces, names, List.filter_map, List.filter_filter]
  congr 1
  apply List.filter_congr
  intro piece _
  have dot : String.ofList piece = "." ↔ piece = ['.'] := by
    rw [← String.toList_inj, String.toList_ofList]
    rfl
  simp [dot, Bool.and_comm]

theorem filter_steps (path : String) : (steps path).filter (· ≠ ".") = pieces path := by
  rw [pieces_eq_filter, steps]
  split
  · simp
  · rfl

theorem isName_of_mem_names (path name : String) (member : name ∈ names path) :
    Node.IsName name := by
  simp only [names, List.mem_map, List.mem_filter, decide_eq_true_eq] at member
  obtain ⟨piece, ⟨cut, filled⟩, rfl⟩ := member
  constructor
  · simpa using filled
  · rw [String.toList_ofList]
    exact not_mem_of_mem_cutAt '/' _ piece cut

theorem isName_of_mem_pieces (path name : String) (member : name ∈ pieces path) :
    Node.IsName name := by
  rw [pieces_eq_filter] at member
  exact isName_of_mem_names path name (List.mem_of_mem_filter member)

/-- A slash at the end adds no name. -/
theorem names_eq_trunk (path : String) :
    names path = ((cutAt '/' (trunk path)).filter (· ≠ [])).map String.ofList := by
  rw [names, trunk]
  split
  · rename_i slash
    obtain ⟨front, whole⟩ := List.getLast?_eq_some_iff.mp slash
    simp [whole, cutAt_append, cutAt]
  · rfl

theorem names_of_trunk_eq {path path' : String} (same : trunk path = trunk path') :
    names path = names path' := by
  rw [names_eq_trunk, names_eq_trunk, same]

theorem names_below (directory : String) (place : Location) (named : directory ≠ "")
    (valid : ∀ name ∈ place, Node.IsName name) :
    names (below directory place) = names directory ++ place := by
  cases place with
  | nil => simp [below]
  | cons first rest =>
    have filled : ∀ piece ∈ (first :: rest).map String.toList, decide (piece ≠ []) = true := by
      intro piece member
      obtain ⟨name, inside, rfl⟩ := List.mem_map.mp member
      simpa using (valid name inside).1
    rw [names, cutAt_below directory _ named valid (by simp), List.filter_append,
      List.filter_eq_self.mpr filled, List.map_append, names_eq_trunk, List.map_map]
    simp [Function.comp_def]

theorem endsWithSlash_join (directory name : String) (named : directory ≠ "")
    (valid : Node.IsName name) : endsWithSlash (join directory name) = false := by
  have whole := trunk_join directory name named valid
  rw [endsWithSlash, decide_eq_false_iff_not]
  intro slash
  rw [trunk, if_pos slash] at whole
  have size := congrArg List.length whole
  have filled : (join directory name).toList ≠ [] := by
    simpa using join_ne_empty directory name named
  have positive := List.length_pos_iff.mpr filled
  rw [List.length_dropLast] at size
  omega

theorem endsWithSlash_below (directory : String) (place : Location) (named : directory ≠ "")
    (valid : ∀ name ∈ place, Node.IsName name) (proper : place ≠ []) :
    endsWithSlash (below directory place) = false := by
  induction place using List.reverseRecOn with
  | nil => exact absurd rfl proper
  | append_singleton front name _ =>
    rw [below_concat]
    exact endsWithSlash_join _ name (below_ne_empty directory front named) (valid name (by simp))

theorem join_of_trunk_eq {directory directory' : String} (named : directory ≠ "")
    (named' : directory' ≠ "") (same : trunk directory = trunk directory') (name : String) :
    join directory name = join directory' name := by
  rw [← String.toList_inj, join_toList _ _ named, join_toList _ _ named', same]

theorem below_of_trunk_eq {directory directory' : String} (named : directory ≠ "")
    (named' : directory' ≠ "") (same : trunk directory = trunk directory') (place : Location)
    (proper : place ≠ []) : below directory place = below directory' place := by
  cases place with
  | nil => exact absurd rfl proper
  | cons name rest =>
    change below (join directory name) rest = below (join directory' name) rest
    rw [join_of_trunk_eq named named' same]

theorem trunk_join_empty (path : String) (named : path ≠ "") : trunk (join path "") = trunk path := by
  have slashed : (join path "").toList = trunk path ++ ['/'] := join_toList path "" named
  rw [trunk, slashed, if_pos (by simp), List.dropLast_concat]

/-- Does a path begin with two slashes and no more? -/
def twoSlashes (chars : List Char) : Bool :=
  ['/', '/'].isPrefixOf chars && !(['/', '/', '/'].isPrefixOf chars)

theorem twoSlashes_append (chars more : List Char) (filled : chars ≠ [])
    (apart : chars.getLast? = some '/' → more.head? ≠ some '/') :
    twoSlashes (chars ++ more) = twoSlashes chars := by
  match chars with
  | [] => exact absurd rfl filled
  | [a] =>
    by_cases slash : a = '/'
    · subst slash
      cases more with
      | nil => rfl
      | cons b more =>
        have other : ¬ '/' = b := by simpa [eq_comm] using apart rfl
        simp [twoSlashes, List.isPrefixOf, other]
    · simp [twoSlashes, List.isPrefixOf, Ne.symm slash]
  | [a, b] =>
    by_cases slash : b = '/'
    · subst slash
      cases more with
      | nil => rfl
      | cons c more =>
        have other : ¬ '/' = c := by simpa [eq_comm] using apart rfl
        simp [twoSlashes, List.isPrefixOf, other]
    · simp [twoSlashes, List.isPrefixOf, Ne.symm slash]
  | a :: b :: c :: rest => simp [twoSlashes, List.isPrefixOf]

/-- What the absolute form of a path begins with. -/
def base (workingDirectory path : String) : String :=
  if !isAbsolute path then workingDirectory else if twoSlashes path.toList then "//" else "/"

/-- The absolute form of a path, without a slash at its end. -/
def whole (workingDirectory path : String) : String :=
  below (base workingDirectory path) (pieces path)

theorem absolute?_eq (workingDirectory path : String) (named : path ≠ "") :
    absolute? workingDirectory path =
      some (if endsWithSlash path then join (whole workingDirectory path) ""
        else whole workingDirectory path) := by
  by_cases slash : path.toList.getLast? = some '/'
  · simp [absolute?, named, endsWithSlash, slash, whole, base, twoSlashes, below]
  · simp [absolute?, named, endsWithSlash, slash, whole, base, twoSlashes, below]

theorem base_join (workingDirectory directory name : String) (named : directory ≠ "")
    (valid : Node.IsName name) :
    base workingDirectory (join directory name) = base workingDirectory directory := by
  have filled : directory.toList ≠ [] := by simpa using named
  obtain ⟨more, longer, apart⟩ : ∃ more, (join directory name).toList = directory.toList ++ more ∧
      (directory.toList.getLast? = some '/' → more.head? ≠ some '/') := by
    rw [join, if_neg named]
    split
    · refine ⟨name.toList, by simp, fun _ slash => ?_⟩
      exact valid.2 (List.mem_of_head? slash)
    · rename_i plain
      exact ⟨'/' :: name.toList, by simp, fun slash => absurd slash plain⟩
  have first : isAbsolute (join directory name) = isAbsolute directory := by
    rw [isAbsolute, isAbsolute, longer, List.head?_append_of_ne_nil _ filled]
  rw [base, base, first, longer, twoSlashes_append _ _ filled apart]

theorem base_below (workingDirectory directory : String) (place : Location)
    (named : directory ≠ "") (valid : ∀ name ∈ place, Node.IsName name) :
    base workingDirectory (below directory place) = base workingDirectory directory := by
  induction place using List.reverseRecOn with
  | nil => rfl
  | append_singleton front name ih =>
    rw [below_concat, base_join _ _ _ (below_ne_empty directory front named) (valid name (by simp))]
    exact ih fun other member => valid other (List.mem_append_left _ member)

theorem whole_below (workingDirectory directory : String) (place : Location)
    (named : directory ≠ "") (valid : ∀ name ∈ place, Node.IsName name) :
    whole workingDirectory (below directory place) =
      below (whole workingDirectory directory) (place.filter (· ≠ ".")) := by
  have parted : pieces (below directory place) = pieces directory ++ place.filter (· ≠ ".") := by
    rw [pieces_eq_filter, names_below directory place named valid, List.filter_append,
      ← pieces_eq_filter]
  rw [whole, whole, base_below _ _ _ named valid, parted]
  simp only [below, List.foldl_append]

/-- Have two paths the same absolute form, but for a slash at its end? `//` is a form of its own and
not `/` with a slash at its end. -/
def Alike (workingDirectory path path' : String) : Prop :=
  (absolute? workingDirectory path).map (join · "") =
    (absolute? workingDirectory path').map (join · "")

instance (workingDirectory path path' : String) : Decidable (Alike workingDirectory path path') :=
  inferInstanceAs (Decidable (_ = _))

theorem whole_ne_empty (workingDirectory path : String) (working : workingDirectory ≠ "") :
    whole workingDirectory path ≠ "" := by
  apply below_ne_empty
  unfold base
  split
  · exact working
  · split <;> simp

theorem Alike.trunk_whole {workingDirectory path path' : String}
    (alike : Alike workingDirectory path path') (working : workingDirectory ≠ "")
    (named : path ≠ "") (named' : path' ≠ "") :
    trunk (whole workingDirectory path) = trunk (whole workingDirectory path') := by
  have slashed : ∀ p, p ≠ "" → (absolute? workingDirectory p).map (join · "") =
      some (join (whole workingDirectory p) "") := by
    intro p filled
    have standing := whole_ne_empty workingDirectory p working
    rw [absolute?_eq workingDirectory p filled, Option.map_some, Option.some.injEq]
    split
    · exact join_of_trunk_eq (join_ne_empty _ _ standing) standing (trunk_join_empty _ standing) ""
    · rfl
  rw [Alike, slashed path named, slashed path' named', Option.some.injEq, ← String.toList_inj,
    join_toList _ _ (whole_ne_empty workingDirectory path working),
    join_toList _ _ (whole_ne_empty workingDirectory path' working)] at alike
  exact List.append_cancel_right alike

end Path

end ImportUsage
