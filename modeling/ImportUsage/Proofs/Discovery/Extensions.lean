import Mathlib.Data.List.TakeWhile
import Mathlib.Logic.Relation
import ImportUsage.Proofs.Discovery.Walk
import ImportUsage.Scan.Options

/-! Extensions as they are given. The dots in front of them, their order and their repetitions make no
difference to a walk, and where nothing but dots is given, the main extension is meant. -/

namespace ImportUsage

namespace Discovery

/-- What a written extension stands for: all of it but the dots in front. Dots alone stand for
nothing. -/
structure Denotes (written extension : String) : Prop where
  filled : extension ≠ ""
  undotted : extension.toList.head? ≠ some '.'
  dotted : ∃ dots, written.toList = List.replicate dots '.' ++ extension.toList

theorem bareExtension_head (written : String) :
    (bareExtension written).toList.head? ≠ some '.' := by
  rw [bareExtension, String.toList_ofList]
  intro dotted
  have first := List.head?_dropWhile_not (· = '.') written.toList
  simp [dotted] at first

theorem bareExtension_dotted {written : String} {dots : Nat} {rest : List Char}
    (dotted : written.toList = List.replicate dots '.' ++ rest) :
    (bareExtension written).toList = rest.dropWhile (· = '.') := by
  rw [bareExtension, String.toList_ofList, dotted]
  apply List.dropWhile_append_of_pos
  intro c member
  simpa using List.eq_of_mem_replicate member

theorem denotes_iff (written extension : String) :
    Denotes written extension ↔ extension ≠ "" ∧ bareExtension written = extension := by
  constructor
  · rintro ⟨filled, undotted, dots, dotted⟩
    refine ⟨filled, ?_⟩
    rw [← String.toList_inj, bareExtension_dotted dotted]
    cases chars : extension.toList with
    | nil => rfl
    | cons c rest =>
      rw [chars] at undotted
      exact List.dropWhile_cons_of_neg (by simpa using undotted)
  · rintro ⟨filled, rfl⟩
    refine ⟨filled, bareExtension_head written, (written.toList.takeWhile (· = '.')).length, ?_⟩
    have front : written.toList.takeWhile (· = '.') =
        List.replicate (written.toList.takeWhile (· = '.')).length '.' :=
      List.eq_replicate_of_mem fun c member => by simpa using List.mem_takeWhile_imp member
    rw [← front, bareExtension, String.toList_ofList, List.takeWhile_append_dropWhile]

theorem bareExtension_eq_empty (written : String) :
    bareExtension written = "" ↔ ∀ c ∈ written.toList, c = '.' := by
  rw [← String.toList_eq_nil_iff, bareExtension, String.toList_ofList, List.dropWhile_eq_nil_iff]
  simp only [decide_eq_true_eq]

/-- What is left of the extensions given. -/
def bareExtensions (given : List String) : List String :=
  (given.map bareExtension).filter (· ≠ "")

theorem withExtensions_eq (d : Discovery) (given : List String) :
    d.withExtensions given =
      if bareExtensions given = [] then d else { d with extensions := bareExtensions given } := rfl

theorem mem_bareExtensions (given : List String) (extension : String) :
    extension ∈ bareExtensions given ↔ ∃ written ∈ given, Denotes written extension := by
  simp only [bareExtensions, List.mem_filter, List.mem_map, decide_eq_true_eq, denotes_iff]
  constructor
  · rintro ⟨⟨written, member, bare⟩, filled⟩
    exact ⟨written, member, filled, bare⟩
  · rintro ⟨written, member, filled, bare⟩
    exact ⟨⟨written, member, bare⟩, filled⟩

theorem bareExtensions_eq_nil (given : List String) :
    bareExtensions given = [] ↔ ∀ written ∈ given, ∀ c ∈ written.toList, c = '.' := by
  simp only [bareExtensions, List.filter_eq_nil_iff, List.forall_mem_map, decide_eq_true_eq, not_not,
    bareExtension_eq_empty]

/-- Is a file of this name looked for, where these extensions are given? Its name ends with a dot and
what one of them stands for. If they are dots alone, or none, it ends with the main extension. -/
def Sought (given : List String) (name : String) : Prop :=
  (∃ written ∈ given, ∃ extension, Denotes written extension ∧
      '.' :: extension.toList <:+ name.toList) ∨
    (∀ written ∈ given, ∀ c ∈ written.toList, c = '.') ∧ ".ts".toList <:+ name.toList

theorem sought_iff (given : List String) (name : String) :
    Sought given name ↔
      (∃ e ∈ bareExtensions given, '.' :: e.toList <:+ name.toList) ∨
        bareExtensions given = [] ∧ ".ts".toList <:+ name.toList := by
  rw [Sought, bareExtensions_eq_nil]
  simp only [mem_bareExtensions]
  apply or_congr_left
  constructor
  · rintro ⟨written, member, e, denotes, ends⟩
    exact ⟨e, ⟨written, member, denotes⟩, ends⟩
  · rintro ⟨e, ⟨written, member, denotes⟩, ends⟩
    exact ⟨written, member, e, denotes, ends⟩

theorem sought_main (name : String) : Sought [mainExtension] name ↔ Sought [] name := by
  have main : bareExtensions [mainExtension] = [mainExtension] := by decide
  have none : bareExtensions [] = [] := rfl
  rw [sought_iff, sought_iff, main, none]
  simp [mainExtension]

end Discovery

namespace Options

open Discovery

theorem discovery_eq (o : Options) :
    o.discovery =
      { root := o.root
        extensions :=
          if bareExtensions o.extensions = [] then [mainExtension] else bareExtensions o.extensions
        passedOver := o.passedOver } := by
  rw [discovery, passingOver, withExtensions_eq]
  split <;> rfl

theorem root_discovery (o : Options) : o.discovery.root = o.root := by
  rw [discovery_eq]

theorem extensions_ne_nil (o : Options) : o.discovery.extensions ≠ [] := by
  rw [discovery_eq]
  dsimp only
  split
  · exact List.cons_ne_nil _ _
  · assumption

theorem extensions_plain (o : Options) (e : String) (member : e ∈ o.discovery.extensions) :
    e ≠ "" ∧ e.toList.head? ≠ some '.' := by
  rw [discovery_eq] at member
  dsimp only at member
  split at member
  · obtain rfl := List.mem_singleton.mp member
    decide
  · obtain ⟨written, _, denotes⟩ := (mem_bareExtensions _ e).mp member
    exact ⟨denotes.filled, denotes.undotted⟩

theorem isEligible_iff (o : Options) (name : String) :
    o.discovery.isEligible name = true ↔ Sought o.extensions name := by
  rw [sought_iff, isEligible, discovery_eq]
  simp only [List.any_eq_true, List.isSuffixOf_iff_suffix]
  by_cases bare : bareExtensions o.extensions = []
  · have main : '.' :: mainExtension.toList = ".ts".toList := rfl
    simp [bare, main]
  · simp [bare]

theorem withExtensions_of_ne_nil (o : Options) {given : List String} (filled : given ≠ []) :
    o.withExtensions given = { o with extensions := given } := if_neg filled

end Options

namespace Discovery

theorem walkEntries_congr {d d' : Discovery} (path : String) (entries : List (String × Node))
    (each : ∀ entry ∈ entries, d'.walkEntry (Path.join path entry.1) entry.1 entry.2 =
      d.walkEntry (Path.join path entry.1) entry.1 entry.2) :
    d'.walkEntries path entries = d.walkEntries path entries := by
  rw [walkEntries_eq_map, walkEntries_eq_map]
  apply List.map_congr_left
  intro entry member
  rw [each entry member]

section Alike

variable {d d' : Discovery} (passedOver : d'.passedOver = d.passedOver)
  (eligible : ∀ name, d'.isEligible name = d.isEligible name)

include passedOver eligible

theorem walkEntry_congr (node : Node) (path name : String) :
    d'.walkEntry path name node = d.walkEntry path name node := by
  induction node using Node.treeInduction generalizing path name with
  | file content executable =>
    rw [walkEntry, walkEntry, eligible]
    · simp
    · simp
  | link target =>
    rw [walkEntry, walkEntry, eligible]
    · simp
    · simp
  | directory entries ih =>
    rw [walkEntry, walkEntry, passedOver, walkEntries_congr path entries]
    exact fun entry member => ih entry member _ _

/-- A walk depends on the names that are eligible, not on how they are told. -/
theorem walk_congr (root : d'.root = d.root) (t : FileTree) : d'.walk t = d.walk t := by
  have below (entries : List (String × Node)) :
      d'.walkEntries d.root entries = d.walkEntries d.root entries :=
    walkEntries_congr d.root entries fun entry _ => walkEntry_congr passedOver eligible entry.2 _ _
  simp only [walk, root, below]

end Alike

/-- One change to the spelling of extensions: dots in front of one, another order, or a repetition. -/
inductive Respells : List String → List String → Prop
  | dotted (front back : List String) {written longer : String} (dots : Nat)
    (more : longer.toList = List.replicate dots '.' ++ written.toList) :
    Respells (front ++ written :: back) (front ++ longer :: back)
  | reordered {given given' : List String} (same : given.Perm given') : Respells given given'
  | repeated {given : List String} {written : String} (known : written ∈ given) :
    Respells given (written :: given)

/-- The same extensions in another spelling. -/
def Respelled : List String → List String → Prop :=
  Relation.EqvGen Respells

/-- The extensions of two lists stand for the same. -/
structure Agree (given given' : List String) : Prop where
  empty : given' = [] ↔ given = []
  bare : ∀ e, e ∈ bareExtensions given' ↔ e ∈ bareExtensions given

theorem Agree.sought {given given' : List String} (agree : Agree given given') (name : String) :
    Sought given' name ↔ Sought given name := by
  simp only [sought_iff, List.eq_nil_iff_forall_not_mem, agree.bare]

theorem Respells.agree {given given' : List String} (step : Respells given given') :
    Agree given given' := by
  cases step with
  | @dotted front back written longer dots more =>
    have same : bareExtension longer = bareExtension written := by
      rw [← String.toList_inj, bareExtension_dotted more, bareExtension, String.toList_ofList]
    exact ⟨by simp, fun e => by simp only [bareExtensions, List.map_append, List.map_cons, same]⟩
  | reordered same =>
    refine ⟨?_, fun e => ((same.map _).filter _).mem_iff.symm⟩
    rw [← List.length_eq_zero_iff, ← List.length_eq_zero_iff, same.length_eq]
  | repeated known =>
    refine ⟨iff_of_false (List.cons_ne_nil _ _) (List.ne_nil_of_mem known), fun e => ?_⟩
    simp only [mem_bareExtensions, List.mem_cons, exists_eq_or_imp]
    exact or_iff_right_of_imp fun denotes => ⟨_, known, denotes⟩

theorem Respelled.agree {given given' : List String} (respelled : Respelled given given') :
    Agree given given' := by
  induction respelled with
  | rel xs ys step => exact step.agree
  | refl xs => exact ⟨.rfl, fun _ => .rfl⟩
  | symm xs ys _ ih => exact ⟨ih.empty.symm, fun e => (ih.bare e).symm⟩
  | trans xs ys zs _ _ first second =>
    exact ⟨second.empty.trans first.empty, fun e => (second.bare e).trans (first.bare e)⟩

end Discovery

theorem walk_respelled_extensions (o : Options) {given given' : List String}
    (respelled : Discovery.Respelled given given') (t : FileTree) :
    (o.withExtensions given').discovery.walk t = (o.withExtensions given).discovery.walk t := by
  have agree := respelled.agree
  by_cases none : given = []
  · rw [none, agree.empty.mpr none]
  · rw [o.withExtensions_of_ne_nil none, o.withExtensions_of_ne_nil (mt agree.empty.mp none)]
    apply Discovery.walk_congr
    · rfl
    · intro name
      rw [Bool.eq_iff_iff, Options.isEligible_iff, Options.isEligible_iff]
      exact agree.sought name
    · rw [Options.root_discovery, Options.root_discovery]

/-- The extensions of a walk are never missing and never dotted, and names are eligible by what the
given ones stand for. An empty list leaves the extensions that were there before, so it stands for
the main one only if they are the default. How the extensions are spelled makes no difference to any
walk. -/
theorem extensions_in_any_spelling (o : Options) (given : List String) :
    (o.withExtensions given).discovery.extensions ≠ [] ∧
    (∀ e ∈ (o.withExtensions given).discovery.extensions,
      e ≠ "" ∧ e.toList.head? ≠ some '.') ∧
    (given ≠ [] → ∀ name,
      (o.withExtensions given).discovery.isEligible name = true ↔ Discovery.Sought given name) ∧
    (o.extensions = [mainExtension] → ∀ name,
      (o.withExtensions given).discovery.isEligible name = true ↔ Discovery.Sought given name) ∧
    ∀ given', Discovery.Respelled given given' → ∀ t,
      (o.withExtensions given').discovery.walk t = (o.withExtensions given).discovery.walk t := by
  have filled (some : given ≠ []) (name : String) :
      (o.withExtensions given).discovery.isEligible name = true ↔ Discovery.Sought given name := by
    rw [Options.isEligible_iff, o.withExtensions_of_ne_nil some]
  refine ⟨Options.extensions_ne_nil _, Options.extensions_plain _, filled, ?_,
    fun given' respelled => walk_respelled_extensions o respelled⟩
  intro fresh name
  by_cases none : given = []
  · subst none
    have main : (o.withExtensions []).extensions = [mainExtension] := fresh
    rw [Options.isEligible_iff, main, Discovery.sought_main]
  · exact filled none name

def freshOptions : Options := { target := "lib.ts", root := "gen", output := "out" }

theorem extensions_in_any_spelling_sample :
    (∀ name, (freshOptions.withExtensions ["..ts", "md"]).discovery.isEligible name = true ↔
      Discovery.Sought ["..ts", "md"] name) ∧
    Discovery.Respelled ["..ts", "md"] ["md", "ts", "md"] ∧
    (freshOptions.withExtensions ["md", "ts", "md"]).discovery.walk Discovery.sampleTree =
      .ok [.ok "gen/a/x.ts", .ok "gen/a-b/x.ts", .ok "gen/gen/y.ts", .ok "gen/readme.md",
        .ok "gen/z.ts"] := by
  obtain ⟨_, _, eligible, _, walks⟩ := extensions_in_any_spelling freshOptions ["..ts", "md"]
  have respelled : Discovery.Respelled ["..ts", "md"] ["md", "ts", "md"] := by
    have undotted : Discovery.Respells ["ts", "md"] ["..ts", "md"] := .dotted [] ["md"] 2 rfl
    have repeated : Discovery.Respells ["ts", "md"] ["md", "ts", "md"] := .repeated (by decide)
    exact .trans _ _ _ (.symm _ _ (.rel _ _ undotted)) (.rel _ _ repeated)
  have root : Discovery.sampleTree.find "gen" = .ok (.directory Discovery.sampleEntries) := by
    with_unfolding_all rfl
  refine ⟨eligible (by decide), respelled, ?_⟩
  rw [walks _ respelled]
  exact Discovery.walk_of_sorted root (by decide +kernel) (by decide +kernel)

end ImportUsage
