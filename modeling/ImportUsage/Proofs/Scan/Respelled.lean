import ImportUsage.Proofs.Scan.Importers
import ImportUsage.Proofs.Scan.Narrow
import ImportUsage.Proofs.Source.Reading

/-! Scans from two spellings of one root. Both walks find the same places, each path of the one is a
spelling of the path that the other has in its place, and nothing but the texts of the paths tells
the results apart. -/

namespace ImportUsage

attribute [local irreducible] FileTree.readSource

namespace Discovery

theorem eq_of_precedes {places places' : List Location} (ordered : places.Pairwise Precedes)
    (ordered' : places'.Pairwise Precedes) (same : ∀ place, place ∈ places ↔ place ∈ places') :
    places = places' := by
  have once : ∀ {ps : List Location}, ps.Pairwise Precedes → ps.Nodup := by
    intro ps sorted
    apply sorted.imp
    rintro p q before rfl
    exact precedes_irrefl p before
  apply List.Perm.eq_of_pairwise _ ordered ordered'
  · exact (List.perm_ext_iff_of_nodup (once ordered) (once ordered')).mpr same
  · intro p q _ _ before after
    exact absurd (List.lt_trans before after) (precedes_irrefl p)

theorem places_of_walk (d : Discovery) (t : FileTree) (valid : t.root.WellFormed)
    (paths : List String) (walked : d.walk t = .ok (paths.map .ok)) :
    ∃ (entries : List (String × Node)) (places : List Location),
      t.find d.root = .ok (.directory entries) ∧ paths = places.map (Path.below d.root) ∧
      (∀ place, place ∈ places ↔ d.Finds (.directory entries) place) ∧
      places.Pairwise Precedes := by
  obtain ⟨entries, root, listed⟩ := (walk_eq_ok_iff d t _).mp walked
  have sound : ∀ e, .error e ∉ inNameOrder (d.walkEntries d.root entries) := by
    intro e wrong
    simp [← listed] at wrong
  obtain ⟨places, same, exact_places, ordered⟩ := enumerates_of_walk d t entries valid root sound
  refine ⟨entries, places, root, ?_, exact_places, ordered⟩
  rw [← pathsIn_map_ok paths, listed, same, ← pathsIn_map_ok (places.map _), List.map_map]
  rfl

/-- From two spellings of a root a walk finds the same places. -/
theorem walk_respelled (d : Discovery) (root' : String) (t : FileTree) (settled : t.Settled)
    (alike : Path.Alike t.workingPath d.root root') (paths paths' : List String)
    (walked : d.walk t = .ok (paths.map .ok))
    (walked' : { d with root := root' }.walk t = .ok (paths'.map .ok)) :
    d.root ≠ "" ∧ root' ≠ "" ∧ ∃ places : List Location,
      paths = places.map (Path.below d.root) ∧ paths' = places.map (Path.below root') ∧
      ∀ place ∈ places, (∀ name ∈ place, Node.IsName name) ∧
        ∃ above name, place = above ++ [name] ∧ d.isEligible name = true := by
  obtain ⟨entries, places, root, rfl, exact_places, ordered⟩ :=
    places_of_walk d t settled.wellFormed paths walked
  obtain ⟨entries', places', other, rfl, exact_places', ordered'⟩ :=
    places_of_walk _ t settled.wellFormed paths' walked'
  have named := root_ne_empty t _ _ root
  have named' := root_ne_empty t _ _ other
  have one_path := Path.names_of_trunk_eq (alike.trunk_whole t.workingPath_ne_empty named named')
  cases t.find_unique settled _ _ one_path _ _ root other
  have same : places' = places := eq_of_precedes ordered' ordered fun place =>
    (exact_places' place).trans (exact_places place).symm
  refine ⟨named, named', places, rfl, by rw [same], ?_⟩
  intro place member
  have finds := (exact_places place).mp member
  refine ⟨(names_of_finds d _ (wellFormed_of_find settled.wellFormed root) place finds).2, ?_⟩
  obtain ⟨above, name, node, whole, _, eligible, _⟩ := finds
  exact ⟨above, name, whole, eligible⟩

end Discovery

namespace FileTree

variable [TreeReader]

/-- What a scan makes of two paths is the same, but for how they are written. -/
structure SeenAlike (t : FileTree) (x : Exclusion) (path path' : String) : Prop where
  read : (t.readSource path).toOption = (t.readSource path').toOption
  excluded : x.excludes t.workingPath path = x.excludes t.workingPath path'
  module : moduleOf path = moduleOf path'

section

variable {t : FileTree} {x : Exclusion} {path path' : String} (alike : t.SeenAlike x path path')

include alike

theorem SeenAlike.usagesAt (ds : List Declaration) :
    t.usagesAt x ds path = t.usagesAt x ds path' := by
  have read := alike.read
  unfold FileTree.usagesAt
  rw [alike.excluded, alike.module]
  cases first : t.readSource path <;> cases second : t.readSource path' <;>
    simp_all [Except.toOption]

theorem SeenAlike.isExcludedAt : t.isExcludedAt x path = t.isExcludedAt x path' := by
  have read := alike.read
  unfold FileTree.isExcludedAt
  rw [alike.excluded]
  cases first : t.readSource path <;> cases second : t.readSource path' <;>
    simp_all [Except.toOption]

theorem SeenAlike.isSome_skippedAt? :
    (t.skippedAt? path).isSome = (t.skippedAt? path').isSome := by
  have read := alike.read
  unfold skippedAt? sourceError?
  cases first : t.readSource path <;> cases second : t.readSource path' <;>
    simp_all [Except.toOption]

end

end FileTree

/-- Below two spellings of a root, what is read at one place is seen alike. -/
theorem seenAlike_below [TreeReader] (o : Options) (t : FileTree) (settled : t.Settled)
    (root root' : String) (named : root ≠ "") (named' : root' ≠ "")
    (alike : Path.Alike t.workingPath root root') (above : Location) (name : String)
    (valid : ∀ other ∈ above ++ [name], Node.IsName other)
    (eligible : o.discovery.isEligible name = true)
    (readable : ∀ fault, t.readSource (Path.below root (above ++ [name])) ≠
      .error (.unreadable (Path.below root (above ++ [name])) fault))
    (readable' : ∀ fault, t.readSource (Path.below root' (above ++ [name])) ≠
      .error (.unreadable (Path.below root' (above ++ [name])) fault)) :
    t.SeenAlike o.exclusion (Path.below root (above ++ [name]))
      (Path.below root' (above ++ [name])) := by
  have plain := eligible_ne_dots o name eligible
  have proper : above ++ [name] ≠ [] := by simp
  -- The last name is no dot, so the absolute forms go on below those of the roots.
  have further : (above ++ [name]).filter (· ≠ ".") ≠ [] := by
    simp [List.filter_append, plain.1]
  have one_path : Path.whole t.workingPath (Path.below root (above ++ [name])) =
      Path.whole t.workingPath (Path.below root' (above ++ [name])) := by
    rw [Path.whole_below _ _ _ named valid, Path.whole_below _ _ _ named' valid]
    exact Path.below_of_trunk_eq (Path.whole_ne_empty _ _ t.workingPath_ne_empty)
      (Path.whole_ne_empty _ _ t.workingPath_ne_empty)
      (alike.trunk_whole t.workingPath_ne_empty named named') _ further
  have file : Path.fileName? (Path.below root (above ++ [name])) =
      Path.fileName? (Path.below root' (above ++ [name])) := by
    rw [Path.fileName?_below _ _ _ named valid plain, Path.fileName?_below _ _ _ named' valid plain]
  have absolute : Path.absolute? t.workingPath (Path.below root (above ++ [name])) =
      Path.absolute? t.workingPath (Path.below root' (above ++ [name])) := by
    rw [Path.absolute?_eq _ _ (Path.below_ne_empty _ _ named),
      Path.absolute?_eq _ _ (Path.below_ne_empty _ _ named'),
      Path.endsWithSlash_below _ _ named valid proper,
      Path.endsWithSlash_below _ _ named' valid proper, one_path]
  constructor
  · apply t.toOption_readSource _ _ _ _ readable readable'
    · exact Language.ofPath_of_fileName? file
    · intro text text' first second
      obtain ⟨executable, found⟩ := FileTree.readText_eq_ok.mp first
      obtain ⟨executable', found'⟩ := FileTree.readText_eq_ok.mp second
      cases t.find_unique settled _ _ (congrArg Path.names one_path) _ _ found found'
      rfl
  · rw [Exclusion.excludes, Exclusion.excludes, absolute, Path.absolute?_eq _ _
      (Path.below_ne_empty _ _ named')]
    rfl
  · rw [moduleOf, moduleOf, file, Path.fileName?_below _ _ _ named' valid plain]
    rfl

theorem Options.discovery_respelled (o : Options) (root' : String) :
    ({ o with root := root' } : Options).discovery = { o.discovery with root := root' } := by
  rw [discovery_eq, discovery_eq]

/-- Scans from two spellings of one root, if both succeed, find the same. -/
theorem scan_respelled_root [TreeReader] (o : Options) (root' : String) (t : FileTree)
    (settled : t.Settled) (alike : Path.Alike t.workingPath o.root root') (s s' : Scan)
    (accepted : scan o t = .ok s) (accepted' : scan { o with root := root' } t = .ok s') :
    s'.declarations = s.declarations ∧ s'.index = s.index ∧ s'.filesScanned = s.filesScanned ∧
      s'.filesExcluded = s.filesExcluded ∧ s'.skipped.length = s.skipped.length := by
  obtain ⟨parsed, paths, target, walked, harmless, rfl⟩ := (scan_eq_ok_iff o t s).mp accepted
  obtain ⟨parsed', paths', target', walked', harmless', rfl⟩ := (scan_eq_ok_iff _ t s').mp accepted'
  cases target.symm.trans target'
  rw [Options.discovery_respelled] at walked'
  obtain ⟨named, named', places, rfl, rfl, sound⟩ := o.discovery.walk_respelled root' t settled
    (o.root_discovery ▸ alike) paths paths' walked walked'
  rw [o.root_discovery] at named harmless ⊢
  have seen : ∀ place ∈ places,
      t.SeenAlike o.exclusion (Path.below o.root place) (Path.below root' place) := by
    intro place member
    have calm := harmless _ (List.mem_map_of_mem member)
    have calm' := harmless' _ (List.mem_map_of_mem member)
    obtain ⟨valid, above, name, rfl, eligible⟩ := sound place member
    exact seenAlike_below o t settled o.root root' named named' alike above name valid eligible
      (not_unreadable_of_harmless calm) (not_unreadable_of_harmless calm')
  refine ⟨rfl, ?_, ?_, ?_, ?_⟩
  · simp only [Scan.ofPaths, List.flatMap_map]
    congr 1
    apply List.flatMap_congr
    intro place member
    exact ((seen place member).usagesAt _).symm
  · simp only [Scan.ofPaths, List.length_map]
  · simp only [Scan.ofPaths, List.countP_map]
    apply List.countP_congr
    intro place member
    simp only [Function.comp_apply, (seen place member).isExcludedAt]
  · simp only [Scan.ofPaths, List.filterMap_map, List.length_filterMap_eq_countP]
    apply List.countP_congr
    intro place member
    simp only [Function.comp_apply, (seen place member).isSome_skippedAt?]

/- An exclusion that begins above the root, a file below a directory, and one that is no source. -/
def workshopEntries : List (String × Node) :=
  [("app", .directory [("one.ts", .file (.text "import \x7b a \x7d from '../../lib';\n") false)]),
    ("notes.md", .file (.text "") false),
    ("two.ts", .file (.text "import \x7b a, b \x7d from '../lib';\n") false)]

def workshopTree : FileTree :=
  ⟨.directory [("proj", .directory
    [("lib.ts", .file (.text "export const a = 0, b = 0;\n") false),
      ("src", .directory workshopEntries)])], ["proj"]⟩

def workshopOptions : Options :=
  { target := "lib.ts", root := "src", output := "out", extensions := ["md", "ts"]
    exclusion := ⟨["proj/src/two.ts"]⟩ }

def workshopScan (skipped : String) : Scan where
  declarations := ["a", "b"].map (⟨·, .variableBinding, true, 1⟩)
  index := ⟨[("a", ["one.ts"])]⟩
  filesScanned := 3
  filesExcluded := 1
  skipped := [⟨skipped, "Unsupported file type: md"⟩]

local instance workshopReader : TreeReader :=
  .knowing [[.exporting "a" ["b"]], [.importing ["a"] "../../lib"], [.importing ["a", "b"] "../lib"]]

theorem scan_workshop : scan workshopOptions workshopTree = .ok (workshopScan "src/notes.md") := by
  have root : workshopTree.find "src" = .ok (.directory workshopEntries) := by
    with_unfolding_all rfl
  have walked : workshopOptions.discovery.walk workshopTree =
      .ok [.ok "src/app/one.ts", .ok "src/notes.md", .ok "src/two.ts"] :=
    Discovery.walk_of_sorted root (by decide +kernel) (by decide +kernel)
  rw [scan, walked]
  decide +kernel

theorem scan_workshop_absolute :
    scan { workshopOptions with root := "/proj//./src/" } workshopTree =
      .ok (workshopScan "/proj//./src/notes.md") := by
  have root : workshopTree.find "/proj//./src/" = .ok (.directory workshopEntries) := by
    with_unfolding_all rfl
  have walked : ({ workshopOptions with root := "/proj//./src/" } : Options).discovery.walk
      workshopTree = .ok [.ok "/proj//./src/app/one.ts", .ok "/proj//./src/notes.md",
        .ok "/proj//./src/two.ts"] :=
    Discovery.walk_of_sorted root (by decide +kernel) (by decide +kernel)
  rw [scan, walked]
  decide +kernel

theorem scan_respelled_root_workshop :
    workshopTree.Settled ∧ Path.Alike workshopTree.workingPath "src" "/proj//./src/" ∧
    scan workshopOptions workshopTree = .ok (workshopScan "src/notes.md") ∧
    ∃ s', scan { workshopOptions with root := "/proj//./src/" } workshopTree = .ok s' ∧
      s'.declarations = (workshopScan "src/notes.md").declarations ∧
      s'.index = ⟨[("a", ["one.ts"])]⟩ ∧ s'.filesScanned = 3 ∧ s'.filesExcluded = 1 ∧
      s'.skipped.length = 1 := by
  have settled : workshopTree.Settled := ⟨by decide, ⟨_, rfl⟩, by decide⟩
  have alike : Path.Alike workshopTree.workingPath "src" "/proj//./src/" := by decide +kernel
  exact ⟨settled, alike, scan_workshop, _, scan_workshop_absolute,
    scan_respelled_root workshopOptions "/proj//./src/" workshopTree settled alike _ _
      scan_workshop scan_workshop_absolute⟩

end ImportUsage
