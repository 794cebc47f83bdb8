import Mathlib.Data.List.Flatten
import ImportUsage.Proofs.Discovery.Extensions
import ImportUsage.Proofs.Scan.Steps
import ImportUsage.Proofs.Source.TextTree

/-! Scans of less. Passing over more directories, looking for fewer extensions and excluding more
files leave a part of what was found, in the same order, and bring up no error. -/

namespace ImportUsage

open scoped List

attribute [local irreducible] FileTree.readSource

namespace Discovery

/-- The same root with fewer files to look at. -/
structure Narrows (d' d : Discovery) : Prop where
  root : d'.root = d.root
  passedOver : d.passedOver ⊆ d'.passedOver
  extensions : d'.extensions ⊆ d.extensions

theorem Narrows.isEligible {d' d : Discovery} (narrows : d'.Narrows d) (name : String)
    (eligible : d'.isEligible name = true) : d.isEligible name = true := by
  unfold Discovery.isEligible at eligible ⊢
  rw [List.any_eq_true] at eligible ⊢
  obtain ⟨e, member, ends⟩ := eligible
  exact ⟨e, narrows.extensions member, ends⟩

theorem Narrows.leaf_sublist {d' d : Discovery} (narrows : d'.Narrows d) (path name : String) :
    (if d'.isEligible name then [.ok path] else [] : List Found) <+
      if d.isEligible name then [.ok path] else [] := by
  by_cases eligible : d'.isEligible name = true
  · rw [if_pos eligible, if_pos (narrows.isEligible name eligible)]
  · rw [if_neg eligible]
    exact List.nil_sublist _

theorem inNameOrder_sublist {d' d : Discovery} (path : String) (entries : List (String × Node))
    (each : ∀ entry ∈ entries, d'.walkEntry (Path.join path entry.1) entry.1 entry.2 <+
      d.walkEntry (Path.join path entry.1) entry.1 entry.2) :
    inNameOrder (d'.walkEntries path entries) <+ inNameOrder (d.walkEntries path entries) := by
  rw [inNameOrder_eq, inNameOrder_eq]
  apply List.Sublist.flatMap_right
  intro entry member
  exact each entry ((mem_inOrder entries entry).mp member)

theorem Narrows.walkEntry_sublist {d' d : Discovery} (narrows : d'.Narrows d) (node : Node)
    (path name : String) : d'.walkEntry path name node <+ d.walkEntry path name node := by
  induction node using Node.treeInduction generalizing path name with
  | file content executable =>
    rw [walkEntry, walkEntry]
    · exact narrows.leaf_sublist path name
    · simp
    · simp
  | link target =>
    rw [walkEntry, walkEntry]
    · exact narrows.leaf_sublist path name
    · simp
    · simp
  | directory entries ih =>
    rw [walkEntry, walkEntry]
    by_cases barred : name ∈ d'.passedOver
    · rw [if_pos (List.contains_iff_mem.mpr barred)]
      exact List.nil_sublist _
    · have open_before : name ∉ d.passedOver := fun member => barred (narrows.passedOver member)
      rw [if_neg (by simpa using barred), if_neg (by simpa using open_before)]
      cases Path.fault? path with
      | some fault => exact List.Sublist.refl _
      | none => exact inNameOrder_sublist path entries fun entry member => ih entry member _ _

theorem Narrows.walk_sublist {d' d : Discovery} (narrows : d'.Narrows d) (t : FileTree)
    (found : List Found) (walked : d.walk t = .ok found) :
    ∃ found', d'.walk t = .ok found' ∧ found' <+ found := by
  obtain ⟨entries, root, rfl⟩ := (walk_eq_ok_iff d t found).mp walked
  refine ⟨_, (walk_eq_ok_iff d' t _).mpr ⟨entries, narrows.root ▸ root, rfl⟩, ?_⟩
  rw [narrows.root]
  apply inNameOrder_sublist
  intro entry _
  exact narrows.walkEntry_sublist entry.2 _ _

end Discovery

theorem Exclusion.excludes_of_subset {x x' : Exclusion} (more : x.suffixes ⊆ x'.suffixes)
    (workingDirectory path : String) (excluded : x.excludes workingDirectory path = true) :
    x'.excludes workingDirectory path = true := by
  simp only [excludes, List.any_eq_true] at excluded ⊢
  obtain ⟨suffix, member, ends⟩ := excluded
  exact ⟨suffix, more member, ends⟩

theorem FileTree.usagesAt_sublist [TreeReader] (t : FileTree) {x x' : Exclusion}
    (more : x.suffixes ⊆ x'.suffixes) (ds : List Declaration) (path : String) :
    t.usagesAt x' ds path <+ t.usagesAt x ds path := by
  unfold usagesAt
  cases t.readSource path with
  | error e => exact List.Sublist.refl _
  | ok parsed =>
    dsimp only
    by_cases excluded : x'.excludes t.workingPath path = true
    · rw [if_pos excluded]
      exact List.nil_sublist _
    · have kept : ¬x.excludes t.workingPath path = true := fun before =>
        excluded (Exclusion.excludes_of_subset more _ path before)
      rw [if_neg excluded, if_neg kept]

theorem importersAmong_sublist {us vs : List (String × String)} (fewer : us <+ vs) (n : String) :
    importersAmong us n <+ importersAmong vs n :=
  (fewer.filter _).map _

namespace Options

/-- The same options but for more directories passed over, more exclusions and fewer extensions. -/
structure Narrows (o' o : Options) : Prop where
  others : o' = { o with
    passedOver := o'.passedOver, exclusion := o'.exclusion, extensions := o'.extensions }
  passedOver : o.passedOver ⊆ o'.passedOver
  suffixes : o.exclusion.suffixes ⊆ o'.exclusion.suffixes
  extensions : o'.discovery.extensions ⊆ o.discovery.extensions

theorem Narrows.discovery {o' o : Options} (narrows : o'.Narrows o) :
    o'.discovery.Narrows o.discovery where
  root := by
    rw [root_discovery, root_discovery, narrows.others]
  passedOver := narrows.passedOver
  extensions := narrows.extensions

end Options

/-- A scan of less succeeds where one of more does. What it walks, skips and finds is a part of what
the other one does, in the same order, and what nobody imports stays so. -/
theorem narrowed_scan_finds_less [TreeReader] (o o' : Options) (t : FileTree)
    (narrows : o'.Narrows o) (s : Scan) (accepted : scan o t = .ok s) :
    ∃ s' paths paths', scan o' t = .ok s' ∧
      o.discovery.walk t = .ok (paths.map .ok) ∧ o'.discovery.walk t = .ok (paths'.map .ok) ∧
      paths' <+ paths ∧ s'.skipped <+ s.skipped ∧ s'.declarations = s.declarations ∧
      (∀ n, (s'.index.importers? n).getD [] <+ (s.index.importers? n).getD []) ∧
      s.unused <+ s'.unused := by
  obtain ⟨parsed, paths, target, walked, harmless, rfl⟩ := (scan_eq_ok_iff o t s).mp accepted
  obtain ⟨found', walked', fewer⟩ := narrows.discovery.walk_sublist t _ walked
  obtain ⟨paths', part, rfl⟩ := List.sublist_map_iff.mp fewer
  have same_target : o'.target = o.target := by rw [narrows.others]
  have same_scope : o'.scope = o.scope := by rw [narrows.others]
  have same_strict : o'.strict = o.strict := by rw [narrows.others]
  have usages : paths'.flatMap (t.usagesAt o'.exclusion (o.scope.select parsed.declarations)) <+
      paths.flatMap (t.usagesAt o.exclusion (o.scope.select parsed.declarations)) :=
    (part.flatMap _).trans (List.Sublist.flatMap_right paths fun path _ =>
      t.usagesAt_sublist narrows.suffixes _ path)
  refine ⟨_, paths, paths', (scan_eq_ok_iff o' t _).mpr
    ⟨parsed, paths', same_target ▸ target, walked', ?_, rfl⟩, walked, walked', part,
    part.filterMap _, ?_, ?_, ?_⟩
  · intro path member e read
    rw [same_strict]
    exact harmless path (part.subset member) e read
  · rw [Scan.ofPaths, same_scope]
    rfl
  · intro n
    rw [Scan.ofPaths, Scan.ofPaths, UsageIndex.getD_importers?_ofUsages,
      UsageIndex.getD_importers?_ofUsages, same_scope]
    exact importersAmong_sublist usages n
  · rw [Scan.unused, Scan.unused, Scan.ofPaths, Scan.ofPaths, same_scope]
    apply List.monotone_filter_right
    intro d unused
    simp only [Bool.not_eq_true', ← Bool.not_eq_true, UsageIndex.contains_ofUsages, ne_eq,
      not_not] at unused ⊢
    exact List.eq_nil_of_sublist_nil (unused ▸ importersAmong_sublist usages d.name)

/- Each of the three restrictions takes one file away, and the one that stays imports nothing. -/
def layeredEntries : List (String × Node) :=
  [("gen", .directory [("one.ts", .file (.text "import \x7b a \x7d from '../../lib';\n") false)]),
    ("main.ts", .file (.text "import 'reset.css';\n") false),
    ("notes.md", .file (.text "") false),
    ("two.spec.ts", .file (.text "import \x7b a, b \x7d from '../lib';\n") false)]

def layeredTree : FileTree :=
  ⟨.directory [("lib.ts", .file (.text "export const a = 0, b = 0, c = 0;\n") false),
    ("src", .directory layeredEntries)], []⟩

def wideOptions : Options :=
  { target := "lib.ts", root := "src", output := "out", extensions := ["md", "ts"] }

def narrowOptions : Options :=
  { wideOptions with
    passedOver := ["gen"], exclusion := ⟨[".spec.ts"]⟩, extensions := [".ts"] }

def wideScan : Scan where
  declarations := ["a", "b", "c"].map (⟨·, .variableBinding, true, 1⟩)
  index := ⟨[("a", ["one.ts", "two.spec.ts"]), ("b", ["two.spec.ts"])]⟩
  filesScanned := 4
  filesExcluded := 0
  skipped := [⟨"src/notes.md", "Unsupported file type: md"⟩]

local instance layeredReader : TreeReader :=
  .knowing [[.exporting "a" ["b", "c"]], [.importing ["a"] "../../lib"],
    [.imports ⟨.sideEffect, "reset.css", 0⟩], [.importing ["a", "b"] "../lib"]]

theorem scan_wideOptions : scan wideOptions layeredTree = .ok wideScan := by
  have root : layeredTree.find "src" = .ok (.directory layeredEntries) := by with_unfolding_all rfl
  have walked : wideOptions.discovery.walk layeredTree =
      .ok [.ok "src/gen/one.ts", .ok "src/main.ts", .ok "src/notes.md", .ok "src/two.spec.ts"] :=
    Discovery.walk_of_sorted root (by decide +kernel) (by decide +kernel)
  rw [scan, walked]
  decide +kernel

theorem narrowed_scan_layeredTree :
    narrowOptions.Narrows wideOptions ∧
    ∃ s' paths paths', scan narrowOptions layeredTree = .ok s' ∧
      wideOptions.discovery.walk layeredTree = .ok (paths.map .ok) ∧
      narrowOptions.discovery.walk layeredTree = .ok (paths'.map .ok) ∧
      paths' <+ paths ∧ s'.skipped <+ wideScan.skipped ∧
      (s'.index.importers? "a").getD [] <+ ["one.ts", "two.spec.ts"] ∧
      (s'.index.importers? "c").getD [] <+ [] ∧ wideScan.unused <+ s'.unused := by
  have narrows : narrowOptions.Narrows wideOptions :=
    ⟨rfl, by decide, by decide, by decide⟩
  obtain ⟨s', paths, paths', accepted, walked, walked', part, skipped, _, importers, unused⟩ :=
    narrowed_scan_finds_less wideOptions narrowOptions layeredTree narrows wideScan
      scan_wideOptions
  exact ⟨narrows, s', paths, paths', accepted, walked, walked', part, skipped, importers "a",
    importers "c", unused⟩

end ImportUsage
