import ImportUsage.Proofs.Discovery.Walk
import ImportUsage.Proofs.Scan.Strict

/-! The number of excluded files. A file is counted when it has been parsed and its path is excluded,
so an excluded file that is skipped is missing from the number. -/

namespace ImportUsage

attribute [local irreducible] FileTree.readSource

/-- Every excluded file is counted or skipped. -/
theorem countP_excludes [TreeReader] (t : FileTree) (x : Exclusion) (paths : List String) :
    paths.countP (x.excludes t.workingPath) =
      paths.countP (t.isExcludedAt x) +
        (paths.filterMap t.skippedAt?).countP (x.excludes t.workingPath ·.path) := by
  induction paths with
  | nil => rfl
  | cons path rest ih =>
    cases read : t.readSource path with
    | ok parsed =>
      have kept : t.skippedAt? path = none := by
        simp [FileTree.skippedAt?, FileTree.sourceError?, read]
      have counted : t.isExcludedAt x path = x.excludes t.workingPath path := by
        simp [FileTree.isExcludedAt, read]
      rw [List.filterMap_cons_none kept, List.countP_cons, List.countP_cons, counted, ih]
      omega
    | error e =>
      have skipped : t.skippedAt? path = some ⟨path, e.message⟩ := by
        simp [FileTree.skippedAt?, FileTree.sourceError?, read]
      have passed : t.isExcludedAt x path = false := by
        simp [FileTree.isExcludedAt, read]
      rw [List.filterMap_cons_some skipped, List.countP_cons, List.countP_cons, List.countP_cons,
        passed, ih, if_neg Bool.false_ne_true, Nat.add_zero, Nat.add_assoc]

/-- The number of excluded files falls short of the excluded paths of the walk by the skipped files
among them, so it is right if and only if no skipped file is excluded, and always in a strict
scan. -/
theorem excluded_count_iff [TreeReader] (o : Options) (t : FileTree) (s : Scan)
    (accepted : scan o t = .ok s) :
    ∃ paths : List String, o.discovery.walk t = .ok (paths.map .ok) ∧
      paths.countP (o.exclusion.excludes t.workingPath) =
        s.filesExcluded + s.skipped.countP (o.exclusion.excludes t.workingPath ·.path) ∧
      (s.filesExcluded = paths.countP (o.exclusion.excludes t.workingPath) ↔
        ∀ k ∈ s.skipped, o.exclusion.excludes t.workingPath k.path = false) ∧
      (o.strict = true → s.filesExcluded = paths.countP (o.exclusion.excludes t.workingPath)) := by
  obtain ⟨parsed, paths, _, walked, harmless, rfl⟩ := (scan_eq_ok_iff o t s).mp accepted
  have counted := countP_excludes t o.exclusion paths
  refine ⟨paths, walked, counted, ?_, ?_⟩
  · simp only [Scan.ofPaths]
    rw [counted, Nat.left_eq_add, List.countP_eq_zero]
    simp only [Bool.not_eq_true]
  · intro strict
    have outlines : ∀ path ∈ paths, ∀ e, t.readSource path ≠ .error e := by
      intro path member e read
      have calm := harmless path member e read
      rw [strict, isFatal_strict] at calm
      contradiction
    rw [(skipped_eq_nil t paths).mpr outlines, List.countP_nil, Nat.add_zero] at counted
    exact counted.symm

/- Two of the four files are excluded, and two are no sources; one of them is both. -/
def fixtureEntries : List (String × Node) :=
  [("a.spec.ts", .file (.text "import \x7b a \x7d from '../lib';\n") false),
    ("b.spec.md", .file (.text "") false), ("c.md", .file (.text "") false),
    ("d.ts", .file (.text "import \x7b a \x7d from '../lib';\n") false)]

def fixtureTree : FileTree :=
  ⟨.directory [("lib.ts", .file (.text "export const a = 0;\n") false),
    ("src", .directory fixtureEntries)], []⟩

def fixtureOptions : Options :=
  { target := "lib.ts", root := "src", output := "out", exclusion := ⟨[".spec.ts", ".spec.md"]⟩,
    extensions := ["ts", "md"] }

def fixtureScan : Scan where
  declarations := [⟨"a", .variableBinding, true, 1⟩]
  index := ⟨[("a", ["d.ts"])]⟩
  filesScanned := 4
  filesExcluded := 1
  skipped := [⟨"src/b.spec.md", "Unsupported file type: md"⟩,
    ⟨"src/c.md", "Unsupported file type: md"⟩]

def fixturePaths : List String := ["src/a.spec.ts", "src/b.spec.md", "src/c.md", "src/d.ts"]

theorem walk_fixtureTree :
    fixtureOptions.discovery.walk fixtureTree = .ok (fixturePaths.map .ok) := by
  have root : fixtureTree.find "src" = .ok (.directory fixtureEntries) := by with_unfolding_all rfl
  rw [Discovery.walk_eq_ok_iff]
  refine ⟨_, root, ?_⟩
  rw [Discovery.inNameOrder_of_sorted _ (by decide +kernel)]
  decide +kernel

local instance fixtureReader : TreeReader :=
  .knowing [[.exporting "a" []], [.importing ["a"] "../lib"]]

theorem scan_fixtureTree : scan fixtureOptions fixtureTree = .ok fixtureScan := by
  rw [scan, walk_fixtureTree]
  decide +kernel

theorem excluded_count_fixtureTree :
    scan fixtureOptions fixtureTree = .ok fixtureScan ∧
      ∃ paths : List String, fixtureOptions.discovery.walk fixtureTree = .ok (paths.map .ok) ∧
        paths.countP (fixtureOptions.exclusion.excludes fixtureTree.workingPath) =
          fixtureScan.filesExcluded + 1 := by
  obtain ⟨paths, walked, counted, _⟩ := excluded_count_iff _ _ _ scan_fixtureTree
  exact ⟨scan_fixtureTree, paths, walked, counted⟩

/- Two paths of the walk are excluded, but only one of them is counted. -/
theorem excluded_file_uncounted :
    scan fixtureOptions fixtureTree = .ok fixtureScan ∧
      fixtureOptions.discovery.walk fixtureTree = .ok (fixturePaths.map .ok) ∧
      fixtureScan.filesExcluded ≠
        fixturePaths.countP (fixtureOptions.exclusion.excludes fixtureTree.workingPath) := by
  refine ⟨scan_fixtureTree, walk_fixtureTree, ?_⟩
  decide +kernel

end ImportUsage
