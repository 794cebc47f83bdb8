import ImportUsage.Proofs.Scan.Steps
import ImportUsage.Proofs.Source.TextTree

/-! Strict and lenient scans. They differ only in what becomes of a file that cannot be parsed. -/

namespace ImportUsage

attribute [local irreducible] FileTree.readSource

theorem isFatal_strict (e : SourceError) : e.isFatal true = true := by
  cases e <;> rfl

section

variable [TreeReader]

theorem skippedAt?_eq_none (t : FileTree) (path : String) :
    t.skippedAt? path = none ↔ ∀ e, t.readSource path ≠ .error e := by
  simp only [FileTree.skippedAt?, FileTree.sourceError?]
  cases t.readSource path <;> simp

theorem skipped_eq_nil (t : FileTree) (paths : List String) :
    paths.filterMap t.skippedAt? = [] ↔
      ∀ path ∈ paths, ∀ e, t.readSource path ≠ .error e := by
  simp only [List.filterMap_eq_nil_iff, skippedAt?_eq_none]

/-- The file that a lenient scan skips first is what ends a strict one. -/
theorem first_skipped_fatal (t : FileTree) (paths : List String) (first : Skipped)
    (rest : List Skipped) (skips : paths.filterMap t.skippedAt? = first :: rest) :
    ∃ e, (paths.map .ok).findSome? (t.fatal? true) = some (.candidate e) ∧
      t.readSource first.path = .error e ∧ e.message = first.reason := by
  induction paths with
  | nil => simp at skips
  | cons path more ih =>
    rw [List.map_cons, List.findSome?_cons]
    cases read : t.readSource path with
    | ok parsed =>
      have kept : t.skippedAt? path = none := by
        simp [FileTree.skippedAt?, FileTree.sourceError?, read]
      have harmless : t.fatal? true (.ok path) = none := by
        simp [FileTree.fatal?, FileTree.sourceError?, read]
      rw [List.filterMap_cons_none kept] at skips
      rw [harmless]
      exact ih skips
    | error e =>
      have skipped : t.skippedAt? path = some ⟨path, e.message⟩ := by
        simp [FileTree.skippedAt?, FileTree.sourceError?, read]
      have fatal : t.fatal? true (.ok path) = some (.candidate e) := by
        simp [FileTree.fatal?, FileTree.sourceError?, read, Option.filter, isFatal_strict]
      rw [List.filterMap_cons_some skipped] at skips
      cases skips
      exact ⟨e, by rw [fatal], read, rfl⟩

theorem strict_scan_lenient (o : Options) (t : FileTree) (s : Scan)
    (accepted : scan { o with strict := true } t = .ok s) :
    scan { o with strict := false } t = .ok s ∧ s.skipped = [] := by
  obtain ⟨parsed, paths, target, walked, harmless, rfl⟩ := (scan_eq_ok_iff _ t s).mp accepted
  have outlines : ∀ path ∈ paths, ∀ e, t.readSource path ≠ .error e := by
    intro path member e read
    have lenient := harmless path member e read
    rw [isFatal_strict] at lenient
    contradiction
  constructor
  · rw [scan_eq_ok_iff]
    exact ⟨parsed, paths, target, walked,
      fun path member e read => absurd read (outlines path member e), rfl⟩
  · exact (skipped_eq_nil t paths).mpr outlines

theorem lenient_scan_strict (o : Options) (t : FileTree) (s : Scan)
    (accepted : scan { o with strict := false } t = .ok s) (none_skipped : s.skipped = []) :
    scan { o with strict := true } t = .ok s := by
  obtain ⟨parsed, paths, target, walked, _, rfl⟩ := (scan_eq_ok_iff _ t s).mp accepted
  have outlines := (skipped_eq_nil t paths).mp none_skipped
  rw [scan_eq_ok_iff]
  exact ⟨parsed, paths, target, walked,
    fun path member e read => absurd read (outlines path member e), rfl⟩

theorem lenient_scan_skipping (o : Options) (t : FileTree) (s : Scan)
    (accepted : scan { o with strict := false } t = .ok s) (first : Skipped)
    (rest : List Skipped) (skips : s.skipped = first :: rest) :
    ∃ e, scan { o with strict := true } t = .error (.candidate e) ∧
      t.readSource first.path = .error e ∧ e.message = first.reason := by
  obtain ⟨parsed, paths, target, walked, _, rfl⟩ := (scan_eq_ok_iff _ t s).mp accepted
  obtain ⟨e, fatal, read, reason⟩ := first_skipped_fatal t paths first rest skips
  refine ⟨e, ?_, read, reason⟩
  rw [scan_eq { o with strict := true } t parsed _ target walked, fatal]

/-- Strict and lenient scans agree up to the first file that cannot be parsed. -/
theorem strict_and_lenient_agree (o : Options) (t : FileTree) :
    (∀ s, scan { o with strict := true } t = .ok s →
      scan { o with strict := false } t = .ok s ∧ s.skipped = []) ∧
    (∀ s, scan { o with strict := false } t = .ok s → s.skipped = [] →
      scan { o with strict := true } t = .ok s) ∧
    (∀ s first rest, scan { o with strict := false } t = .ok s → s.skipped = first :: rest →
      ∃ e, scan { o with strict := true } t = .error (.candidate e) ∧
        t.readSource first.path = .error e ∧ e.message = first.reason) :=
  ⟨strict_scan_lenient o t, lenient_scan_strict o t,
    fun s first rest accepted skips => lenient_scan_skipping o t s accepted first rest skips⟩

end

/- The target is imported in one directory, and the other one holds a file that is no source. -/
def twoRoots : FileTree :=
  ⟨.directory [("docs", .directory [("notes.md", .file (.text "") false)]),
    ("lib.ts", .file (.text "export const a = 0;\n") false),
    ("src", .directory [("one.ts", .file (.text "import \x7b a \x7d from '../lib';\n") false)])], []⟩

def scanOf (root extension : String) : Options :=
  { target := "lib.ts", root := root, output := "out", extensions := [extension] }

local instance twoRootsReader : TreeReader :=
  .knowing [[.exporting "a" []], [.importing ["a"] "../lib"]]

theorem strict_and_lenient_agree_sample :
    (∃ s, scan { scanOf "src" "ts" with strict := true } twoRoots = .ok s ∧
      scan { scanOf "src" "ts" with strict := false } twoRoots = .ok s ∧ s.skipped = []) ∧
    (∃ s, scan { scanOf "docs" "md" with strict := false } twoRoots = .ok s ∧
      s.skipped = [⟨"docs/notes.md", "Unsupported file type: md"⟩] ∧
      ∃ e, scan { scanOf "docs" "md" with strict := true } twoRoots = .error (.candidate e) ∧
        twoRoots.readSource "docs/notes.md" = .error e ∧
        e.message = "Unsupported file type: md") := by
  have lenient : scan { scanOf "src" "ts" with strict := false } twoRoots =
      .ok ⟨[⟨"a", .variableBinding, true, 1⟩], ⟨[("a", ["one.ts"])]⟩, 1, 0, []⟩ := by
    decide +kernel
  have skipping : scan { scanOf "docs" "md" with strict := false } twoRoots =
      .ok ⟨[⟨"a", .variableBinding, true, 1⟩], ⟨[]⟩, 1, 0,
        [⟨"docs/notes.md", "Unsupported file type: md"⟩]⟩ := by
    decide +kernel
  have strict := (strict_and_lenient_agree (scanOf "src" "ts") twoRoots).2.1 _ lenient rfl
  have again := (strict_and_lenient_agree (scanOf "src" "ts") twoRoots).1 _ strict
  have aborted := (strict_and_lenient_agree (scanOf "docs" "md") twoRoots).2.2 _
    ⟨"docs/notes.md", "Unsupported file type: md"⟩ [] skipping rfl
  exact ⟨⟨_, strict, again⟩, _, skipping, rfl, aborted⟩

end ImportUsage
