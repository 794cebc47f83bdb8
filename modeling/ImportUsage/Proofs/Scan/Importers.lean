import ImportUsage.Proofs.Discovery.Extensions
import ImportUsage.Proofs.Discovery.FileType
import ImportUsage.Proofs.Scan.Steps
import ImportUsage.Proofs.Usage.Resolution

/-! What a scan that succeeds has found: for every declaration the files that import it, in the
order of the walk. -/

namespace ImportUsage

attribute [local irreducible] FileTree.readSource

namespace FileTree

variable [TreeReader]

/-- The modules that import a name, file by file: a file counts if it is parsed and not excluded,
once for each of its import statements with that name. -/
def importersOf (t : FileTree) (x : Exclusion) (paths : List String) (n : String) : List String :=
  paths.flatMap fun path =>
    match t.readSource path with
    | .ok parsed =>
      if x.excludes t.workingPath path then []
      else List.replicate (statementsNaming parsed.imports n) (moduleOf path)
    | .error _ => []

/-- The first file that imports a name, by its place in the walk. -/
def firstImporter (t : FileTree) (x : Exclusion) (paths : List String) (n : String) : Nat :=
  paths.findIdx fun path => t.importersOf x [path] n ≠ []

variable (t : FileTree) (x : Exclusion)

theorem importersOf_cons (path : String) (rest : List String) (n : String) :
    t.importersOf x (path :: rest) n = t.importersOf x [path] n ++ t.importersOf x rest n := by
  simp [importersOf]

theorem importersAmong_usagesAt (ds : List Declaration) (different : (ds.map (·.name)).Nodup)
    (path n : String) :
    importersAmong (t.usagesAt x ds path) n =
      if n ∈ ds.map (·.name) then t.importersOf x [path] n else [] := by
  rw [usagesAt, importersOf, List.flatMap_singleton]
  cases t.readSource path with
  | error e => simp [importersAmong]
  | ok parsed =>
    by_cases excluded : x.excludes t.workingPath path
    · simp [excluded, importersAmong]
    · simp only [excluded, Bool.false_eq_true, if_false, importersAmong_map, count_usedNames,
        countP_name_eq ds different]
      split <;> simp

theorem importersAmong_walk (ds : List Declaration) (different : (ds.map (·.name)).Nodup)
    (paths : List String) (n : String) :
    importersAmong (paths.flatMap (t.usagesAt x ds)) n =
      if n ∈ ds.map (·.name) then t.importersOf x paths n else [] := by
  rw [importersAmong_flatMap]
  simp only [importersAmong_usagesAt t x ds different]
  split
  · induction paths with
    | nil => rfl
    | cons path rest ih => rw [List.flatMap_cons, ih, ← importersOf_cons]
  · simp

theorem usagesAt_ordered (ds : List Declaration) (path : String) :
    (distinct ((t.usagesAt x ds path).map (·.1))).Pairwise fun a b =>
      positionIn ds a < positionIn ds b := by
  rw [usagesAt]
  cases t.readSource path with
  | error e => exact .nil
  | ok parsed =>
    by_cases excluded : x.excludes t.workingPath path
    · simp only [excluded, if_true]
      exact .nil
    · simp only [excluded, Bool.false_eq_true, if_false, List.map_map]
      simpa [Function.comp_def] using usedNames_ordered ds parsed.imports

theorem mem_usagesAt (ds : List Declaration) (different : (ds.map (·.name)).Nodup)
    (path n : String) (declared : n ∈ ds.map (·.name)) :
    n ∈ (t.usagesAt x ds path).map (·.1) ↔ t.importersOf x [path] n ≠ [] := by
  have modules := importersAmong_usagesAt t x ds different path n
  rw [if_pos declared] at modules
  rw [← modules, ne_eq, importersAmong_eq_nil, not_not]

theorem declared_of_usagesAt (ds : List Declaration) (path n : String)
    (used : n ∈ (t.usagesAt x ds path).map (·.1)) : n ∈ ds.map (·.name) := by
  rw [usagesAt] at used
  cases read : t.readSource path with
  | error e => simp [read] at used
  | ok parsed =>
    by_cases excluded : x.excludes t.workingPath path
    · simp [read, excluded] at used
    · simp only [read, excluded, Bool.false_eq_true, if_false, List.map_map] at used
      have named : n ∈ usedNames ds parsed.imports := by simpa [Function.comp_def] using used
      exact ((mem_usedNames ds parsed.imports n).mp named).1

/-- The declarations of the index stand by the first file that imports them, and those of one file
in the order of the target. -/
theorem names_ordered (ds : List Declaration) (different : (ds.map (·.name)).Nodup)
    (paths : List String) :
    (UsageIndex.ofUsages (paths.flatMap (t.usagesAt x ds))).names.Pairwise fun a b =>
      t.firstImporter x paths a < t.firstImporter x paths b ∨
        t.firstImporter x paths a = t.firstImporter x paths b ∧
          positionIn ds a < positionIn ds b := by
  rw [UsageIndex.names_ofUsages, List.map_flatMap]
  have blocks := pairwise_distinct_flatMap (fun path => (t.usagesAt x ds path).map (·.1))
    (fun a b => positionIn ds a < positionIn ds b) paths
    (fun path _ => usagesAt_ordered t x ds path)
  -- a name is first used where it is first imported, since only declarations are recorded
  have place : ∀ n ∈ paths.flatMap (fun path => (t.usagesAt x ds path).map (·.1)),
      paths.findIdx (fun path => n ∈ (t.usagesAt x ds path).map (·.1)) =
        t.firstImporter x paths n := by
    intro n member
    obtain ⟨here, _, used⟩ := List.mem_flatMap.mp member
    have declared := declared_of_usagesAt t x ds here n used
    unfold firstImporter
    congr 1
    funext path
    rw [decide_eq_decide]
    exact mem_usagesAt t x ds different path n declared
  refine blocks.imp_of_mem ?_
  intro a b in_a in_b before
  rwa [place a ((mem_distinct _ a).mp in_a), place b ((mem_distinct _ b).mp in_b)] at before

end FileTree

theorem eligible_ne_dots (o : Options) (name : String)
    (eligible : o.discovery.isEligible name = true) : name ≠ "." ∧ name ≠ ".." := by
  simp only [Discovery.isEligible, List.any_eq_true, List.isSuffixOf_iff_suffix] at eligible
  obtain ⟨e, member, ends⟩ := eligible
  obtain ⟨filled, bare⟩ := o.extensions_plain e member
  exact Discovery.ne_dots_of_ends filled bare ends

theorem fileName?_of_walk (o : Options) (t : FileTree) (paths : List String)
    (valid : t.root.WellFormed) (walked : o.discovery.walk t = .ok (paths.map .ok)) (path : String)
    (member : path ∈ paths) : Path.fileName? path = some (moduleOf path) := by
  obtain ⟨directory, name, rfl, named, eligible⟩ :=
    o.discovery.ends_of_walk valid walked (List.mem_map_of_mem member)
  obtain ⟨stays, rises⟩ := eligible_ne_dots o name eligible
  have last := Path.fileName?_join directory name named stays rises
  rw [moduleOf, last]
  rfl

/-- A scan that succeeds holds exactly what the files of the walk show. -/
theorem scan_finds_importers [TreeReader] (o : Options) (t : FileTree) (s : Scan)
    (accepted : scan o t = .ok s) :
    ∃ parsed paths, t.readSource o.target = .ok parsed ∧
      o.discovery.walk t = .ok (paths.map .ok) ∧
      s.declarations = o.scope.select parsed.declarations ∧
      (∀ n, s.index.importers? n =
        if n ∈ s.declarations.map (·.name) ∧ t.importersOf o.exclusion paths n ≠ [] then
          some (t.importersOf o.exclusion paths n)
        else none) ∧
      (s.index.names.Pairwise fun a b =>
        t.firstImporter o.exclusion paths a < t.firstImporter o.exclusion paths b ∨
          t.firstImporter o.exclusion paths a = t.firstImporter o.exclusion paths b ∧
            positionIn s.declarations a < positionIn s.declarations b) ∧
      (t.root.WellFormed → ∀ path ∈ paths, Path.fileName? path = some (moduleOf path)) ∧
      s.filesScanned = paths.length ∧
      s.skipped = paths.filterMap t.skippedAt? ∧
      s.filesExcluded = paths.countP (t.isExcludedAt o.exclusion) := by
  obtain ⟨parsed, paths, target, walked, _, rfl⟩ := (scan_eq_ok_iff o t s).mp accepted
  have different := select_names_nodup o.scope parsed.declarations
  refine ⟨parsed, paths, target, walked, rfl, ?_, ?_, ?_, rfl, rfl, rfl⟩
  · intro n
    simp only [Scan.ofPaths, UsageIndex.importers?_ofUsages,
      FileTree.importersAmong_walk t o.exclusion _ different]
    by_cases declared : n ∈ (o.scope.select parsed.declarations).map (·.name)
    · by_cases none_found : t.importersOf o.exclusion paths n = []
      · simp [none_found]
      · simp only [declared, none_found, if_true, if_false, ne_eq, not_false_eq_true, and_self]
    · simp only [declared, if_false, if_true, false_and]
  · exact FileTree.names_ordered t o.exclusion _ different paths
  · exact fun valid path member => fileName?_of_walk o t paths valid walked path member

/- Names are imported twice, renamed, beside a main value and in an excluded file; two of them are
also local names of something else, and one file is no source. -/
def importingEntries : List (String × Node) :=
  [("bad.md", .file (.text "") false),
    ("one.spec.ts", .file (.text "import \x7b a \x7d from '../lib';\n") false),
    ("one.ts", .file (.text
      "import \x7b b as a \x7d from '../lib';\nimport \x7b c, b \x7d from '../lib';\n") false),
    ("two.ts", .file (.text
      "import b, \x7b a \x7d from '../lib';\nimport * as c from '../lib';\n") false)]

def importingTree : FileTree :=
  ⟨.directory [("lib.ts", .file (.text "export const a = 0;\nexport const b = 0, c = 0;\n") false),
    ("src", .directory importingEntries)], []⟩

def importingOptions : Options :=
  { target := "lib.ts", root := "src", output := "out", exclusion := ⟨[".spec.ts"]⟩,
    extensions := ["ts", ".md"] }

def importingScan : Scan where
  declarations := [⟨"a", .variableBinding, true, 1⟩, ⟨"b", .variableBinding, true, 2⟩,
    ⟨"c", .variableBinding, true, 2⟩]
  index := ⟨[("b", ["one.ts", "one.ts"]), ("c", ["one.ts"]), ("a", ["two.ts"])]⟩
  filesScanned := 4
  filesExcluded := 1
  skipped := [⟨"src/bad.md", "Unsupported file type: md"⟩]

local instance importingReader : TreeReader :=
  .knowing [[.exporting "a" [], .exporting "b" ["c"]], [.importing ["a"] "../lib"],
    [.imports ⟨.named none [⟨"b", some "a"⟩], "../lib", 0⟩, .importing ["c", "b"] "../lib"],
    [.imports ⟨.named (some "b") [⟨"a", none⟩], "../lib", 0⟩,
      .imports ⟨.whole "c", "../lib", 0⟩]]

theorem scan_importingTree : scan importingOptions importingTree = .ok importingScan := by
  have root : importingTree.find "src" = .ok (.directory importingEntries) := by with_unfolding_all rfl
  have walked : importingOptions.discovery.walk importingTree =
      .ok [.ok "src/bad.md", .ok "src/one.spec.ts", .ok "src/one.ts", .ok "src/two.ts"] := by
    rw [Discovery.walk_eq_ok_iff]
    refine ⟨_, root, ?_⟩
    rw [Discovery.inNameOrder_of_sorted _ (by decide +kernel)]
    decide +kernel
  rw [scan, walked]
  decide +kernel

theorem scan_finds_importers_sample :
    ∃ parsed paths, importingTree.readSource "lib.ts" = .ok parsed ∧
      importingOptions.discovery.walk importingTree = .ok (paths.map .ok) ∧
      importingScan.declarations = Scope.exported.select parsed.declarations ∧
      importingTree.importersOf importingOptions.exclusion paths "b" = ["one.ts", "one.ts"] ∧
      (∀ path ∈ paths, Path.fileName? path = some (moduleOf path)) ∧
      paths.length = 4 ∧ paths.filterMap importingTree.skippedAt? = importingScan.skipped ∧
      paths.countP (importingTree.isExcludedAt importingOptions.exclusion) = 1 := by
  obtain ⟨parsed, paths, target, walked, declared, importers, _, modules, scanned, skipped,
    excluded⟩ := scan_finds_importers importingOptions importingTree importingScan
      scan_importingTree
  have both := importers "b"
  rw [show importingScan.index.importers? "b" = some ["one.ts", "one.ts"] from rfl] at both
  refine ⟨parsed, paths, target, walked, declared, ?_, modules (by decide), scanned.symm,
    skipped.symm, excluded.symm⟩
  split at both
  · exact (Option.some.inj both).symm
  · contradiction

end ImportUsage
