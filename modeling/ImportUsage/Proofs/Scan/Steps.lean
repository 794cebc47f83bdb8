import ImportUsage.Proofs.Usage.Index
import ImportUsage.Scan.Basic

/-! The steps of a scan put together. The first find of the walk that is fatal ends the scan; where
there is none, every part of the result is a function of the paths in the order of the walk. -/

namespace ImportUsage

-- What a file holds plays no part here: reading is not to be unfolded.
attribute [local irreducible] FileTree.readSource

/-- The paths among the finds of a walk. -/
def pathsIn (found : List Found) : List String := found.filterMap (·.toOption)

@[simp] theorem pathsIn_error (e : WalkError) (rest : List Found) :
    pathsIn (.error e :: rest) = pathsIn rest := rfl

@[simp] theorem pathsIn_ok (path : String) (rest : List Found) :
    pathsIn (.ok path :: rest) = path :: pathsIn rest := rfl

theorem pathsIn_map_ok (paths : List String) : pathsIn (paths.map .ok) = paths := by
  simp [pathsIn, List.filterMap_map, Except.toOption]

theorem mapError_ok {ε δ α : Type} (f : ε → δ) (a : α) :
    (Except.ok a : Except ε α).mapError f = .ok a := rfl

theorem mapError_error {ε δ α : Type} (f : ε → δ) (e : ε) :
    (Except.error e : Except ε α).mapError f = .error (f e) := rfl

variable [TreeReader]

namespace FileTree

/-- The usages that a file adds, each a declaration with the module of the file. -/
def usagesAt (t : FileTree) (x : Exclusion) (ds : List Declaration) (path : String) :
    List (String × String) :=
  match t.readSource path with
  | .ok parsed =>
    if x.excludes t.workingPath path then []
    else (usedNames ds parsed.imports).map (·, moduleOf path)
  | .error _ => []

/-- Is the file parsed, and then excluded? -/
def isExcludedAt (t : FileTree) (x : Exclusion) (path : String) : Bool :=
  match t.readSource path with
  | .ok _ => x.excludes t.workingPath path
  | .error _ => false

/-- Why a file yields no outline, if it yields none. -/
def sourceError? (t : FileTree) (path : String) : Option SourceError :=
  match t.readSource path with
  | .ok _ => none
  | .error e => some e

/-- A file that yields no outline, with the reason. -/
def skippedAt? (t : FileTree) (path : String) : Option Skipped :=
  (t.sourceError? path).map fun e => ⟨path, e.message⟩

/-- Why a find of the walk ends a scan, if it does. -/
def fatal? (t : FileTree) (strict : Bool) : Found → Option ScanError
  | .error e => some (.discovery (.walk e))
  | .ok path => ((t.sourceError? path).filter (·.isFatal strict)).map .candidate

end FileTree

namespace Progress

/-- The progress after the files of these paths, if none of them ends the scan. -/
def after (o : Options) (ds : List Declaration) (t : FileTree) (p : Progress)
    (paths : List String) : Progress where
  index := p.index.recordAll (paths.flatMap (t.usagesAt o.exclusion ds))
  filesScanned := p.filesScanned + paths.length
  filesExcluded := p.filesExcluded + paths.countP (t.isExcludedAt o.exclusion)
  skipped := p.skipped ++ paths.filterMap t.skippedAt?

variable (o : Options) (ds : List Declaration) (t : FileTree)

theorem after_nil (p : Progress) : p.after o ds t [] = p := by
  simp [after]

theorem after_append (p : Progress) (paths more : List String) :
    p.after o ds t (paths ++ more) = (p.after o ds t paths).after o ds t more := by
  simp only [after, List.flatMap_append, UsageIndex.recordAll_append, List.length_append,
    List.countP_append, List.filterMap_append, List.append_assoc, Nat.add_assoc]

theorem visit_ok (p : Progress) (path : String) (parsed : Parsed)
    (read : t.readSource path = .ok parsed) :
    p.visit o ds t path = .ok (p.after o ds t [path]) := by
  unfold visit
  rw [read]
  by_cases excluded : o.exclusion.excludes t.workingPath path
  · simp [resolve, excluded, after, read, FileTree.usagesAt, FileTree.isExcludedAt,
      FileTree.skippedAt?, FileTree.sourceError?]
  · simp [resolve, excluded, after, read, FileTree.usagesAt, FileTree.isExcludedAt,
      FileTree.skippedAt?, FileTree.sourceError?]

theorem visit_error (p : Progress) (path : String) (e : SourceError)
    (read : t.readSource path = .error e) :
    p.visit o ds t path =
      if e.isFatal o.strict then .error e else .ok (p.after o ds t [path]) := by
  unfold visit
  rw [read]
  simp [after, read, FileTree.usagesAt, FileTree.isExcludedAt, FileTree.skippedAt?,
    FileTree.sourceError?]

/-- One step: a find ends the scan or adds what its file shows. -/
theorem take_eq (p : Progress) (found : Found) :
    p.take o ds t found =
      match t.fatal? o.strict found with
      | some e => .error e
      | none => .ok (p.after o ds t (pathsIn [found])) := by
  cases found with
  | error e => simp only [take, FileTree.fatal?]
  | ok path =>
    simp only [take, FileTree.fatal?, FileTree.sourceError?, pathsIn_ok]
    cases read : t.readSource path with
    | ok parsed =>
      rw [visit_ok o ds t p path parsed read]
      rfl
    | error e =>
      rw [visit_error o ds t p path e read]
      cases fatal : e.isFatal o.strict
      · simp [fatal, pathsIn, Option.filter, mapError_ok]
      · simp [fatal, Option.filter, mapError_error]

/-- A whole walk: the first fatal find ends the scan, or all paths count. -/
theorem foldlM_take (found : List Found) (p : Progress) :
    found.foldlM (Progress.take o ds t) p =
      match found.findSome? (t.fatal? o.strict) with
      | some e => .error e
      | none => .ok (p.after o ds t (pathsIn found)) := by
  induction found generalizing p with
  | nil => simp [pathsIn, after_nil, pure, Except.pure]
  | cons first rest ih =>
    rw [List.foldlM_cons, take_eq, List.findSome?_cons]
    cases t.fatal? o.strict first with
    | some e => rfl
    | none =>
      have joined : pathsIn (first :: rest) = pathsIn [first] ++ pathsIn rest :=
        List.filterMap_append (l := [first])
      rw [joined, after_append]
      exact ih _

end Progress

/-- The result of a scan whose walk finds these paths. -/
def Scan.ofPaths (o : Options) (ds : List Declaration) (t : FileTree) (paths : List String) :
    Scan where
  declarations := ds
  index := .ofUsages (paths.flatMap (t.usagesAt o.exclusion ds))
  filesScanned := paths.length
  filesExcluded := paths.countP (t.isExcludedAt o.exclusion)
  skipped := paths.filterMap t.skippedAt?

theorem scan_eq (o : Options) (t : FileTree) (parsed : Parsed) (found : List Found)
    (target : t.readSource o.target = .ok parsed) (walked : o.discovery.walk t = .ok found) :
    scan o t =
      match found.findSome? (t.fatal? o.strict) with
      | some e => .error e
      | none => .ok (.ofPaths o (o.scope.select parsed.declarations) t (pathsIn found)) := by
  simp only [scan, target, walked, mapError_ok, bind, Except.bind, Progress.foldlM_take]
  cases found.findSome? (t.fatal? o.strict) with
  | some e => rfl
  | none => simp [Progress.after, Scan.ofPaths, UsageIndex.ofUsages]

theorem target_read (o : Options) (t : FileTree) (s : Scan) (accepted : scan o t = .ok s) :
    ∃ parsed, t.readSource o.target = .ok parsed := by
  cases read : t.readSource o.target with
  | error e => simp [scan, read, mapError_error, bind, Except.bind] at accepted
  | ok parsed => exact ⟨parsed, rfl⟩

theorem root_walked (o : Options) (t : FileTree) (s : Scan) (accepted : scan o t = .ok s) :
    ∃ found, o.discovery.walk t = .ok found := by
  obtain ⟨parsed, read⟩ := target_read o t s accepted
  cases walked : o.discovery.walk t with
  | error e => simp [scan, read, walked, mapError_ok, mapError_error, bind, Except.bind] at accepted
  | ok found => exact ⟨found, rfl⟩

theorem fatal?_ok_eq_none (t : FileTree) (strict : Bool) (path : String) :
    t.fatal? strict (.ok path) = none ↔
      ∀ e, t.readSource path = .error e → e.isFatal strict = false := by
  simp only [FileTree.fatal?, FileTree.sourceError?]
  cases t.readSource path with
  | ok parsed => simp
  | error e => cases fatal : e.isFatal strict <;> simp [fatal]

theorem findSome?_fatal_eq_none (t : FileTree) (strict : Bool) (found : List Found) :
    found.findSome? (t.fatal? strict) = none ↔
      found = (pathsIn found).map .ok ∧
      ∀ path ∈ pathsIn found, ∀ e, t.readSource path = .error e → e.isFatal strict = false := by
  induction found with
  | nil => simp [pathsIn]
  | cons first rest ih =>
    rw [List.findSome?_eq_none_iff, List.forall_mem_cons, ← List.findSome?_eq_none_iff, ih]
    cases first with
    | error e =>
      have not_paths : (.error e :: rest : List Found) ≠ (pathsIn rest).map .ok := by
        cases pathsIn rest <;> simp
      simp [FileTree.fatal?, not_paths]
    | ok path =>
      rw [fatal?_ok_eq_none, pathsIn_ok, List.map_cons, List.cons.injEq, List.forall_mem_cons]
      constructor
      · rintro ⟨harmless, paths, others⟩
        exact ⟨⟨rfl, paths⟩, harmless, others⟩
      · rintro ⟨⟨_, paths⟩, harmless, others⟩
        exact ⟨harmless, paths, others⟩

/-- A scan that succeeds has read the target and walked the root, and met nothing fatal. -/
theorem scan_eq_ok_iff (o : Options) (t : FileTree) (s : Scan) :
    scan o t = .ok s ↔
      ∃ parsed paths, t.readSource o.target = .ok parsed ∧
        o.discovery.walk t = .ok (paths.map .ok) ∧
        (∀ path ∈ paths, ∀ e, t.readSource path = .error e → e.isFatal o.strict = false) ∧
        s = .ofPaths o (o.scope.select parsed.declarations) t paths := by
  constructor
  · intro accepted
    obtain ⟨parsed, target⟩ := target_read o t s accepted
    obtain ⟨found, walked⟩ := root_walked o t s accepted
    rw [scan_eq o t parsed found target walked] at accepted
    cases none_fatal : found.findSome? (t.fatal? o.strict) with
    | some e => simp [none_fatal] at accepted
    | none =>
      simp only [none_fatal, Except.ok.injEq] at accepted
      have harmless := (findSome?_fatal_eq_none t o.strict found).mp none_fatal
      refine ⟨parsed, pathsIn found, target, ?_, harmless.2, accepted.symm⟩
      rw [← harmless.1]
      exact walked
  · rintro ⟨parsed, paths, target, walked, harmless, rfl⟩
    have none_fatal := (findSome?_fatal_eq_none t o.strict (paths.map .ok)).mpr
      ⟨by rw [pathsIn_map_ok], by rwa [pathsIn_map_ok]⟩
    rw [scan_eq o t parsed _ target walked, none_fatal, pathsIn_map_ok]

theorem not_unreadable_of_harmless {t : FileTree} {strict : Bool} {path : String}
    (harmless : ∀ e, t.readSource path = .error e → e.isFatal strict = false) (fault : Fault) :
    t.readSource path ≠ .error (.unreadable path fault) := by
  intro unread
  have calm := harmless _ unread
  simp [SourceError.isFatal] at calm

end ImportUsage
