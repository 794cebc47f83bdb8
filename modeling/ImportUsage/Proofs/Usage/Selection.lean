import ImportUsage.Proofs.Usage.Account
import ImportUsage.Source.Parsed

/-! The declarations that are searched for. Of those with one name the first in scope stays, and
which one that is does not matter for the files that import the name. -/

namespace ImportUsage

theorem mem_select_names (scope : Scope) (ds : List Declaration) (n : String) :
    n ∈ (scope.select ds).map (·.name) ↔ ∃ d ∈ ds, scope.admits d = true ∧ d.name = n := by
  rw [Scope.select, mem_map_distinctBy]
  simp [and_assoc]

theorem admits_of_mem_select {scope : Scope} {ds : List Declaration} {d : Declaration}
    (member : d ∈ scope.select ds) : scope.admits d = true := by
  have first := find?_of_mem_distinctBy Declaration.name (ds.filter scope.admits) member
  exact (List.mem_filter.mp (List.mem_of_find?_eq_some first)).2

theorem find?_of_mem_select {scope : Scope} {ds : List Declaration} {d : Declaration}
    (member : d ∈ scope.select ds) :
    ds.find? (fun e => scope.admits e && e.name = d.name) = some d := by
  have first := find?_of_mem_distinctBy Declaration.name (ds.filter scope.admits) member
  rw [List.find?_filter] at first
  simpa using first

theorem select_select (scope : Scope) (ds : List Declaration) :
    scope.select (scope.select ds) = scope.select ds := by
  have inside : (scope.select ds).filter scope.admits = scope.select ds :=
    List.filter_eq_self.mpr fun d member => admits_of_mem_select member
  rw [Scope.select, inside]
  exact distinctBy_of_nodup _ (select_names_nodup scope ds)

theorem mem_select_all {ds : List Declaration} {n : String}
    (member : n ∈ (Scope.exported.select ds).map (·.name)) :
    n ∈ (Scope.all.select ds).map (·.name) := by
  obtain ⟨d, listed, -, named⟩ := (mem_select_names _ ds n).mp member
  exact (mem_select_names _ ds n).mpr ⟨d, listed, rfl, named⟩

/-- One file: what a name gains depends on how often it is declared, and on nothing else of the
declarations. -/
theorem importers?_resolve_congr {ds es : List Declaration} {n : String}
    (counts : ds.countP (·.name = n) = es.countP (·.name = n)) (x : Exclusion)
    (workingDirectory path : String) (imports : List Import) {i j : UsageIndex}
    (same : i.importers? n = j.importers? n) :
    (resolve ds x workingDirectory path imports i).2.importers? n =
      (resolve es x workingDirectory path imports j).2.importers? n := by
  by_cases excluded : x.excludes workingDirectory path = true
  · simp only [resolve, excluded, if_true, same]
  · have used : usagesOf ds imports n = usagesOf es imports n := by rw [usagesOf, usagesOf, counts]
    simp only [resolve, excluded, Bool.false_eq_true, if_false]
    rw [importers?_recordUsed, importers?_recordUsed, used, same]

/-- The index once files are resolved one after the other, each a path with its outline. -/
def resolveFiles (ds : List Declaration) (x : Exclusion) (workingDirectory : String)
    (files : List (String × Parsed)) (index : UsageIndex) : UsageIndex :=
  files.foldl (fun i f => (resolve ds x workingDirectory f.1 f.2.imports i).2) index

theorem importers?_resolveFiles_congr {ds es : List Declaration} {n : String}
    (counts : ds.countP (·.name = n) = es.countP (·.name = n)) (x : Exclusion)
    (workingDirectory : String) (files : List (String × Parsed)) {i j : UsageIndex}
    (same : i.importers? n = j.importers? n) :
    (resolveFiles ds x workingDirectory files i).importers? n =
      (resolveFiles es x workingDirectory files j).importers? n := by
  induction files generalizing i j with
  | nil => exact same
  | cons f rest ih => exact ih (importers?_resolve_congr counts x workingDirectory f.1 _ same)

/-- Selecting keeps the first declaration in scope of every name, in the order of the text. A name
that is kept for its exports has the same importers if all declarations are searched for. -/
theorem select_keeps_first (parsed : Parsed) :
    (∀ scope : Scope,
      ((scope.select parsed.declarations).map (·.name)).Nodup ∧
      (∀ n, n ∈ (scope.select parsed.declarations).map (·.name) ↔
        ∃ d ∈ parsed.declarations, scope.admits d = true ∧ d.name = n) ∧
      (∀ d ∈ scope.select parsed.declarations,
        parsed.declarations.find? (fun e => scope.admits e && e.name = d.name) = some d) ∧
      ((scope.select parsed.declarations).Pairwise fun a b =>
        positionIn (parsed.declarations.filter scope.admits) a.name <
          positionIn (parsed.declarations.filter scope.admits) b.name) ∧
      scope.select (scope.select parsed.declarations) = scope.select parsed.declarations) ∧
    ∀ n ∈ (Scope.exported.select parsed.declarations).map (·.name),
      n ∈ (Scope.all.select parsed.declarations).map (·.name) ∧
      ∀ (x : Exclusion) (workingDirectory : String) (files : List (String × Parsed)),
        (resolveFiles (Scope.exported.select parsed.declarations) x workingDirectory files
          .empty).importers? n =
        (resolveFiles (Scope.all.select parsed.declarations) x workingDirectory files
          .empty).importers? n := by
  constructor
  · intro scope
    refine ⟨select_names_nodup scope _, mem_select_names scope _, ?_, ?_, select_select scope _⟩
    · exact fun d member => find?_of_mem_select member
    · exact distinctBy_ordered (·.name) (parsed.declarations.filter scope.admits)
  · intro n member
    refine ⟨mem_select_all member, ?_⟩
    intro x workingDirectory files
    -- either selection declares the name once
    have once (scope : Scope) (kept : n ∈ (scope.select parsed.declarations).map (·.name)) :
        (scope.select parsed.declarations).countP (·.name = n) = 1 := by
      rw [countP_name_eq _ (select_names_nodup scope _), if_pos kept]
    have counts := (once .exported member).trans (once .all (mem_select_all member)).symm
    exact importers?_resolveFiles_congr counts x workingDirectory files rfl

/-- Overloaded functions, one with a private signature in front of its exported one. -/
def Parsed.overloads : Parsed :=
  ⟨[⟨"f", .function, false, 1⟩, ⟨"g", .function, true, 2⟩, ⟨"f", .function, true, 3⟩,
    ⟨"g", .function, true, 4⟩, ⟨"h", .variableBinding, false, 5⟩], []⟩

theorem select_keeps_first_overloads :
    Scope.exported.select Parsed.overloads.declarations =
      [⟨"g", .function, true, 2⟩, ⟨"f", .function, true, 3⟩] ∧
    Scope.all.select Parsed.overloads.declarations =
      [⟨"f", .function, false, 1⟩, ⟨"g", .function, true, 2⟩, ⟨"h", .variableBinding, false, 5⟩] ∧
    Parsed.overloads.declarations.find? (fun e => Scope.exported.admits e && e.name = "f") =
      some ⟨"f", .function, true, 3⟩ ∧
    ∀ (x : Exclusion) (workingDirectory : String) (files : List (String × Parsed)),
      (resolveFiles [⟨"g", .function, true, 2⟩, ⟨"f", .function, true, 3⟩] x workingDirectory files
        .empty).importers? "f" =
      (resolveFiles [⟨"f", .function, false, 1⟩, ⟨"g", .function, true, 2⟩,
        ⟨"h", .variableBinding, false, 5⟩] x workingDirectory files .empty).importers? "f" := by
  obtain ⟨selected, matched⟩ := select_keeps_first .overloads
  obtain ⟨-, -, first, -⟩ := selected .exported
  exact ⟨by decide, by decide, first ⟨"f", .function, true, 3⟩ (by decide),
    (matched "f" (by decide)).2⟩

end ImportUsage
