import Mathlib.Algebra.GroupWithZero.Nat
import ImportUsage.Proofs.Usage.Resolution

/-! The account of one file: what its summary counts is what the index gains, name by name, whatever
the index held before and however often a name is declared. -/

namespace ImportUsage

/-- The usages in a file: over all declarations, the statements that import them. -/
def usagesIn (ds : List Declaration) (imports : List Import) : Nat :=
  (ds.map fun d => statementsNaming imports d.name).sum

theorem length_usedNames (ds : List Declaration) (imports : List Import) :
    (usedNames ds imports).length = usagesIn ds imports := by
  rw [usedNames_eq, List.length_flatMap, usagesIn]
  simp only [List.length_replicate]

/-- The usages of one declared name, over all declarations that have it. -/
def usagesOf (ds : List Declaration) (imports : List Import) (n : String) : Nat :=
  ds.countP (·.name = n) * statementsNaming imports n

/-- The declared names that a file imports, in the order of their declarations. -/
def importedNames (ds : List Declaration) (imports : List Import) : List String :=
  distinct ((ds.filter fun d => statementsNaming imports d.name ≠ 0).map (·.name))

theorem distinct_usedNames (ds : List Declaration) (imports : List Import) :
    distinct (usedNames ds imports) = importedNames ds imports := by
  rw [usedNames_eq, distinct_flatMap_replicate, importedNames]

theorem importers?_recordUsed (ds : List Declaration) (imports : List Import) (index : UsageIndex)
    (m n : String) :
    (index.recordAll ((usedNames ds imports).map (·, m))).importers? n =
      if usagesOf ds imports n = 0 then index.importers? n
      else some ((index.importers? n).getD [] ++ List.replicate (usagesOf ds imports n) m) := by
  have recorded : n ∈ ((usedNames ds imports).map (·, m)).map (·.1) ↔
      usagesOf ds imports n ≠ 0 := by
    rw [usagesOf, ← count_usedNames, Nat.ne_zero_iff_zero_lt, List.count_pos_iff, List.map_map]
    simp [Function.comp_def]
  rw [UsageIndex.importers?_recordAll, importersAmong_map, count_usedNames, ← usagesOf]
  simp only [recorded]
  split <;> simp_all

theorem names_recordUsed (ds : List Declaration) (imports : List Import) (index : UsageIndex)
    (m : String) :
    (index.recordAll ((usedNames ds imports).map (·, m))).names =
      index.names ++ (importedNames ds imports).filter (· ∉ index.names) := by
  have names : ((usedNames ds imports).map (·, m)).map (·.1) = usedNames ds imports := by
    simp [Function.comp_def]
  rw [UsageIndex.names_recordAll, names, distinct_usedNames]

/-- Every usage of a file is recorded, or suppressed if the file is excluded, and the index shows
the same. -/
theorem resolve_accounts (ds : List Declaration) (x : Exclusion)
    (workingDirectory path : String) (imports : List Import) (index : UsageIndex) :
    let (found, after) := resolve ds x workingDirectory path imports index
    found.module = moduleOf path ∧ found.excluded = x.excludes workingDirectory path ∧
      if x.excludes workingDirectory path then
        found.recorded = 0 ∧ found.suppressed = usagesIn ds imports ∧ after = index
      else
        found.recorded = usagesIn ds imports ∧ found.suppressed = 0 ∧
        after.total = index.total + usagesIn ds imports ∧
        (∀ n, after.importers? n =
          if usagesOf ds imports n = 0 then index.importers? n
          else some ((index.importers? n).getD [] ++
            List.replicate (usagesOf ds imports n) (moduleOf path))) ∧
        after.names = index.names ++ (importedNames ds imports).filter (· ∉ index.names) := by
  unfold resolve
  by_cases excluded : x.excludes workingDirectory path = true
  · simp only [excluded, if_true, length_usedNames, and_self]
  · simp only [excluded, if_false, Bool.false_eq_true, length_usedNames, true_and]
    refine ⟨?_, ?_, ?_⟩
    · rw [UsageIndex.total_recordAll, List.length_map, length_usedNames]
    · exact fun n => importers?_recordUsed ds imports index (moduleOf path) n
    · exact names_recordUsed ds imports index (moduleOf path)

/- A name that is declared twice and written twice in one statement, beside one that is known. -/
example :
    resolve (["a", "b", "a"].map (⟨·, .variableBinding, true, 1⟩)) .empty "/" "src/m.ts"
      [⟨.named none [⟨"a", none⟩, ⟨"a", some "c"⟩, ⟨"b", none⟩], "./lib", 1⟩, ⟨.whole "b", "./lib", 2⟩]
      (.ofUsages [("b", "k.ts")]) =
    (⟨"m.ts", 3, 0, false⟩, ⟨[("b", ["k.ts", "m.ts"]), ("a", ["m.ts", "m.ts"])]⟩) := by
  decide +kernel

end ImportUsage
