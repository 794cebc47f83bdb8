import ImportUsage.Proofs.Usage.Index
import ImportUsage.Usage.Resolution

/-! How often and in what order one file uses the declarations searched for. -/

namespace ImportUsage

/-- Has the statement a name between braces that is this one in the imported module? -/
def Import.Names (i : Import) (name : String) : Prop :=
  ∃ main specifiers, i.kind = .named main specifiers ∧ ∃ s ∈ specifiers, s.imported = name

theorem importsName_iff (i : Import) (name : String) : i.importsName name = true ↔ i.Names name := by
  unfold Import.importsName Import.specifiers Import.Names
  cases i.kind <;> simp

instance (i : Import) (name : String) : Decidable (i.Names name) :=
  decidable_of_iff _ (importsName_iff i name)

/-- The number of statements that import a name. -/
def statementsNaming (imports : List Import) (name : String) : Nat := imports.countP (·.Names name)

theorem usedNames_eq (ds : List Declaration) (imports : List Import) :
    usedNames ds imports =
      ds.flatMap fun d => List.replicate (statementsNaming imports d.name) d.name := by
  unfold usedNames statementsNaming
  congr 1
  funext d
  rw [List.map_const', List.countP_eq_length_filter]
  simp only [← importsName_iff, Bool.decide_eq_true]

theorem count_usedNames (ds : List Declaration) (imports : List Import) (n : String) :
    (usedNames ds imports).count n = ds.countP (·.name = n) * statementsNaming imports n := by
  rw [usedNames_eq]
  induction ds with
  | nil => simp
  | cons d rest ih =>
    rw [List.flatMap_cons, List.count_append, ih, List.countP_cons, List.count_replicate]
    by_cases same : d.name = n
    · simp [same, Nat.add_mul, Nat.add_comm]
    · simp [same]

theorem mem_usedNames (ds : List Declaration) (imports : List Import) (n : String) :
    n ∈ usedNames ds imports ↔ n ∈ ds.map (·.name) ∧ statementsNaming imports n ≠ 0 := by
  rw [usedNames_eq]
  simp only [List.mem_flatMap, List.mem_replicate, List.mem_map]
  constructor
  · rintro ⟨d, member, used, rfl⟩
    exact ⟨⟨d, member, rfl⟩, used⟩
  · rintro ⟨⟨d, member, rfl⟩, used⟩
    exact ⟨d, member, used, rfl⟩

theorem importersAmong_map (names : List String) (m n : String) :
    importersAmong (names.map (·, m)) n = List.replicate (names.count n) m := by
  induction names with
  | nil => rfl
  | cons name rest ih =>
    by_cases same : name = n
    · subst same
      rw [List.count_cons_self, List.replicate_succ, ← ih]
      simp [importersAmong]
    · rw [List.count_cons_of_ne same, ← ih]
      simp [importersAmong, same]

theorem countP_name_eq (ds : List Declaration) (different : (ds.map (·.name)).Nodup) (n : String) :
    ds.countP (·.name = n) = if n ∈ ds.map (·.name) then 1 else 0 := by
  have counted : ds.countP (·.name = n) = (ds.map (·.name)).count n := by
    rw [List.count, List.countP_map]
    rfl
  rw [counted, different.count]

/-- The place of a name among declarations. -/
def positionIn (ds : List Declaration) (n : String) : Nat := ds.findIdx (·.name = n)

theorem usedNames_ordered (ds : List Declaration) (imports : List Import) :
    (distinct (usedNames ds imports)).Pairwise fun a b => positionIn ds a < positionIn ds b := by
  rw [usedNames_eq]
  have blocks := pairwise_distinct_flatMap
    (fun d : Declaration => List.replicate (statementsNaming imports d.name) d.name)
    (fun _ _ => False) ds (fun d _ => distinct_replicate_pairwise _ _ _)
  refine blocks.imp_of_mem ?_
  intro a b in_a in_b before
  -- the block of a declaration is empty or holds its name alone
  have place : ∀ n ∈ usedNames ds imports,
      ds.findIdx (fun d => n ∈ List.replicate (statementsNaming imports d.name) d.name) =
        positionIn ds n := by
    intro n member
    have used := ((mem_usedNames ds imports n).mp member).2
    unfold positionIn
    congr 1
    funext d
    by_cases same : d.name = n
    · simp [same, used]
    · simp [same, Ne.symm same]
  rw [mem_distinct, ← usedNames_eq] at in_a in_b
  rw [place a in_a, place b in_b] at before
  simpa using before

end ImportUsage
