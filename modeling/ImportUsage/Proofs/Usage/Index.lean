import ImportUsage.Proofs.Usage.Distinct
import ImportUsage.Usage.Index

/-! What the index of usages holds after usages are recorded: the modules of every declaration,
and the order of the declarations. -/

namespace ImportUsage.UsageIndex

theorem lookup_recordIn (entries : List (String × List String)) (d m n : String) :
    (recordIn d m entries).lookup n =
      if n = d then some ((entries.lookup d).getD [] ++ [m]) else entries.lookup n := by
  induction entries with
  | nil =>
    by_cases same : n = d
    · simp [recordIn, same]
    · simp [recordIn, same, List.lookup_cons, beq_false_of_ne same]
  | cons entry rest ih =>
    obtain ⟨name, importers⟩ := entry
    by_cases here : name = d
    · subst name
      by_cases same : n = d
      · simp [recordIn, same]
      · simp [recordIn, same, List.lookup_cons, beq_false_of_ne same]
    · have other : (d == name) = false := beq_false_of_ne (Ne.symm here)
      by_cases asked : n = name
      · subst n
        simp [recordIn, here]
      · simp [recordIn, here, List.lookup_cons, other, beq_false_of_ne asked, ih]

theorem map_recordIn (entries : List (String × List String)) (d m : String) :
    (recordIn d m entries).map (·.1) =
      if d ∈ entries.map (·.1) then entries.map (·.1) else entries.map (·.1) ++ [d] := by
  induction entries with
  | nil => simp [recordIn]
  | cons entry rest ih =>
    obtain ⟨name, importers⟩ := entry
    by_cases here : name = d
    · simp [recordIn, here]
    · simp only [recordIn, if_neg here, List.map_cons, ih, List.mem_cons, Ne.symm here, false_or]
      split <;> simp

theorem importers?_record (index : UsageIndex) (d m n : String) :
    (index.record d m).importers? n =
      if n = d then some ((index.importers? d).getD [] ++ [m]) else index.importers? n :=
  lookup_recordIn index.entries d m n

theorem names_record (index : UsageIndex) (d m : String) :
    (index.record d m).names = if d ∈ index.names then index.names else index.names ++ [d] :=
  map_recordIn index.entries d m

theorem lookup_eq_none (entries : List (String × List String)) (n : String) :
    entries.lookup n = none ↔ n ∉ entries.map (·.1) := by
  simp only [List.lookup_eq_none_iff, List.mem_map, not_exists, not_and]
  constructor
  · intro apart entry member same
    simpa [same] using apart entry member
  · intro absent entry member
    simpa using Ne.symm (absent entry member)

theorem importers?_eq_none (index : UsageIndex) (n : String) :
    index.importers? n = none ↔ n ∉ index.names :=
  lookup_eq_none index.entries n

theorem contains_iff (index : UsageIndex) (n : String) :
    index.contains n = true ↔ n ∈ index.names := by
  unfold contains
  rw [Option.isSome_iff_ne_none, ne_eq, importers?_eq_none, not_not]

/-- Where no name has two entries, the names and the answers make up the entries. -/
theorem entries_eq_map (index : UsageIndex) (different : index.names.Nodup) :
    index.entries = index.names.map fun n => (n, (index.importers? n).getD []) := by
  obtain ⟨entries⟩ := index
  unfold names importers?
  unfold names at different
  induction entries with
  | nil => rfl
  | cons entry rest ih =>
    obtain ⟨name, importers⟩ := entry
    obtain ⟨new, different⟩ := List.nodup_cons.mp different
    -- the other names are found behind this entry
    have passed : ∀ n ∈ rest.map (·.1),
        (n, (List.lookup n ((name, importers) :: rest)).getD []) = (n, (rest.lookup n).getD []) := by
      intro n member
      have apart : (n == name) = false := beq_false_of_ne (ne_of_mem_of_not_mem member new)
      rw [List.lookup_cons, apart]
    rw [List.map_cons, List.map_cons, List.lookup_cons_self, Option.getD_some,
      List.map_congr_left passed]
    exact congrArg ((name, importers) :: ·) (ih different)

theorem flatMap_entries (index : UsageIndex) (different : index.names.Nodup) :
    index.entries.flatMap (·.2) = index.names.flatMap fun n => (index.importers? n).getD [] := by
  conv_lhs => rw [index.entries_eq_map different]
  rw [List.flatMap_map]

@[simp] theorem importers?_empty (n : String) : empty.importers? n = none := rfl

@[simp] theorem names_empty : empty.names = [] := rfl

@[simp] theorem recordAll_nil (index : UsageIndex) : index.recordAll [] = index := rfl

@[simp] theorem recordAll_cons (index : UsageIndex) (u : String × String)
    (us : List (String × String)) :
    index.recordAll (u :: us) = (index.record u.1 u.2).recordAll us := rfl

theorem recordAll_append (index : UsageIndex) (us vs : List (String × String)) :
    index.recordAll (us ++ vs) = (index.recordAll us).recordAll vs := by
  simp [recordAll, List.foldl_append]

theorem flatMap_recordIn (entries : List (String × List String)) (d m : String) :
    ((recordIn d m entries).flatMap (·.2)).length = (entries.flatMap (·.2)).length + 1 := by
  induction entries with
  | nil => rfl
  | cons entry rest ih =>
    rw [recordIn]
    split
    · simp only [List.flatMap_cons, List.length_append, List.length_singleton]
      omega
    · simp only [List.flatMap_cons, List.length_append, ih]
      omega

theorem total_record (index : UsageIndex) (d m : String) :
    (index.record d m).total = index.total + 1 :=
  flatMap_recordIn index.entries d m

theorem total_recordAll (index : UsageIndex) (us : List (String × String)) :
    (index.recordAll us).total = index.total + us.length := by
  induction us generalizing index with
  | nil => rfl
  | cons u rest ih =>
    rw [recordAll_cons, ih, total_record, List.length_cons]
    omega

end UsageIndex

/-- The modules that import a declaration, among usages. -/
def importersAmong (us : List (String × String)) (n : String) : List String :=
  (us.filter (·.1 = n)).map (·.2)

theorem importersAmong_cons (u : String × String) (us : List (String × String)) (n : String) :
    importersAmong (u :: us) n =
      if u.1 = n then u.2 :: importersAmong us n else importersAmong us n := by
  by_cases here : u.1 = n <;> simp [importersAmong, here]

theorem importersAmong_append (us vs : List (String × String)) (n : String) :
    importersAmong (us ++ vs) n = importersAmong us n ++ importersAmong vs n := by
  simp [importersAmong]

theorem importersAmong_flatMap {α : Type} (f : α → List (String × String)) (as : List α)
    (n : String) :
    importersAmong (as.flatMap f) n = as.flatMap fun a => importersAmong (f a) n := by
  induction as with
  | nil => rfl
  | cons a rest ih => simp only [List.flatMap_cons, importersAmong_append, ih]

theorem importersAmong_eq_nil (us : List (String × String)) (n : String) :
    importersAmong us n = [] ↔ n ∉ us.map (·.1) := by
  simp only [importersAmong, List.map_eq_nil_iff, List.filter_eq_nil_iff, decide_eq_true_eq,
    List.mem_map, not_exists, not_and]

namespace UsageIndex

/-- Recording adds at the end of a declaration's modules and touches no other declaration. -/
theorem importers?_recordAll (index : UsageIndex) (us : List (String × String)) (n : String) :
    (index.recordAll us).importers? n =
      if n ∈ us.map (·.1) then some ((index.importers? n).getD [] ++ importersAmong us n)
      else index.importers? n := by
  induction us generalizing index with
  | nil => rfl
  | cons u rest ih =>
    rw [recordAll_cons, ih, importers?_record]
    by_cases here : n = u.1
    · subst n
      by_cases later : u.1 ∈ rest.map (·.1)
      · simp [later, importersAmong_cons]
      · simp [later, importersAmong_cons, (importersAmong_eq_nil rest u.1).mpr later]
    · simp only [importersAmong_cons, here, Ne.symm here, List.map_cons, List.mem_cons, false_or,
        if_false]

/-- New declarations follow the old ones in the order of their first usage. -/
theorem names_recordAll (index : UsageIndex) (us : List (String × String)) :
    (index.recordAll us).names =
      index.names ++ (distinct (us.map (·.1))).filter (· ∉ index.names) := by
  induction us generalizing index with
  | nil => simp [distinct, distinctBy]
  | cons u rest ih =>
    rw [recordAll_cons, ih, names_record, List.map_cons, distinct_cons]
    by_cases known : u.1 ∈ index.names
    · rw [if_pos known, List.filter_cons_of_neg (by simp [known]), List.filter_filter]
      congr 1
      apply List.filter_congr
      intro n _
      by_cases same : n = u.1
      · simp [same, known]
      · simp [same]
    · rw [if_neg known, List.filter_cons_of_pos (by simp [known]), List.filter_filter,
        List.append_assoc, List.singleton_append]
      congr 2
      apply List.filter_congr
      intro n _
      simp [not_or]

theorem importers?_ofUsages (us : List (String × String)) (n : String) :
    (ofUsages us).importers? n =
      if importersAmong us n = [] then none else some (importersAmong us n) := by
  simp only [ofUsages, importers?_recordAll, importers?_empty, importersAmong_eq_nil]
  split <;> simp_all

theorem getD_importers?_ofUsages (us : List (String × String)) (n : String) :
    ((ofUsages us).importers? n).getD [] = importersAmong us n := by
  rw [importers?_ofUsages]
  split
  · rename_i none
    exact none.symm
  · rfl

theorem contains_ofUsages (us : List (String × String)) (n : String) :
    (ofUsages us).contains n = true ↔ importersAmong us n ≠ [] := by
  rw [contains, importers?_ofUsages]
  split <;> simp_all

theorem names_ofUsages (us : List (String × String)) :
    (ofUsages us).names = distinct (us.map (·.1)) := by
  simp [ofUsages, names_recordAll]

/-- The whole index, read off its history. -/
theorem entries_ofUsages (us : List (String × String)) :
    (ofUsages us).entries = (distinct (us.map (·.1))).map fun n => (n, importersAmong us n) := by
  have different : (ofUsages us).names.Nodup := by
    rw [names_ofUsages]
    exact distinct_nodup _
  rw [entries_eq_map _ different, names_ofUsages]
  simp only [getD_importers?_ofUsages]

theorem total_ofUsages (us : List (String × String)) : (ofUsages us).total = us.length := by
  rw [ofUsages, total_recordAll]
  exact Nat.zero_add _

end ImportUsage.UsageIndex
