import ImportUsage.Proofs.Usage.Index

/-! The order of the modules of an index. The index keeps its usages by declaration, so a module that
is recorded late stands early if its declaration was used early. -/

namespace ImportUsage

section Blocks

variable {α β : Type} [DecidableEq α] [DecidableEq β] (f : β → List α)

/-- One element comes before another in a list of blocks: it has a block before all blocks of the
other, or a place before it in their first block. -/
def Leads (bs : List β) (x y : α) : Prop :=
  ∃ b ∈ bs, x ∈ f b ∧ ∀ c ∈ bs, y ∈ f c →
    bs.idxOf b < bs.idxOf c ∨ b = c ∧ (f b).idxOf x < (f b).idxOf y

variable {f} {first : β} {rest : List β} (different : (first :: rest).Nodup) {x y : α}
include different

theorem idxOf_later {b : β} (member : b ∈ rest) : (first :: rest).idxOf b = rest.idxOf b + 1 := by
  have new := (List.nodup_cons.mp different).1
  exact List.idxOf_cons_ne _ (ne_of_mem_of_not_mem member new).symm

theorem leads_of_mem (in_x : x ∈ f first)
    (before : y ∈ f first → (f first).idxOf x < (f first).idxOf y) :
    Leads f (first :: rest) x y := by
  refine ⟨first, List.mem_cons_self, in_x, fun c member here => ?_⟩
  rcases List.mem_cons.mp member with rfl | below
  · exact .inr ⟨rfl, before here⟩
  · rw [List.idxOf_cons_self, idxOf_later different below]
    exact .inl (Nat.succ_pos _)

omit different in
theorem leads_mem (in_y : y ∈ f first) (leads : Leads f (first :: rest) x y) :
    x ∈ f first ∧ (f first).idxOf x < (f first).idxOf y := by
  obtain ⟨b, _, in_x, leads⟩ := leads
  rcases leads first List.mem_cons_self in_y with before | ⟨rfl, before⟩
  · rw [List.idxOf_cons_self] at before
    omega
  · exact ⟨in_x, before⟩

theorem leads_rest (out_x : x ∉ f first) (out_y : y ∉ f first) :
    Leads f (first :: rest) x y ↔ Leads f rest x y := by
  have below : ∀ {b z}, b ∈ first :: rest → z ∈ f b → z ∉ f first → b ∈ rest := by
    intro b z member here absent
    rcases List.mem_cons.mp member with rfl | later
    · exact absurd here absent
    · exact later
  constructor
  · rintro ⟨b, member, in_x, leads⟩
    refine ⟨b, below member in_x out_x, in_x, fun c here in_y => ?_⟩
    have before := leads c (List.mem_cons_of_mem first here) in_y
    rw [idxOf_later different (below member in_x out_x), idxOf_later different here] at before
    exact before.imp_left Nat.lt_of_succ_lt_succ
  · rintro ⟨b, member, in_x, leads⟩
    refine ⟨b, List.mem_cons_of_mem first member, in_x, fun c here in_y => ?_⟩
    have before := leads c (below here in_y out_y) in_y
    rw [idxOf_later different member, idxOf_later different (below here in_y out_y)]
    exact before.imp_left Nat.succ_lt_succ

end Blocks

theorem idxOf_flatMap_lt_iff {α β : Type} [DecidableEq α] [DecidableEq β] (f : β → List α)
    {bs : List β} (different : bs.Nodup) (x y : α) :
    (bs.flatMap f).idxOf x < (bs.flatMap f).idxOf y ↔ Leads f bs x y := by
  induction bs with
  | nil => simp [Leads]
  | cons first rest ih =>
    rw [List.flatMap_cons, List.idxOf_append, List.idxOf_append]
    by_cases in_y : y ∈ f first
    · have inside := List.idxOf_lt_length_of_mem in_y
      rw [if_pos in_y]
      constructor
      · intro before
        split at before
        · rename_i in_x
          exact leads_of_mem different in_x fun _ => before
        · omega
      · intro leads
        obtain ⟨in_x, before⟩ := leads_mem in_y leads
        rwa [if_pos in_x]
    · rw [if_neg in_y]
      by_cases in_x : x ∈ f first
      · have inside := List.idxOf_lt_length_of_mem in_x
        rw [if_pos in_x]
        exact iff_of_true (by omega) (leads_of_mem different in_x fun here => absurd here in_y)
      · rw [if_neg in_x, leads_rest different in_x in_y, ← ih (List.nodup_cons.mp different).2]
        exact Nat.add_lt_add_iff_right

namespace UsageIndex

/-- The modules of usages, declaration by declaration. -/
def grouped (us : List (String × String)) : List String :=
  (distinct (us.map (·.1))).flatMap (importersAmong us)

theorem flatMap_entries_ofUsages (us : List (String × String)) :
    (ofUsages us).entries.flatMap (·.2) = grouped us := by
  rw [entries_ofUsages, List.flatMap_map, grouped]

theorem mem_grouped (us : List (String × String)) (m : String) :
    m ∈ grouped us ↔ m ∈ us.map (·.2) := by
  simp only [grouped, importersAmong, List.mem_flatMap, mem_distinct, List.mem_map, List.mem_filter,
    decide_eq_true_eq]
  constructor
  · rintro ⟨_, _, u, ⟨member, _⟩, rfl⟩
    exact ⟨u, member, rfl⟩
  · rintro ⟨u, member, rfl⟩
    exact ⟨u.1, ⟨u, member, rfl⟩, u, ⟨member, rfl⟩, rfl⟩

/-- The modules of recorded usages stand declaration by declaration, in the order of the first usages
of the declarations. This is the order in which they were first recorded if and only if every module
that is recorded first before another one also leads it there. -/
theorem modules_ofUsages_iff (us : List (String × String)) :
    (ofUsages us).modules = distinct (grouped us) ∧
      (ofUsages us).modules.Perm (distinct (us.map (·.2))) ∧
      ((ofUsages us).modules = distinct (us.map (·.2)) ↔
        ∀ m n, (us.map (·.2)).idxOf m < (us.map (·.2)).idxOf n →
          Leads (importersAmong us) (distinct (us.map (·.1))) m n) := by
  have shown : (ofUsages us).modules = distinct (grouped us) := by
    rw [modules, flatMap_entries_ofUsages]
  refine ⟨shown, ?_, ?_⟩
  · rw [shown, List.perm_ext_iff_of_nodup (distinct_nodup _) (distinct_nodup _)]
    intro m
    rw [mem_distinct, mem_distinct, mem_grouped]
  · rw [shown, eq_comm, distinct_eq_distinct_iff fun m => (mem_grouped us m).symm]
    simp only [grouped, idxOf_flatMap_lt_iff _ (distinct_nodup _)]

/- A usage that comes last can put the modules back into the order of recording. -/
example :
    (ofUsages [("A", "x.ts"), ("B", "x.ts"), ("C", "y.ts"), ("B", "z.ts"), ("A", "y.ts")]).modules =
      ["x.ts", "y.ts", "z.ts"] := by
  decide

/- The module that is recorded last stands before the second one: its declaration was used first. -/
theorem late_module_stands_early :
    let us := [("A", "x.ts"), ("B", "y.ts"), ("A", "z.ts")]
    (ofUsages us).modules = ["x.ts", "z.ts", "y.ts"] ∧
      (ofUsages us).modules ≠ distinct (us.map (·.2)) := by
  decide

end UsageIndex

end ImportUsage
