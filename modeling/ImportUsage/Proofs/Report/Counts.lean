import Mathlib.Algebra.GroupWithZero.Nat
import ImportUsage.Proofs.Usage.Distinct
import ImportUsage.Report.Basic

/-! The counts of a usage: every module once, in the order of its first usage, with the number of
times it occurs. -/

namespace ImportUsage

namespace Usage

theorem tally_absent (f : String → Nat) (ms : List String) (m : String) (new : m ∉ ms) :
    tally (ms.map fun name => (name, f name)) m = (ms.map fun name => (name, f name)) ++ [(m, 1)] := by
  induction ms with
  | nil => rfl
  | cons name rest ih =>
    obtain ⟨apart, new⟩ := not_or.mp (mt List.mem_cons.mpr new)
    rw [List.map_cons, tally, if_neg (Ne.symm apart), ih new]
    rfl

theorem tally_present (f : String → Nat) (ms : List String) (m : String) (different : ms.Nodup)
    (known : m ∈ ms) :
    tally (ms.map fun name => (name, f name)) m =
      ms.map fun name => (name, if name = m then f name + 1 else f name) := by
  induction ms with
  | nil => contradiction
  | cons name rest ih =>
    obtain ⟨new, different⟩ := List.nodup_cons.mp different
    rw [List.map_cons, tally, List.map_cons]
    by_cases here : name = m
    · subst here
      have others : ∀ other ∈ rest, (other, f other) =
          (other, if other = name then f other + 1 else f other) := by
        intro other member
        rw [if_neg (ne_of_mem_of_not_mem member new)]
      rw [if_pos rfl, if_pos rfl, List.map_congr_left others]
    · have later : m ∈ rest := (List.mem_cons.mp known).resolve_left (Ne.symm here)
      rw [if_neg here, if_neg here, ih different later]

/-- One step of the counting: the counts of some modules become those of one module more. -/
theorem tally_counts (as : List String) (m : String) :
    tally ((distinct as).map fun name => (name, as.count name)) m =
      (distinct (as ++ [m])).map fun name => (name, (as ++ [m]).count name) := by
  rw [distinct_concat]
  by_cases known : m ∈ distinct as
  · rw [if_pos known, tally_present _ _ m (distinct_nodup as) known]
    apply List.map_congr_left
    intro name _
    by_cases here : name = m
    · subst here
      simp
    · rw [if_neg here, List.count_append, List.count_singleton,
        if_neg (by simpa using Ne.symm here), Nat.add_zero]
  · rw [if_neg known, tally_absent _ _ m known, List.map_append]
    have absent : m ∉ as := mt (mem_distinct as m).mpr known
    congr 1
    · apply List.map_congr_left
      intro name member
      have apart : m ≠ name := (ne_of_mem_of_not_mem member known).symm
      rw [List.count_append, List.count_singleton, if_neg (by simpa using apart), Nat.add_zero]
    · simp [List.count_eq_zero.mpr absent]

theorem counts_eq (u : Usage) :
    u.counts = (distinct u.importers).map fun m => (m, u.importers.count m) := by
  unfold counts
  induction u.importers using List.reverseRecOn with
  | nil => rfl
  | append_singleton as m ih =>
    rw [List.foldl_append, ih, List.foldl_cons, tally_counts, List.foldl_nil]

theorem sum_tally (cs : List (String × Nat)) (m : String) :
    ((tally cs m).map (·.2)).sum = (cs.map (·.2)).sum + 1 := by
  induction cs with
  | nil => rfl
  | cons c rest ih =>
    obtain ⟨name, n⟩ := c
    unfold tally
    split
    · simp only [List.map_cons, List.sum_cons]
      omega
    · simp only [List.map_cons, List.sum_cons, ih]
      omega

theorem sum_counts (u : Usage) : (u.counts.map (·.2)).sum = u.importers.length := by
  have counted : ∀ cs : List (String × Nat),
      ((u.importers.foldl tally cs).map (·.2)).sum = (cs.map (·.2)).sum + u.importers.length := by
    induction u.importers with
    | nil =>
      intro cs
      rfl
    | cons m rest ih =>
      intro cs
      rw [List.foldl_cons, ih, sum_tally, List.length_cons]
      omega
  unfold counts
  simpa using counted []

end Usage

theorem Report.sum_counts (r : Report) :
    (r.usages.flatMap fun u => u.counts.map (·.2)).sum = r.total := by
  unfold total
  induction r.usages with
  | nil => rfl
  | cons u rest ih =>
    rw [List.flatMap_cons, List.sum_append, u.sum_counts, ih, List.flatMap_cons, List.length_append]

end ImportUsage
