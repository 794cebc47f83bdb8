import Mathlib.Logic.Relation
import ImportUsage.Proofs.Usage.Index

/-! The index as an account of its history. What it says of one declaration depends on the usages of
this declaration alone, so the usages of different declarations may change places, and nothing else
may. -/

namespace ImportUsage

/-- Two adjacent usages of different declarations change places. -/
inductive Exchange : List (String × String) → List (String × String) → Prop
  | intro (before after : List (String × String)) (a b : String × String) (apart : a.1 ≠ b.1) :
    Exchange (before ++ a :: b :: after) (before ++ b :: a :: after)

/-- One history comes from the other by exchanges. -/
def Reordered : List (String × String) → List (String × String) → Prop :=
  Relation.EqvGen Exchange

theorem Exchange.importersAmong_eq {us vs : List (String × String)} (step : Exchange us vs)
    (n : String) : importersAmong us n = importersAmong vs n := by
  obtain ⟨before, after, a, b, apart⟩ := step
  simp only [importersAmong_append, importersAmong_cons]
  by_cases first : a.1 = n
  · have other : b.1 ≠ n := fun second => apart (first.trans second.symm)
    simp only [first, other, if_true, if_false]
  · simp only [first, if_false]

namespace Reordered

theorem importersAmong_eq {us vs : List (String × String)} (reordered : Reordered us vs)
    (n : String) : importersAmong us n = importersAmong vs n := by
  induction reordered with
  | rel us vs step => exact step.importersAmong_eq n
  | refl us => rfl
  | symm us vs _ ih => exact ih.symm
  | trans us vs ws _ _ first second => exact first.trans second

theorem cons {us vs : List (String × String)} (reordered : Reordered us vs)
    (u : String × String) : Reordered (u :: us) (u :: vs) := by
  induction reordered with
  | rel us vs step =>
    obtain ⟨before, after, a, b, apart⟩ := step
    exact .rel _ _ (.intro (u :: before) after a b apart)
  | refl us => exact .refl _
  | symm us vs _ ih => exact .symm _ _ ih
  | trans us vs ws _ _ first second => exact .trans _ _ _ first second

theorem to_front (front back : List (String × String)) (u : String × String)
    (apart : ∀ w ∈ front, w.1 ≠ u.1) : Reordered (front ++ u :: back) (u :: (front ++ back)) := by
  induction front with
  | nil => exact .refl _
  | cons w rest ih =>
    have inner : Reordered (w :: (rest ++ u :: back)) (w :: u :: (rest ++ back)) :=
      (ih fun v member => apart v (List.mem_cons_of_mem w member)).cons w
    have outer : Exchange (w :: u :: (rest ++ back)) (u :: w :: (rest ++ back)) :=
      .intro [] (rest ++ back) w u (apart w List.mem_cons_self)
    exact .trans _ _ _ inner (.rel _ _ outer)

end Reordered

theorem exists_first_usage {us : List (String × String)} {n m : String} {ms : List String}
    (first : importersAmong us n = m :: ms) :
    ∃ front back, us = front ++ (n, m) :: back ∧ ∀ w ∈ front, w.1 ≠ n := by
  obtain ⟨⟨d, _⟩, others, chosen, rfl, _⟩ := List.map_eq_cons_iff.mp first
  obtain ⟨front, back, rfl, passed, here, _⟩ := List.filter_eq_cons_iff.mp chosen
  obtain rfl : d = n := of_decide_eq_true here
  exact ⟨front, back, rfl, fun w member => by simpa using passed w member⟩

/-- Histories that give every declaration the same modules differ by exchanges only. The first usage
of one is brought to the front of the other, and what follows is compared again. -/
theorem reordered_iff (us vs : List (String × String)) :
    Reordered us vs ↔ ∀ n, importersAmong us n = importersAmong vs n := by
  refine ⟨Reordered.importersAmong_eq, fun same => ?_⟩
  induction us generalizing vs with
  | nil =>
    cases vs with
    | nil => exact .refl _
    | cons v rest =>
      have here := same v.1
      rw [importersAmong_cons, if_pos rfl] at here
      exact absurd here.symm (List.cons_ne_nil _ _)
  | cons u rest ih =>
    have first : importersAmong vs u.1 = u.2 :: importersAmong rest u.1 := by
      rw [← same, importersAmong_cons, if_pos rfl]
    obtain ⟨front, back, rfl, apart⟩ := exists_first_usage first
    have moved : Reordered (front ++ u :: back) (u :: (front ++ back)) := .to_front front back u apart
    have remaining : Reordered rest (front ++ back) := by
      apply ih
      intro n
      have whole := (same n).trans (moved.importersAmong_eq n)
      simp only [importersAmong_cons] at whole
      split at whole
      · exact (List.cons.inj whole).2
      · exact whole
    exact .trans _ _ _ (remaining.cons u) (.symm _ _ moved)

namespace UsageIndex

theorem reordered_iff_importers (us vs : List (String × String)) :
    Reordered us vs ↔ ∀ n, (ofUsages vs).importers? n = (ofUsages us).importers? n := by
  rw [reordered_iff]
  constructor
  · intro same n
    rw [importers?_ofUsages, importers?_ofUsages, same]
  · intro same n
    rw [← getD_importers?_ofUsages us, ← getD_importers?_ofUsages vs, same]

theorem ofUsages_filled (us : List (String × String)) (entry : String × List String)
    (member : entry ∈ (ofUsages us).entries) : entry.2 ≠ [] := by
  rw [entries_ofUsages, List.mem_map] at member
  obtain ⟨n, used, rfl⟩ := member
  rw [mem_distinct] at used
  exact fun empty => (importersAmong_eq_nil us n).mp empty used

/-- The index of a history: its names, its modules and its figures. Exchanges of usages keep the
modules of every declaration, and nothing else does. -/
theorem ofUsages_keeps_history (us : List (String × String)) :
    (ofUsages us).names = distinct (us.map (·.1)) ∧
    (∀ entry ∈ (ofUsages us).entries, entry.2 ≠ []) ∧
    (∀ n, (ofUsages us).importers? n =
      if n ∈ us.map (·.1) then some (importersAmong us n) else none) ∧
    (∀ n, (ofUsages us).contains n = true ↔ ∃ ms, (ofUsages us).importers? n = some ms) ∧
    (ofUsages us).size = (ofUsages us).names.length ∧
    (ofUsages us).total = us.length ∧
    ∀ vs, Reordered us vs ↔ ∀ n, (ofUsages vs).importers? n = (ofUsages us).importers? n := by
  refine ⟨names_ofUsages us, ofUsages_filled us, ?_, ?_, ?_, total_ofUsages us,
    reordered_iff_importers us⟩
  · intro n
    rw [importers?_ofUsages]
    simp only [importersAmong_eq_nil, ite_not]
  · intro n
    exact Option.isSome_iff_exists
  · exact (List.length_map _).symm

/- The names follow their first usages: an exchange of these is seen in the order of the entries. -/
example :
    (ofUsages [("A", "x.ts"), ("B", "y.ts"), ("A", "z.ts")]).entries =
      [("A", ["x.ts", "z.ts"]), ("B", ["y.ts"])] ∧
    (ofUsages [("B", "y.ts"), ("A", "x.ts"), ("A", "z.ts")]).entries =
      [("B", ["y.ts"]), ("A", ["x.ts", "z.ts"])] := by
  decide

end UsageIndex

end ImportUsage
