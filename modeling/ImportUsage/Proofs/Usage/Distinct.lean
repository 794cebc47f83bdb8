import Mathlib.Data.Finset.Card
import ImportUsage.Usage.Selection

/-! Lists without repetitions: which elements stay, and in what order. -/

namespace ImportUsage

section Keys

variable {α β : Type} [DecidableEq β] (key : α → β)

theorem mem_map_distinctBy (as : List α) (k : β) :
    k ∈ (distinctBy key as).map key ↔ k ∈ as.map key := by
  induction as with
  | nil => rfl
  | cons a rest ih =>
    by_cases same : k = key a
    · simp [distinctBy, same]
    · have kept : k ∈ ((distinctBy key rest).filter (key · ≠ key a)).map key ↔
          k ∈ (distinctBy key rest).map key := by
        simp only [List.mem_map, List.mem_filter, decide_eq_true_eq]
        constructor
        · rintro ⟨b, ⟨hb, _⟩, rfl⟩
          exact ⟨b, hb, rfl⟩
        · rintro ⟨b, hb, rfl⟩
          exact ⟨b, ⟨hb, same⟩, rfl⟩
      simp only [distinctBy, List.map_cons, List.mem_cons, kept, ih]

theorem nodup_map_distinctBy (as : List α) : ((distinctBy key as).map key).Nodup := by
  induction as with
  | nil => exact List.nodup_nil
  | cons a rest ih =>
    rw [distinctBy, List.map_cons, List.nodup_cons]
    constructor
    · simp
    · exact ih.sublist (List.filter_sublist.map key)

theorem distinctBy_of_nodup {as : List α} (different : (as.map key).Nodup) :
    distinctBy key as = as := by
  induction as with
  | nil => rfl
  | cons a rest ih =>
    obtain ⟨new, different⟩ := List.nodup_cons.mp different
    rw [distinctBy, ih different, List.filter_eq_self.mpr]
    intro b member
    simpa using ne_of_mem_of_not_mem (List.mem_map_of_mem member) new

theorem find?_of_mem_distinctBy (as : List α) {a : α} (member : a ∈ distinctBy key as) :
    as.find? (key · = key a) = some a := by
  induction as with
  | nil => cases member
  | cons b rest ih =>
    rw [distinctBy, List.mem_cons, List.mem_filter, decide_eq_true_eq] at member
    rcases member with rfl | ⟨later, other⟩
    · exact List.find?_cons_of_pos (by simp)
    · rw [List.find?_cons_of_neg (by simpa using Ne.symm other), ih later]

/-- The elements stand by the first place of their keys. -/
theorem distinctBy_ordered (as : List α) :
    (distinctBy key as).Pairwise fun a b =>
      as.findIdx (key · = key a) < as.findIdx (key · = key b) := by
  induction as with
  | nil => exact .nil
  | cons c rest ih =>
    have first : (c :: rest).findIdx (key · = key c) = 0 := by
      simp [List.findIdx_cons]
    have later (a : α) (other : key a ≠ key c) :
        (c :: rest).findIdx (key · = key a) = rest.findIdx (key · = key a) + 1 := by
      simp [List.findIdx_cons, Ne.symm other]
    have others {a : α} (member : a ∈ (distinctBy key rest).filter (key · ≠ key c)) :
        key a ≠ key c := of_decide_eq_true (List.mem_filter.mp member).2
    rw [distinctBy, List.pairwise_cons]
    constructor
    · intro a member
      rw [first, later a (others member)]
      exact Nat.succ_pos _
    · refine (ih.filter _).imp_of_mem ?_
      intro a b in_a in_b before
      rw [later a (others in_a), later b (others in_b)]
      exact Nat.succ_lt_succ before

end Keys

section Elements

variable {α : Type} [DecidableEq α]

theorem mem_distinct (as : List α) (a : α) : a ∈ distinct as ↔ a ∈ as := by
  simpa [distinct] using mem_map_distinctBy id as a

theorem distinct_cons (a : α) (as : List α) :
    distinct (a :: as) = a :: (distinct as).filter (· ≠ a) := rfl

theorem distinct_append (as bs : List α) :
    distinct (as ++ bs) = distinct as ++ (distinct bs).filter (· ∉ as) := by
  induction as with
  | nil => simp [distinct, distinctBy]
  | cons a rest ih =>
    simp only [distinct] at ih
    simp only [distinct, List.cons_append, distinctBy, ih, List.filter_append, List.filter_filter,
      id_eq, List.cons.injEq, true_and, List.append_cancel_left_eq]
    apply List.filter_congr
    intro b _
    simp [List.mem_cons, not_or]

theorem distinct_concat (as : List α) (a : α) :
    distinct (as ++ [a]) = if a ∈ distinct as then distinct as else distinct as ++ [a] := by
  have alone : distinct [a] = [a] := rfl
  rw [distinct_append, alone]
  simp only [mem_distinct]
  split <;> simp [*]

theorem distinct_nodup (as : List α) : (distinct as).Nodup := by
  simpa [distinct] using nodup_map_distinctBy id as

theorem distinct_of_nodup {as : List α} (different : as.Nodup) : distinct as = as :=
  distinctBy_of_nodup id (by simpa using different)

theorem distinct_replicate (n : Nat) (a : α) :
    distinct (List.replicate n a) = if n = 0 then [] else [a] := by
  induction n with
  | zero => rfl
  | succ n ih =>
    rw [List.replicate_succ, distinct_cons, ih, if_neg (Nat.succ_ne_zero n)]
    split <;> simp

theorem distinct_replicate_pairwise (R : α → α → Prop) (n : Nat) (a : α) :
    (distinct (List.replicate n a)).Pairwise R := by
  rw [distinct_replicate]
  split
  · exact .nil
  · exact List.pairwise_singleton R a

/-- Where every element is written some number of times, those that are written are left. -/
theorem distinct_flatMap_replicate {β : Type} (times : β → Nat) (f : β → α) (bs : List β) :
    distinct (bs.flatMap fun b => List.replicate (times b) (f b)) =
      distinct ((bs.filter (times · ≠ 0)).map f) := by
  induction bs with
  | nil => rfl
  | cons b rest ih =>
    rw [List.flatMap_cons, distinct_append, distinct_replicate, ih]
    by_cases absent : times b = 0
    · simp [absent]
    · rw [if_neg absent, List.filter_cons_of_pos (by simpa using absent), List.map_cons,
        distinct_cons, List.singleton_append]
      simp [absent]

/-- Where a list is made of blocks, the elements stand by the first block they occur in, and those
of one block as they stand in it. -/
theorem pairwise_distinct_flatMap {β : Type} (f : β → List α) (R : α → α → Prop) (bs : List β)
    (ordered : ∀ b ∈ bs, (distinct (f b)).Pairwise R) :
    (distinct (bs.flatMap f)).Pairwise fun x y =>
      bs.findIdx (x ∈ f ·) < bs.findIdx (y ∈ f ·) ∨
        bs.findIdx (x ∈ f ·) = bs.findIdx (y ∈ f ·) ∧ R x y := by
  induction bs with
  | nil => exact .nil
  | cons b rest ih =>
    have first : ∀ x ∈ f b, (b :: rest).findIdx (x ∈ f ·) = 0 := by
      intro x member
      simp [List.findIdx_cons, member]
    have later : ∀ x ∉ f b, (b :: rest).findIdx (x ∈ f ·) = rest.findIdx (x ∈ f ·) + 1 := by
      intro x absent
      simp [List.findIdx_cons, absent]
    rw [List.flatMap_cons, distinct_append, List.pairwise_append]
    refine ⟨?_, ?_, ?_⟩
    · refine (ordered b List.mem_cons_self).imp_of_mem ?_
      intro x y in_x in_y related
      rw [mem_distinct] at in_x in_y
      exact .inr ⟨by rw [first x in_x, first y in_y], related⟩
    · have tail := ih fun c member => ordered c (List.mem_cons_of_mem b member)
      refine (tail.filter _).imp_of_mem ?_
      intro x y in_x in_y related
      have absent_x := of_decide_eq_true (List.mem_filter.mp in_x).2
      have absent_y := of_decide_eq_true (List.mem_filter.mp in_y).2
      rw [later x absent_x, later y absent_y]
      rcases related with before | ⟨same, inside⟩
      · exact .inl (by omega)
      · exact .inr ⟨by omega, inside⟩
    · intro x in_x y in_y
      have absent_y := of_decide_eq_true (List.mem_filter.mp in_y).2
      rw [first x ((mem_distinct _ x).mp in_x), later y absent_y]
      exact .inl (Nat.succ_pos _)

theorem distinct_ordered (as : List α) :
    (distinct as).Pairwise fun a b => as.idxOf a < as.idxOf b := by
  have places : ∀ a, as.findIdx (id · = id a) = as.idxOf a := fun a => rfl
  unfold distinct
  simpa only [places] using distinctBy_ordered id as

/-- Two lists of the same elements keep them in the same order if and only if what comes first in one
comes first in the other. -/
theorem distinct_eq_distinct_iff {as bs : List α} (same : ∀ a, a ∈ as ↔ a ∈ bs) :
    distinct as = distinct bs ↔ ∀ a b, as.idxOf a < as.idxOf b → bs.idxOf a < bs.idxOf b := by
  constructor
  · intro equal a b before
    have known : a ∈ as := by
      by_contra absent
      rw [List.idxOf_eq_length_iff.mpr absent] at before
      exact absurd before (Nat.not_lt.mpr List.idxOf_le_length)
    by_cases other : b ∈ as
    · -- both have a place in the common list, and the places decide
      obtain ⟨i, in_i, rfl⟩ := List.getElem_of_mem ((mem_distinct as a).mpr known)
      obtain ⟨j, in_j, rfl⟩ := List.getElem_of_mem ((mem_distinct as b).mpr other)
      have by_as := List.pairwise_iff_getElem.mp (distinct_ordered as)
      have by_bs : (distinct as).Pairwise fun a b => bs.idxOf a < bs.idxOf b :=
        equal ▸ distinct_ordered bs
      rcases Nat.lt_trichotomy i j with first | rfl | last
      · exact List.pairwise_iff_getElem.mp by_bs i j in_i in_j first
      · omega
      · have after := by_as j i in_j in_i last
        omega
    · rw [List.idxOf_eq_length_iff.mpr (mt (same b).mpr other)]
      exact List.idxOf_lt_length_of_mem ((same a).mp known)
  · intro kept
    have members : (distinct as).Perm (distinct bs) := by
      rw [List.perm_ext_iff_of_nodup (distinct_nodup as) (distinct_nodup bs)]
      intro a
      rw [mem_distinct, mem_distinct, same]
    refine members.eq_of_pairwise ?_ ((distinct_ordered as).imp (kept _ _)) (distinct_ordered bs)
    intro a b _ _ before after
    omega

theorem length_distinct (as : List α) :
    (distinct as).length = as.toFinset.card := by
  have same : (distinct as).toFinset = as.toFinset := by
    ext a
    rw [List.mem_toFinset, List.mem_toFinset, mem_distinct]
  rw [← same, List.toFinset_card_of_nodup (distinct_nodup as)]

end Elements

theorem select_names_nodup (scope : Scope) (ds : List Declaration) :
    ((scope.select ds).map (·.name)).Nodup :=
  nodup_map_distinctBy _ _

end ImportUsage
