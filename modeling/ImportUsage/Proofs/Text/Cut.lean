import ImportUsage.FileTree.Path

/-! Texts that are cut at a mark: into which pieces, and what the pieces hold. -/

namespace ImportUsage

variable {α : Type} [DecidableEq α] (mark : α)

theorem cutAt_ne_nil (as : List α) : cutAt mark as ≠ [] := by
  cases as with
  | nil => simp [cutAt]
  | cons a rest =>
    rw [cutAt]
    split
    · simp
    · split <;> simp

theorem cutAt_append (as bs : List α) :
    cutAt mark (as ++ mark :: bs) = cutAt mark as ++ cutAt mark bs := by
  induction as with
  | nil => simp [cutAt]
  | cons a rest ih =>
    simp only [List.cons_append, cutAt, ih]
    split
    · simp
    · cases pieces : cutAt mark rest with
      | nil => exact absurd pieces (cutAt_ne_nil mark rest)
      | cons piece more => simp

theorem cutAt_of_not_mem (as : List α) (clean : mark ∉ as) : cutAt mark as = [as] := by
  induction as with
  | nil => rfl
  | cons a rest ih =>
    rw [List.mem_cons, not_or] at clean
    rw [cutAt, if_neg (Ne.symm clean.1), ih clean.2]

theorem not_mem_of_mem_cutAt (as piece : List α)
    (member : piece ∈ cutAt mark as) : mark ∉ piece := by
  induction as generalizing piece with
  | nil =>
    cases List.mem_singleton.mp member
    exact List.not_mem_nil
  | cons a rest ih =>
    rw [cutAt] at member
    split at member
    · rcases List.mem_cons.mp member with rfl | later
      · exact List.not_mem_nil
      · exact ih piece later
    · rename_i other
      cases cut : cutAt mark rest with
      | nil => exact absurd cut (cutAt_ne_nil mark rest)
      | cons first more =>
        rw [cut] at ih member
        rcases List.mem_cons.mp member with rfl | later
        · rw [List.mem_cons, not_or]
          exact ⟨Ne.symm other, ih first List.mem_cons_self⟩
        · exact ih piece (List.mem_cons_of_mem first later)

theorem mem_of_mem_cutAt (as : List α) {piece : List α} (member : piece ∈ cutAt mark as) :
    piece ⊆ as := by
  induction as generalizing piece with
  | nil =>
    cases List.mem_singleton.mp member
    exact List.nil_subset _
  | cons a rest ih =>
    have later : ∀ {piece}, piece ∈ cutAt mark rest → piece ⊆ a :: rest := fun member =>
      List.subset_cons_of_subset a (ih member)
    rw [cutAt] at member
    split at member
    · rcases List.mem_cons.mp member with rfl | below
      · exact List.nil_subset _
      · exact later below
    · cases cut : cutAt mark rest with
      | nil => exact absurd cut (cutAt_ne_nil mark rest)
      | cons first more =>
        rw [cut] at member later
        rcases List.mem_cons.mp member with rfl | below
        · exact List.cons_subset_cons a (ih (cut ▸ List.mem_cons_self))
        · exact later (List.mem_cons_of_mem first below)

/-- What is written in front of a text goes to its first piece. -/
theorem cutAt_behind (as bs : List α) (clean : mark ∉ as) :
    ∃ piece back, cutAt mark bs = piece :: back ∧
      cutAt mark (as ++ bs) = (as ++ piece) :: back := by
  induction as with
  | nil =>
    obtain ⟨piece, back, cut⟩ := List.exists_cons_of_ne_nil (cutAt_ne_nil mark bs)
    exact ⟨piece, back, cut, cut⟩
  | cons a rest ih =>
    obtain ⟨other, clean⟩ := not_or.mp (mt List.mem_cons.mpr clean)
    obtain ⟨piece, back, cut, whole⟩ := ih clean
    refine ⟨piece, back, cut, ?_⟩
    rw [List.cons_append, cutAt, if_neg (Ne.symm other), whole]
    rfl

/-- What is written behind a text goes to its last piece. -/
theorem cutAt_concat (as bs : List α) (clean : mark ∉ bs) :
    ∃ front piece, cutAt mark as = front ++ [piece] ∧
      cutAt mark (as ++ bs) = front ++ [piece ++ bs] := by
  induction as with
  | nil => exact ⟨[], [], rfl, cutAt_of_not_mem mark bs clean⟩
  | cons a rest ih =>
    obtain ⟨front, piece, cut, whole⟩ := ih
    rw [List.cons_append, cutAt, cutAt, cut, whole]
    split
    · exact ⟨[] :: front, piece, rfl, rfl⟩
    · cases front with
      | nil => exact ⟨[], a :: piece, rfl, rfl⟩
      | cons first front => exact ⟨(a :: first) :: front, piece, rfl, rfl⟩

/-- What is written around a text goes to its first piece and to its last, which may be the same. -/
theorem cutAt_between (as xs bs : List α) (before : mark ∉ as) (behind : mark ∉ bs) :
    (∃ piece, cutAt mark xs = [piece] ∧
      cutAt mark (as ++ (xs ++ bs)) = [as ++ (piece ++ bs)]) ∨
    ∃ first inner last, cutAt mark xs = first :: (inner ++ [last]) ∧
      cutAt mark (as ++ (xs ++ bs)) = (as ++ first) :: (inner ++ [last ++ bs]) := by
  obtain ⟨front, last, cut, closed⟩ := cutAt_concat mark xs bs behind
  obtain ⟨first, back, reopened, whole⟩ := cutAt_behind mark as (xs ++ bs) before
  rw [closed] at reopened
  cases front with
  | nil =>
    obtain ⟨rfl, rfl⟩ := List.cons.inj reopened
    exact .inl ⟨last, cut, whole⟩
  | cons piece inner =>
    obtain ⟨rfl, rfl⟩ := List.cons.inj reopened
    exact .inr ⟨piece, inner, last, cut, whole⟩

/-- A text with one piece holds no mark. -/
theorem cutAt_eq_singleton {as piece : List α} (one : cutAt mark as = [piece]) :
    mark ∉ as ∧ piece = as := by
  by_cases marked : mark ∈ as
  · obtain ⟨front, back, rfl⟩ := List.append_of_mem marked
    have pieces := congrArg List.length one
    have some_front := List.length_pos_iff.mpr (cutAt_ne_nil mark front)
    have some_back := List.length_pos_iff.mpr (cutAt_ne_nil mark back)
    rw [cutAt_append, List.length_append, List.length_singleton] at pieces
    omega
  · rw [cutAt_of_not_mem mark as marked] at one
    exact ⟨marked, (List.singleton_inj.mp one).symm⟩

end ImportUsage
