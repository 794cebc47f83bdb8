import ImportUsage.Lexical.Text

/-! Gaps in front of a text. Every step over a comment shortens the text, so the bound of the loop
does not show; a blank or a closed block comment in front changes nothing in where the gap ends. -/

namespace ImportUsage

theorem afterBlanks_cons (blank : Char → Bool) (reader : Text → Nat) (c : Char) (s : Text)
    (passed : blank c = true) :
    afterBlanks blank reader (c :: s) =
      if afterBlanks blank reader s = 0 then 0 else afterBlanks blank reader s + 1 := by
  have longer : sizeWhile blank (c :: s) = sizeWhile blank s + 1 := by
    simp [sizeWhile, passed]
  simp only [afterBlanks, longer, List.drop_succ_cons]
  by_cases none : reader (s.drop (sizeWhile blank s)) = 0
  · simp [none]
  · simp only [none, if_false]
    rw [if_neg (by omega)]
    omega

theorem nextComment_nil (markup : Bool) : nextComment markup [] = 0 := by
  cases markup <;> rfl

theorem nextComment_cons (markup : Bool) (c : Char) (s : Text) (space : isSpace c = true) :
    nextComment markup (c :: s) =
      if nextComment markup s = 0 then 0 else nextComment markup s + 1 := by
  have blank : isBlank c = true := by simp [isBlank, space]
  cases markup
  · exact afterBlanks_cons isBlank commentSize c s blank
  · simp only [nextComment, if_true]
    rw [afterBlanks_cons _ markupCommentSize c s (by simp [space]),
      afterBlanks_cons _ commentSize c s blank]
    by_cases none : afterBlanks (fun c => isSpace c || isLineFeed c) markupCommentSize s = 0
    · simp [none]
    · simp [none]

theorem skipWithin_nil (bound : Bound) : skipWithin bound [] = [] := by
  cases bound with
  | nil => rfl
  | cons b bound => simp [skipWithin, nextComment_nil]

theorem skipWithin_cons (b : Char) (bound : Bound) (s : Text) :
    skipWithin (b :: bound) s =
      if nextComment true s = 0 then s.dropWhile isBlank
      else skipWithin bound (s.drop (nextComment true s)) := by
  rw [skipWithin]
  split <;> simp_all

theorem drop_nextComment_lt (s : Text) (found : nextComment true s ≠ 0) :
    (s.drop (nextComment true s)).length < s.length := by
  cases s with
  | nil => exact absurd (nextComment_nil true) found
  | cons c s =>
    rw [List.length_drop, List.length_cons]
    omega

theorem skipWithin_eq (bound bound' : Bound) (s : Text) (enough : s.length ≤ bound.length)
    (enough' : s.length ≤ bound'.length) : skipWithin bound s = skipWithin bound' s := by
  induction bound generalizing bound' s with
  | nil =>
    have empty : s = [] := List.length_eq_zero_iff.mp (Nat.le_zero.mp enough)
    rw [empty, skipWithin_nil, skipWithin_nil]
  | cons b bound ih =>
    cases bound' with
    | nil =>
      have empty : s = [] := List.length_eq_zero_iff.mp (Nat.le_zero.mp enough')
      rw [empty, skipWithin_nil, skipWithin_nil]
    | cons b' bound' =>
      rw [skipWithin_cons, skipWithin_cons]
      split
      · rfl
      · rename_i found
        have shorter := drop_nextComment_lt s found
        simp only [List.length_cons] at enough enough'
        apply ih
        · omega
        · omega

/-- One step: a gap goes on behind a comment, or ends after the blanks. -/
theorem skip_eq (s : Text) :
    skip s = if nextComment true s = 0 then s.dropWhile isBlank
      else skip (s.drop (nextComment true s)) := by
  cases s with
  | nil => simp [skip, skipWithin, nextComment_nil]
  | cons c s =>
    rw [skip, skipWithin_cons]
    split
    · rfl
    · rename_i found
      have shorter := drop_nextComment_lt (c :: s) found
      rw [List.length_cons] at shorter
      exact skipWithin_eq _ _ _ (Nat.le_of_lt_succ shorter) (Nat.le_refl _)

theorem skip_space (c : Char) (s : Text) (space : isSpace c = true) : skip (c :: s) = skip s := by
  have blank : isBlank c = true := by simp [isBlank, space]
  rw [skip_eq (c :: s), skip_eq s, nextComment_cons true c s space]
  by_cases none : nextComment true s = 0
  · simp [none, blank]
  · simp [none]

theorem skip_suffix (s : Text) : skip s <:+ s := by
  suffices within : ∀ (bound : Bound) (s : Text), skipWithin bound s <:+ s from within s s
  intro bound
  induction bound with
  | nil => exact fun s => List.dropWhile_suffix isBlank
  | cons b bound ih =>
    intro s
    rw [skipWithin_cons]
    split
    · exact List.dropWhile_suffix isBlank
    · exact (ih _).trans (List.drop_suffix _ s)

/-- What may stand between the marks of a block comment. -/
structure Commentable (t : Text) : Prop where
  unclosed : ¬['*', '/'] <:+: t
  filled : ∀ c ∈ t, isNull c = false

theorem Commentable.tail {c : Char} {t : Text} (inside : Commentable (c :: t)) :
    Commentable t where
  unclosed closes := inside.unclosed (closes.trans (List.suffix_cons c t).isInfix)
  filled d member := inside.filled d (List.mem_cons_of_mem c member)

theorem blockCommentSize_closed (t rest : Text) (inside : Commentable t) (n : Nat) :
    blockCommentSize n (t ++ '*' :: '/' :: rest) = n + t.length + 2 := by
  induction t generalizing n with
  | nil => rfl
  | cons c t ih =>
    -- The mark that closes the comment is not met before its end.
    have goes_on : ∀ more, c = '*' → t ++ '*' :: '/' :: rest = '/' :: more → False := by
      rintro more rfl early
      cases t with
      | nil => cases early
      | cons d t =>
        cases early
        exact inside.unclosed ⟨[], t, rfl⟩
    rw [List.cons_append, blockCommentSize.eq_3 _ _ _ goes_on,
      if_neg (by simp [inside.filled c List.mem_cons_self]), ih inside.tail, List.length_cons]
    omega

theorem nextComment_block (t rest : Text) (inside : Commentable t) :
    nextComment true ('/' :: '*' :: (t ++ '*' :: '/' :: rest)) = t.length + 4 := by
  have size : blockCommentSize 2 (t ++ '*' :: '/' :: rest) = t.length + 4 := by
    rw [blockCommentSize_closed t rest inside]
    omega
  simp [nextComment, afterBlanks, sizeWhile, markupCommentSize, commentSize, size, isSpace,
    isLineFeed, isBlank]

/-- A closed block comment belongs to the gap, whatever it holds. -/
theorem skip_block (t rest : Text) (inside : Commentable t) :
    skip ('/' :: '*' :: (t ++ '*' :: '/' :: rest)) = skip rest := by
  rw [skip_eq, nextComment_block t rest inside, if_neg (by omega)]
  have behind : ('/' :: '*' :: (t ++ '*' :: '/' :: rest)).drop (t.length + 4) = rest := by
    simp [List.drop_append]
  rw [behind]

end ImportUsage
