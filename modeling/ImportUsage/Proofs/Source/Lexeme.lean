import ImportUsage.Lexical.LineEnd

/-! The tokens of a line that holds nothing but words, strings without escapes, numbers and marks. A
written line is read token by token: each lemma takes the reading of what follows and puts one token
in front of it. -/

namespace ImportUsage

/-- The words with a meaning of their own somewhere in the grammar. -/
def keywords : List String :=
  ["abstract", "accessor", "any", "as", "assert", "asserts", "async", "await", "boolean", "break",
    "case", "catch", "class", "const", "continue", "debugger", "declare", "default", "delete", "do",
    "else", "enum", "export", "extends", "false", "finally", "for", "from", "function", "get",
    "global", "if", "implements", "import", "in", "infer", "instanceof", "interface", "is", "keyof",
    "let", "meta", "module", "namespace", "never", "new", "null", "number", "object", "of",
    "override", "private", "protected", "public", "readonly", "require", "return", "satisfies",
    "set", "static", "string", "super", "switch", "symbol", "target", "this", "throw", "true",
    "try", "type", "typeof", "undefined", "unique", "unknown", "using", "var", "void", "while",
    "with", "yield"]

/-- A letter of a plain name. -/
def isPlainLetter (c : Char) : Bool := isLetter c || c = '_' || c = '$'

/-- A character of a plain name after the first. -/
def isPlain (c : Char) : Bool := isPlainLetter c || isDecimal c

/-- A character that stands for itself in a string between any quotes. -/
def isPlainInString (c : Char) : Bool :=
  c ≠ '\x27' && c ≠ '"' && c ≠ '\\' && !endsComment c

/-- A token of a brief statement. -/
inductive Lexeme
  | keyword (s : String)
  | name (s : String)
  | string (s : String)
  | number
  | mark (c : Char)
deriving DecidableEq, Repr

namespace Lexeme

/-- A word is a keyword or a name. -/
def ofWord (s : String) : Lexeme := if keywords.contains s then .keyword s else .name s

/-- The first token of a line and the characters after it. -/
def first? : Text → Option (Lexeme × Text)
  | [] => none
  | c :: s =>
    if isPlainLetter c then
      some (.ofWord (String.ofList (c :: s.takeWhile isPlain)), s.dropWhile isPlain)
    else if c = '\x27' || c = '"' then
      match s.dropWhile isPlainInString with
      | q :: rest =>
        if q = c then some (.string (String.ofList (s.takeWhile isPlainInString)), rest) else none
      | [] => none
    else if c = '0' then some (.number, s)
    else if isDecimal c then some (.number, s.dropWhile isDecimal)
    else if punctuation.contains c then some (.mark c, s)
    else none

/-- The tokens of a line, if spaces alone stand between them. -/
def within : Bound → Text → Option (List Lexeme)
  | _, [] => some []
  | [], _ => none
  | _ :: bound, ' ' :: s => within bound s
  | _ :: bound, s => do
    let (l, rest) ← first? s
    return l :: (← within bound rest)

/-- The tokens of a line. -/
def ofLine (line : Text) : Option (List Lexeme) := within line line

end Lexeme

/-- A letter of the ASCII range, an underscore or a dollar sign, and then any of these and digits. -/
def IsIdentifier : Text → Prop
  | [] => False
  | c :: s => (c.isAlpha ∨ c = '_' ∨ c = '$') ∧ ∀ d ∈ s, d.isAlphanum ∨ d = '_' ∨ d = '$'

instance : (s : Text) → Decidable (IsIdentifier s)
  | [] => .isFalse id
  | _ :: s => @instDecidableAnd _ _ inferInstance (List.decidableBAll _ s)

theorem isLetter_eq_isAlpha (c : Char) : isLetter c = c.isAlpha := by
  have capitals : ('A' ≤ c && c ≤ 'Z') = c.isUpper := (Bool.decide_and _ _).symm
  have others : ('a' ≤ c && c ≤ 'z') = c.isLower := rfl
  rw [isLetter, capitals, others, Bool.or_comm]
  rfl

theorem isPlainLetter_iff (c : Char) : isPlainLetter c = true ↔ c.isAlpha ∨ c = '_' ∨ c = '$' := by
  simp [isPlainLetter, isLetter_eq_isAlpha, or_assoc]

theorem isPlain_iff (c : Char) : isPlain c = true ↔ c.isAlphanum ∨ c = '_' ∨ c = '$' := by
  have digit : isDecimal c = c.isDigit := rfl
  have either : c.isAlphanum = (c.isAlpha || c.isDigit) := rfl
  rw [isPlain, Bool.or_eq_true, isPlainLetter_iff, digit, either, Bool.or_eq_true]
  grind

namespace Lexeme

theorem newline_not_mem_takeWhile (p : Char → Bool) (s : Text) (stops : p '\n' = false) :
    '\n' ∉ s.takeWhile p := by
  intro member
  rw [List.all_eq_true.1 List.all_takeWhile '\n' member] at stops
  contradiction

/-- Every token takes at least one character, and no line break. -/
theorem first?_takes (s rest : Text) (l : Lexeme) (read : first? s = some (l, rest)) :
    ∃ taken, s = taken ++ rest ∧ taken ≠ [] ∧ '\n' ∉ taken := by
  cases s with
  | nil => simp [first?] at read
  | cons c s =>
    rw [first?] at read
    have run (p : Char → Bool) (stops : p '\n' = false) (apart : c ≠ '\n')
        (same : s.dropWhile p = rest) :
        ∃ taken, c :: s = taken ++ rest ∧ taken ≠ [] ∧ '\n' ∉ taken := by
      refine ⟨c :: s.takeWhile p, ?_, by simp, ?_⟩
      · rw [← same, List.cons_append, List.takeWhile_append_dropWhile]
      · simp [apart.symm, newline_not_mem_takeWhile p s stops]
    have one (apart : c ≠ '\n') (same : s = rest) :
        ∃ taken, c :: s = taken ++ rest ∧ taken ≠ [] ∧ '\n' ∉ taken :=
      ⟨[c], by simp [same], by simp, by simp [apart.symm]⟩
    split at read
    case isTrue letter =>
      have apart : c ≠ '\n' := by
        rintro rfl
        exact absurd letter (by decide)
      simp only [Option.some.injEq, Prod.mk.injEq] at read
      exact run isPlain (by decide) apart read.2
    split at read
    case isTrue quote =>
      have apart : c ≠ '\n' := by
        rintro rfl
        exact absurd quote (by decide)
      cases closing : s.dropWhile isPlainInString with
      | nil => simp [closing] at read
      | cons q after =>
        simp only [closing, Option.ite_none_right_eq_some, Option.some.injEq,
          Prod.mk.injEq] at read
        obtain ⟨same, -, rfl⟩ := read
        refine ⟨c :: (s.takeWhile isPlainInString ++ [q]), ?_, by simp, ?_⟩
        · rw [List.cons_append, List.append_assoc, List.singleton_append, ← closing,
            List.takeWhile_append_dropWhile]
        · simp [apart.symm, same, newline_not_mem_takeWhile isPlainInString s (by decide)]
    split at read
    case isTrue zero =>
      simp only [Option.some.injEq, Prod.mk.injEq] at read
      exact one (by rw [zero]; decide) read.2
    split at read
    case isTrue digit =>
      have apart : c ≠ '\n' := by
        rintro rfl
        exact absurd digit (by decide)
      simp only [Option.some.injEq, Prod.mk.injEq] at read
      exact run isDecimal (by decide) apart read.2
    split at read
    case isTrue mark =>
      have apart : c ≠ '\n' := by
        rintro rfl
        exact absurd mark (by decide)
      simp only [Option.some.injEq, Prod.mk.injEq] at read
      exact one apart read.2
    case isFalse => simp at read

theorem first?_length (s rest : Text) (l : Lexeme) (read : first? s = some (l, rest)) :
    rest.length < s.length := by
  obtain ⟨taken, rfl, filled, -⟩ := first?_takes s rest l read
  have size := List.length_pos_iff.2 filled
  rw [List.length_append]
  omega

theorem within_nil (bound : Bound) : within bound [] = some [] := by
  cases bound <;> rfl

theorem within_space (c : Char) (bound : Bound) (s : Text) :
    within (c :: bound) (' ' :: s) = within bound s := rfl

theorem within_token (c d : Char) (bound : Bound) (s : Text) (apart : d ≠ ' ') :
    within (c :: bound) (d :: s) =
      (first? (d :: s)).bind fun found => (within bound found.2).map (found.1 :: ·) := by
  rw [within]
  · cases first? (d :: s) with
    | none => rfl
    | some found =>
      obtain ⟨l, rest⟩ := found
      exact Option.map_eq_bind.symm
  · simp
  · intro t same
    exact apart (List.cons.inj same).1

/-- A bound as long as the text does not limit the reading. -/
theorem within_eq_ofLine (bound : Bound) (s : Text) (enough : s.length ≤ bound.length) :
    within bound s = ofLine s := by
  suffices same : ∀ (size : Nat) (b₁ b₂ : Bound) (t : Text), t.length = size →
      t.length ≤ b₁.length → t.length ≤ b₂.length → within b₁ t = within b₂ t from
    same _ bound s s rfl enough (Nat.le_refl _)
  intro size
  -- the text after the first token is shorter, but not by one character only
  induction size using Nat.strongRecOn with
  | ind size ih =>
    intro b₁ b₂ t long enough₁ enough₂
    match t, b₁, b₂ with
    | [], _, _ => rw [within_nil, within_nil]
    | d :: t, x :: b₁, y :: b₂ =>
      simp only [List.length_cons, Nat.add_le_add_iff_right] at long enough₁ enough₂
      by_cases space : d = ' '
      · subst space
        rw [within_space, within_space]
        exact ih t.length (by omega) b₁ b₂ t rfl enough₁ enough₂
      rw [within_token x d b₁ t space, within_token y d b₂ t space]
      cases read : first? (d :: t) with
      | none => rfl
      | some found =>
        obtain ⟨l, rest⟩ := found
        have shorter := first?_length (d :: t) rest l read
        rw [List.length_cons] at shorter
        have tail := ih rest.length (by omega) b₁ b₂ rest rfl (by omega) (by omega)
        simp only [Option.bind_some, tail]

theorem newline_not_mem_of_within (bound : Bound) (s : Text) (ls : List Lexeme)
    (read : within bound s = some ls) : '\n' ∉ s := by
  induction bound generalizing s ls with
  | nil =>
    cases s with
    | nil => simp
    | cons d s => simp [within] at read
  | cons c bound ih =>
    cases s with
    | nil => simp
    | cons d s =>
      by_cases space : d = ' '
      · subst space
        have tail := ih s ls read
        simp [tail]
      rw [within_token c d bound s space, Option.bind_eq_some_iff] at read
      obtain ⟨⟨l, rest⟩, first, read⟩ := read
      obtain ⟨taken, split, -, clean⟩ := first?_takes (d :: s) rest l first
      obtain ⟨more, next, -⟩ := Option.map_eq_some_iff.1 read
      rw [split, List.mem_append]
      exact not_or.2 ⟨clean, ih rest more next⟩

theorem newline_not_mem (s : Text) (ls : List Lexeme) (read : ofLine s = some ls) : '\n' ∉ s :=
  newline_not_mem_of_within s s ls read

theorem ofLine_nil : ofLine [] = some [] := rfl

theorem ofLine_space (s : Text) : ofLine (' ' :: s) = ofLine s := rfl

theorem ofLine_token (d : Char) (s rest : Text) (l : Lexeme) (ls : List Lexeme) (apart : d ≠ ' ')
    (read : first? (d :: s) = some (l, rest)) (next : ofLine rest = some ls) :
    ofLine (d :: s) = some (l :: ls) := by
  have shorter := first?_length (d :: s) rest l read
  rw [List.length_cons] at shorter
  rw [ofLine, within_token d d s s apart, read, Option.bind_some,
    within_eq_ofLine s rest (by omega), next]
  rfl

theorem ofLine_word (word s : Text) (c : Char) (ls : List Lexeme) (spelled : IsIdentifier word)
    (ends : isPlain c = false) (next : ofLine (c :: s) = some ls) :
    ofLine (word ++ c :: s) = some (ofWord (String.ofList word) :: ls) := by
  cases word with
  | nil => exact spelled.elim
  | cons d word =>
    have letter : isPlainLetter d = true := (isPlainLetter_iff d).2 spelled.1
    have plain : ∀ x ∈ word, isPlain x = true := fun x member =>
      (isPlain_iff x).2 (spelled.2 x member)
    have apart : d ≠ ' ' := by
      rintro rfl
      exact absurd letter (by decide)
    apply ofLine_token d (word ++ c :: s) (c :: s) _ ls apart _ next
    rw [first?, if_pos letter, List.takeWhile_append_of_pos plain,
      List.dropWhile_append_of_pos plain, List.takeWhile_cons_of_neg (by simp [ends]),
      List.dropWhile_cons_of_neg (by simp [ends]), List.append_nil]

theorem ofLine_string (body s : Text) (ls : List Lexeme)
    (plain : ∀ c ∈ body, isPlainInString c = true) (next : ofLine s = some ls) :
    ofLine ('\x27' :: (body ++ '\x27' :: s)) = some (.string (String.ofList body) :: ls) := by
  have quote : isPlainInString '\x27' = false := by decide
  apply ofLine_token '\x27' (body ++ '\x27' :: s) s _ ls (by decide) _ next
  rw [first?, if_neg (by decide), if_pos (by decide), List.takeWhile_append_of_pos plain,
    List.dropWhile_append_of_pos plain, List.takeWhile_cons_of_neg (by simp [quote]),
    List.dropWhile_cons_of_neg (by simp [quote]), List.append_nil]
  rfl

theorem ofLine_mark (c : Char) (s : Text) (ls : List Lexeme)
    (mark : c ∈ ['{', '}', '(', ')', ',', ';', '*', '=']) (next : ofLine s = some ls) :
    ofLine (c :: s) = some (.mark c :: ls) := by
  have alone : first? (c :: s) = some (.mark c, s) := by
    simp only [List.mem_cons, List.not_mem_nil, or_false] at mark
    rcases mark with rfl | rfl | rfl | rfl | rfl | rfl | rfl | rfl <;> rfl
  have apart : c ≠ ' ' := by
    rintro rfl
    exact absurd mark (by decide)
  exact ofLine_token c s s _ ls apart alone next

theorem ofLine_zero (s : Text) (ls : List Lexeme) (next : ofLine s = some ls) :
    ofLine ('0' :: s) = some (.number :: ls) :=
  ofLine_token '0' s s .number ls (by decide) rfl next

end Lexeme

end ImportUsage
