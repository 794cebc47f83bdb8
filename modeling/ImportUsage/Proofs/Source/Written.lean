import ImportUsage.Proofs.Source.Brief

/-! Import statements as they are usually written, and how they are read back. -/

namespace ImportUsage

/-- An identifier of the ASCII range that has no meaning of its own in the grammar. -/
def IsPlainName (s : String) : Prop := IsIdentifier s.toList ∧ s ∉ keywords

instance (s : String) : Decidable (IsPlainName s) :=
  inferInstanceAs (Decidable (IsIdentifier s.toList ∧ s ∉ keywords))

/-- What a module path cannot hold as it is: quotes, the backslash, what ends a line, and the null
character. -/
def escapedInPaths : List Char :=
  ['\x27', '"', '\\', '\n', '\r', '\u2028', '\u2029', '\x00']

theorem isPlainInString_of_not_escaped (c : Char) (plain : c ∉ escapedInPaths) :
    isPlainInString c = true := by
  simp only [escapedInPaths, List.mem_cons, List.not_mem_nil, or_false, not_or] at plain
  obtain ⟨single, double, backslash, feed, carriage, separator, paragraph, null⟩ := plain
  have code (d : Char) (other : c ≠ d) : c.toNat ≠ d.toNat := fun same =>
    other (Char.toNat_inj.mp same)
  have separator_code : c.toNat ≠ 0x2028 := code _ separator
  have paragraph_code : c.toNat ≠ 0x2029 := code _ paragraph
  have null_code : c.toNat ≠ 0 := code _ null
  simp [isPlainInString, endsComment, isLineFeed, isNull, single, double, backslash, feed,
    carriage, separator_code, paragraph_code, null_code]

namespace Specifier

def names (s : Specifier) : List String := s.imported :: s.localName.toList

def written : Specifier → String
  | ⟨imported, none⟩ => imported
  | ⟨imported, some renamed⟩ => imported ++ " as " ++ renamed

def lexemes : Specifier → List Lexeme
  | ⟨imported, none⟩ => [.name imported]
  | ⟨imported, some renamed⟩ => [.name imported, .keyword "as", .name renamed]

/-- Specifiers between braces. -/
def braced : List Specifier → String
  | [] => "\x7b\x7d"
  | specifiers => "\x7b " ++ ", ".intercalate (specifiers.map written) ++ " \x7d"

def bracedLexemes (specifiers : List Specifier) : List Lexeme :=
  .mark '{' :: ([.mark ','].intercalate (specifiers.map lexemes) ++ [.mark '}'])

end Specifier

namespace Import

namespace Kind

/-- The names in an import clause. -/
def names : Kind → List String
  | named n specifiers => n.toList ++ specifiers.flatMap Specifier.names
  | main n | whole n => [n]
  | sideEffect => []

/-- What stands before the module path. -/
def written : Kind → String
  | named none specifiers => Specifier.braced specifiers ++ " from "
  | named (some n) specifiers => n ++ ", " ++ Specifier.braced specifiers ++ " from "
  | main n => n ++ " from "
  | whole n => "* as " ++ n ++ " from "
  | sideEffect => ""

def lexemes : Kind → List Lexeme
  | named none specifiers => Specifier.bracedLexemes specifiers ++ [.keyword "from"]
  | named (some n) specifiers =>
    .name n :: .mark ',' :: (Specifier.bracedLexemes specifiers ++ [.keyword "from"])
  | main n => [.name n, .keyword "from"]
  | whole n => [.mark '*', .keyword "as", .name n, .keyword "from"]
  | sideEffect => []

end Kind

/-- Can the statement be written without escapes and without words of the grammar as names? -/
def IsPlain (i : Import) : Prop :=
  (∀ n ∈ i.kind.names, IsPlainName n) ∧ ∀ c ∈ i.source.toList, c ∉ escapedInPaths

instance (i : Import) : Decidable i.IsPlain :=
  @instDecidableAnd _ _ (List.decidableBAll _ _) (List.decidableBAll _ _)

/-- The statement on a line of its own. -/
def written (i : Import) : String := "import " ++ i.kind.written ++ "\x27" ++ i.source ++ "\x27;"

def lexemes (i : Import) : List Lexeme :=
  .keyword "import" :: (i.kind.lexemes ++ [.string i.source, .mark ';'])

end Import

/-! The tokens of what is written. -/

namespace Lexeme

theorem ofLine_name (n : String) (c : Char) (s : Text) (ls : List Lexeme) (plain : IsPlainName n)
    (ends : isPlain c = false) (next : ofLine (c :: s) = some ls) :
    ofLine (n.toList ++ c :: s) = some (.name n :: ls) := by
  have word := ofLine_word n.toList s c ls plain.1 ends next
  rwa [String.ofList_toList, ofWord, if_neg (by simpa using plain.2)] at word

theorem ofLine_keyword (k : String) (c : Char) (s : Text) (ls : List Lexeme)
    (spelled : IsIdentifier k.toList) (listed : k ∈ keywords) (ends : isPlain c = false)
    (next : ofLine (c :: s) = some ls) :
    ofLine (k.toList ++ c :: s) = some (.keyword k :: ls) := by
  have word := ofLine_word k.toList s c ls spelled ends next
  rwa [String.ofList_toList, ofWord, if_pos (by simpa using listed)] at word

theorem ofLine_specifier (s : Specifier) (c : Char) (rest : Text) (ls : List Lexeme)
    (plain : ∀ n ∈ s.names, IsPlainName n) (ends : isPlain c = false)
    (next : ofLine (c :: rest) = some ls) :
    ofLine (s.written.toList ++ c :: rest) = some (s.lexemes ++ ls) := by
  obtain ⟨imported, renamed⟩ := s
  have first : IsPlainName imported := plain imported (by simp [Specifier.names])
  cases renamed with
  | none => exact ofLine_name imported c rest ls first ends next
  | some renamed =>
    have second : IsPlainName renamed := plain renamed (by simp [Specifier.names])
    have after := ofLine_name renamed c rest ls second ends next
    have mark := ofLine_keyword "as" ' ' (renamed.toList ++ c :: rest) _ (by decide)
      (by decide +kernel) (by decide) (by rwa [ofLine_space])
    have whole := ofLine_name imported ' ' ("as".toList ++ ' ' :: (renamed.toList ++ c :: rest)) _
      first (by decide) (by rwa [ofLine_space])
    simpa [Specifier.written, Specifier.lexemes] using whole

theorem ofLine_specifiers (first : Specifier) (more : List Specifier) (rest : Text)
    (ls : List Lexeme) (plain : ∀ s ∈ first :: more, ∀ n ∈ s.names, IsPlainName n)
    (next : ofLine rest = some ls) :
    ofLine ((", ".intercalate ((first :: more).map Specifier.written)).toList ++ ' ' :: rest) =
      some ([.mark ','].intercalate ((first :: more).map Specifier.lexemes) ++ ls) := by
  induction more generalizing first with
  | nil =>
    have alone := ofLine_specifier first ' ' rest ls (plain first (by simp)) (by decide)
      (by rwa [ofLine_space])
    simpa using alone
  | cons second more ih =>
    have after := ih second (fun s member => plain s (List.mem_cons_of_mem _ member))
    have comma := ofLine_mark ',' (' ' :: _) _ (by decide) ((ofLine_space _).trans after)
    have whole := ofLine_specifier first ',' _ _ (plain first (by simp)) (by decide) comma
    simpa [String.toList_intercalate, List.intercalate_cons_cons] using whole

theorem ofLine_braced (specifiers : List Specifier) (rest : Text) (ls : List Lexeme)
    (plain : ∀ s ∈ specifiers, ∀ n ∈ s.names, IsPlainName n) (next : ofLine rest = some ls) :
    ofLine ((Specifier.braced specifiers).toList ++ rest) =
      some (Specifier.bracedLexemes specifiers ++ ls) := by
  have closed := ofLine_mark '}' rest ls (by decide) next
  cases specifiers with
  | nil => exact ofLine_mark '{' ('}' :: rest) _ (by decide) closed
  | cons first more =>
    have inside := ofLine_specifiers first more ('}' :: rest) _ plain closed
    have whole := ofLine_mark '{' (' ' :: _) _ (by decide) ((ofLine_space _).trans inside)
    simpa [Specifier.braced, Specifier.bracedLexemes] using whole

theorem ofLine_kind (kind : Import.Kind) (rest : Text) (ls : List Lexeme)
    (plain : ∀ n ∈ kind.names, IsPlainName n) (next : ofLine ('\x27' :: rest) = some ls) :
    ofLine (kind.written.toList ++ '\x27' :: rest) = some (kind.lexemes ++ ls) := by
  have origin : ofLine (' ' :: ("from".toList ++ ' ' :: '\x27' :: rest)) =
      some (.keyword "from" :: ls) :=
    ofLine_keyword "from" ' ' ('\x27' :: rest) ls (by decide) (by decide +kernel) (by decide) next
  cases kind with
  | named n specifiers =>
    have inside (s : Specifier) (member : s ∈ specifiers) (m : String) (named : m ∈ s.names) :
        IsPlainName m :=
      plain m (List.mem_append_right _ (List.mem_flatMap.2 ⟨s, member, named⟩))
    have braces := ofLine_braced specifiers _ _ inside origin
    cases n with
    | none => simpa [Import.Kind.written, Import.Kind.lexemes] using braces
    | some n =>
      have first : IsPlainName n := plain n (by simp [Import.Kind.names])
      have comma := ofLine_mark ',' (' ' :: _) _ (by decide) ((ofLine_space _).trans braces)
      have whole := ofLine_name n ',' _ _ first (by decide) comma
      simpa [Import.Kind.written, Import.Kind.lexemes] using whole
  | main n =>
    have whole := ofLine_name n ' ' _ _ (plain n (by simp [Import.Kind.names])) (by decide) origin
    simpa [Import.Kind.written, Import.Kind.lexemes] using whole
  | whole n =>
    have name := ofLine_name n ' ' _ _ (plain n (by simp [Import.Kind.names])) (by decide) origin
    have mark := ofLine_keyword "as" ' ' _ _ (by decide) (by decide +kernel) (by decide)
      ((ofLine_space _).trans name)
    have whole := ofLine_mark '*' (' ' :: _) _ (by decide) ((ofLine_space _).trans mark)
    simpa [Import.Kind.written, Import.Kind.lexemes] using whole
  | sideEffect => exact next

theorem ofLine_written (i : Import) (plain : i.IsPlain) :
    ofLine i.written.toList = some i.lexemes := by
  have path (c : Char) (member : c ∈ i.source.toList) : isPlainInString c = true :=
    isPlainInString_of_not_escaped c (plain.2 c member)
  have ending : ofLine [';'] = some [.mark ';'] := ofLine_mark ';' [] [] (by decide) ofLine_nil
  have source := ofLine_string i.source.toList [';'] _ path ending
  have clause := ofLine_kind i.kind _ _ plain.1 source
  have whole := ofLine_keyword "import" ' ' _ _ (by decide) (by decide +kernel) (by decide)
    ((ofLine_space _).trans clause)
  simpa [Import.written, Import.lexemes] using whole

end Lexeme

/-! The statements that these tokens make. -/

namespace Brief

theorem specifiers?_last (s : Specifier) (ls : List Lexeme) :
    specifiers? (s.lexemes ++ .mark '}' :: ls) = some ([s], ls) := by
  obtain ⟨imported, renamed⟩ := s
  cases renamed <;> rfl

theorem specifiers?_next (s : Specifier) (ls : List Lexeme) :
    specifiers? (s.lexemes ++ .mark ',' :: ls) =
      (specifiers? ls).map fun (more, ls) => (s :: more, ls) := by
  obtain ⟨imported, renamed⟩ := s
  cases renamed <;> rfl

theorem specifiers?_lexemes (specifiers : List Specifier) (ls : List Lexeme) :
    specifiers? ([.mark ','].intercalate (specifiers.map Specifier.lexemes) ++ .mark '}' :: ls) =
      some (specifiers, ls) := by
  induction specifiers with
  | nil => rfl
  | cons first more ih =>
    cases more with
    | nil =>
      rw [List.map_singleton, List.intercalate_singleton]
      exact specifiers?_last first ls
    | cons second more =>
      rw [List.map_cons, List.map_cons, List.intercalate_cons_cons, ← List.map_cons,
        List.append_assoc, List.append_assoc, List.singleton_append, specifiers?_next, ih]
      rfl

theorem clause?_lexemes (kind : Import.Kind) (ls : List Lexeme) (binds : kind ≠ .sideEffect) :
    clause? (kind.lexemes ++ ls) = some (kind, .keyword "from" :: ls) := by
  cases kind with
  | named n specifiers =>
    have inside := specifiers?_lexemes specifiers (.keyword "from" :: ls)
    cases n <;> simp [Import.Kind.lexemes, Specifier.bracedLexemes, clause?, inside]
  | main n => rfl
  | whole n => rfl
  | sideEffect => contradiction

theorem import?_lexemes (i : Import) (n : Nat) :
    (import? n (i.kind.lexemes ++ [.string i.source, .mark ';'])) = some { i with line := n } := by
  obtain ⟨kind, source, line⟩ := i
  by_cases binds : kind = .sideEffect
  · subst binds
    rfl
  · have clause := clause?_lexemes kind [.string source, .mark ';'] binds
    rw [import?]
    · simp only [clause]
    · intro m same
      rw [same] at clause
      simp [clause?] at clause

end Brief

end ImportUsage
