import ImportUsage.Proofs.Source.Written

/-! Statements that do nothing but declare names, as they are usually written, and how they are read
back. -/

namespace ImportUsage

/-- The words that declare variables. -/
inductive BindingWord
  | fixed
  | assignable
  | hoisted
deriving DecidableEq, Repr

def BindingWord.text : BindingWord → String
  | .fixed => "const"
  | .assignable => "let"
  | .hoisted => "var"

namespace Declaration.Kind

/-- What is written after the name. -/
def ending : Kind → String
  | .function => "() \x7b\x7d"
  | .typeAlias => " = number;"
  | _ => " \x7b\x7d"

def endingLexemes : Kind → List Lexeme
  | .function => [.mark '(', .mark ')', .mark '{', .mark '}']
  | .typeAlias => [.mark '=', .keyword "number", .mark ';']
  | _ => [.mark '{', .mark '}']

end Declaration.Kind

inductive DeclaringForm
  | named (kind : Declaration.Kind) (single : kind ≠ .variableBinding) (name : String)
  | bindings (word : BindingWord) (first : String) (more : List String)
deriving DecidableEq, Repr

namespace DeclaringForm

def kind : DeclaringForm → Declaration.Kind
  | named kind _ _ => kind
  | bindings _ _ _ => .variableBinding

def names : DeclaringForm → List String
  | named _ _ n => [n]
  | bindings _ first more => first :: more

def written : DeclaringForm → String
  | named kind _ n => kind.word ++ " " ++ n ++ kind.ending
  | bindings word first more =>
    word.text ++ " " ++ ", ".intercalate ((first :: more).map (· ++ " = 0")) ++ ";"

def bindingLexemes (n : String) : List Lexeme := [.name n, .mark '=', .number]

def lexemes : DeclaringForm → List Lexeme
  | named kind _ n => .keyword kind.word :: .name n :: kind.endingLexemes
  | bindings word first more =>
    .keyword word.text ::
      ([.mark ','].intercalate ((first :: more).map bindingLexemes) ++ [.mark ';'])

end DeclaringForm

structure DeclaringStatement where
  exported : Bool
  form : DeclaringForm
deriving DecidableEq, Repr

namespace DeclaringStatement

/-- The statement on a line of its own. -/
def written (s : DeclaringStatement) : String :=
  (if s.exported then "export " else "") ++ s.form.written

def lexemes (s : DeclaringStatement) : List Lexeme :=
  if s.exported then .keyword "export" :: s.form.lexemes else s.form.lexemes

def declarations (s : DeclaringStatement) (line : Nat) : List Declaration :=
  s.form.names.map (⟨·, s.form.kind, s.exported, line⟩)

end DeclaringStatement

/-! The tokens of what is written. -/

namespace Lexeme

open DeclaringForm

theorem ofLine_binding (n : String) (c : Char) (rest : Text) (ls : List Lexeme)
    (plain : IsPlainName n) (next : ofLine (c :: rest) = some ls) :
    ofLine ((n ++ " = 0").toList ++ c :: rest) = some (bindingLexemes n ++ ls) := by
  have zero := ofLine_zero (c :: rest) ls next
  have equals := ofLine_mark '=' (' ' :: _) _ (by decide) ((ofLine_space _).trans zero)
  have whole := ofLine_name n ' ' _ _ plain (by decide) ((ofLine_space _).trans equals)
  simpa [bindingLexemes] using whole

theorem ofLine_bindings (first : String) (more : List String)
    (plain : ∀ n ∈ first :: more, IsPlainName n) :
    ofLine ((", ".intercalate ((first :: more).map (· ++ " = 0"))).toList ++ [';']) =
      some ([.mark ','].intercalate ((first :: more).map bindingLexemes) ++ [.mark ';']) := by
  induction more generalizing first with
  | nil =>
    have ending : ofLine [';'] = some [.mark ';'] := rfl
    simpa using ofLine_binding first ';' [] _ (plain first (by simp)) ending
  | cons second more ih =>
    have after := ih second (fun n member => plain n (List.mem_cons_of_mem _ member))
    have comma := ofLine_mark ',' (' ' :: _) _ (by decide) ((ofLine_space _).trans after)
    have whole := ofLine_binding first ',' _ _ (plain first (by simp)) comma
    simpa [String.toList_intercalate, List.intercalate_cons_cons] using whole

theorem ofLine_form (f : DeclaringForm) (plain : ∀ n ∈ f.names, IsPlainName n) :
    ofLine f.written.toList = some f.lexemes := by
  cases f with
  | named kind single n =>
    have spelled : IsIdentifier kind.word.toList := by
      cases kind <;> decide +kernel
    have listed : kind.word ∈ keywords := by
      cases kind with
      | variableBinding => contradiction
      | _ => decide +kernel
    have ending : ofLine kind.ending.toList = some kind.endingLexemes := by
      cases kind <;> decide +kernel
    obtain ⟨c, rest, split, ends⟩ :
        ∃ c rest, kind.ending.toList = c :: rest ∧ isPlain c = false := by
      cases kind <;> exact ⟨_, _, rfl, by decide⟩
    have name := ofLine_name n c rest _ (plain n (by simp [names])) ends (by rwa [← split])
    have whole := ofLine_keyword kind.word ' ' _ _ spelled listed (by decide)
      ((ofLine_space _).trans name)
    simpa [written, DeclaringForm.lexemes, split] using whole
  | bindings word first more =>
    have spelled : IsIdentifier word.text.toList := by
      cases word <;> decide +kernel
    have listed : word.text ∈ keywords := by
      cases word <;> decide +kernel
    have bindings := ofLine_bindings first more plain
    have whole := ofLine_keyword word.text ' ' _ _ spelled listed (by decide)
      ((ofLine_space _).trans bindings)
    simpa [written, DeclaringForm.lexemes] using whole

theorem ofLine_declaring (s : DeclaringStatement) (plain : ∀ n ∈ s.form.names, IsPlainName n) :
    ofLine s.written.toList = some s.lexemes := by
  have form := ofLine_form s.form plain
  cases exported : s.exported with
  | false => simpa [DeclaringStatement.written, DeclaringStatement.lexemes, exported] using form
  | true =>
    have whole := ofLine_keyword "export" ' ' _ _ (by decide) (by decide +kernel) (by decide)
      ((ofLine_space _).trans form)
    simpa [DeclaringStatement.written, DeclaringStatement.lexemes, exported] using whole

end Lexeme

/-! The declarations that these tokens make. -/

namespace Brief

open DeclaringForm

theorem bindings?_lexemes (first : String) (more : List String) :
    bindings? ([.mark ','].intercalate ((first :: more).map bindingLexemes) ++ [.mark ';']) =
      some (first :: more) := by
  induction more generalizing first with
  | nil => rfl
  | cons second more ih =>
    rw [List.map_cons, List.map_cons, List.intercalate_cons_cons, ← List.map_cons,
      List.append_assoc, List.append_assoc]
    exact congrArg (Option.map (first :: ·)) (ih second)

theorem declared?_lexemes (d : Dialect) (types : d.hasTypes = true) (f : DeclaringForm) :
    declared? d f.lexemes = some (f.kind, f.names) := by
  cases f with
  | named kind single n =>
    cases kind with
    | variableBinding => contradiction
    | function => rfl
    | classType => rfl
    | interface => exact if_pos types
    | typeAlias => exact if_pos types
    | enumType => exact if_pos types
    | namespaceBlock => exact if_pos types
  | bindings word first more =>
    have bindings := bindings?_lexemes first more
    cases word <;> exact congrArg (Option.map _) bindings

end Brief

end ImportUsage
