import ImportUsage.Proofs.Grammar.Tokens
import ImportUsage.Proofs.Source.Lexeme
import ImportUsage.Source.Statement

/-! The tokens of trees, as they are written. -/

namespace ImportUsage

theorem Lexeme.intercalate_commas (first : List Lexeme) (more : List (List Lexeme)) :
    [.mark ','].intercalate (first :: more) = first ++ more.flatMap (.mark ',' :: ·) := by
  induction more generalizing first with
  | nil => simp
  | cons second more ih =>
    rw [List.intercalate_cons_cons, ih second]
    simp

namespace Terminal

/-- A token as it is written. Tokens that are written in no other way count as numbers. -/
def lexeme (text : String) : Terminal → Lexeme
  | .name => .name text
  | .string => .string (String.ofList ((text.toList.drop 1).dropLast))
  | .literal s =>
    if s.toList.any isLetter then .keyword s
    else match s.toList with
      | [c] => .mark c
      | _ => .number
  | _ => .number

/-- A token as it is written, if it is a word, a string, a number or a mark of one character. -/
def lexeme? (text : String) : Terminal → Option Lexeme
  | .name => some (lexeme text .name)
  | .string => some (lexeme text .string)
  | .number => some .number
  | .literal s =>
    if s.toList.any isLetter || s.toList.length = 1 then some (lexeme text (.literal s)) else none
  | _ => none

theorem lexeme_of_lexeme? {text : String} {a : Terminal} {l : Lexeme}
    (read : a.lexeme? text = some l) : a.lexeme text = l := by
  unfold lexeme? at read
  split at read
  · exact Option.some.inj read
  · exact Option.some.inj read
  · exact Option.some.inj read
  · exact Option.some.inj (Option.ite_none_right_eq_some.mp read).2
  · contradiction

end Terminal

namespace Token

/-- The tokens as they are written. The end of a statement that needs no semicolon is not. -/
def spelling (ks : List Token) : List (Option Lexeme) :=
  (ks.filter (·.terminal ≠ .lineEnd)).map fun k => k.terminal.lexeme? k.text

theorem spelling_append (ks ms : List Token) :
    spelling (ks ++ ms) = spelling ks ++ spelling ms := by
  simp [spelling]

theorem spelling_cons (k : Token) (ks : List Token) (written : k.terminal ≠ .lineEnd) :
    spelling (k :: ks) = k.terminal.lexeme? k.text :: spelling ks := by
  rw [spelling, List.filter_cons_of_pos (by simpa using written), List.map_cons]
  rfl

theorem spelling_lineEnd (k : Token) (ks : List Token) (unwritten : k.terminal = .lineEnd) :
    spelling (k :: ks) = spelling ks := by
  rw [spelling, List.filter_cons_of_neg (by simpa using unwritten)]
  rfl

theorem spelling_literal (k : Token) (ks : List Token) (s : String)
    (literal : k.terminal = .literal s) :
    spelling (k :: ks) = Terminal.lexeme? "" (.literal s) :: spelling ks := by
  rw [spelling_cons k ks (by simp [literal]), literal]
  rfl

theorem spelling_name (k : Token) (ks : List Token) (name : k.terminal = .name) :
    spelling (k :: ks) = some (.name k.text) :: spelling ks := by
  rw [spelling_cons k ks (by simp [name]), name]
  rfl

theorem lexeme?_mem_spelling {k : Token} {ks : List Token} {s : String} (member : k ∈ ks)
    (literal : k.terminal = .literal s) : Terminal.lexeme? "" (.literal s) ∈ spelling ks := by
  obtain ⟨before, after, rfl⟩ := List.append_of_mem member
  rw [spelling_append, spelling_literal k after s literal]
  exact List.mem_append_right _ List.mem_cons_self

/-- The token as it is written, or nothing for the end of a statement that needs no semicolon. -/
def lexemes (k : Token) : List Lexeme :=
  if k.terminal = .lineEnd then [] else [k.terminal.lexeme k.text]

theorem lexemes_literal (k : Token) (s : String) (l : Lexeme) (literal : k.terminal = .literal s)
    (spelled : Terminal.lexeme "" (.literal s) = l) : k.lexemes = [l] := by
  rw [lexemes, literal, if_neg (by simp)]
  exact congrArg ([·]) spelled

theorem lexemes_name (k : Token) (name : k.terminal = .name) : k.lexemes = [.name k.text] := by
  rw [lexemes, name]
  rfl

theorem flatMap_lexemes {ks : List Token} {ls : List Lexeme} (spelled : spelling ks = ls.map some) :
    ks.flatMap lexemes = ls := by
  induction ks generalizing ls with
  | nil => exact (List.map_eq_nil_iff.mp spelled.symm).symm
  | cons k ks ih =>
    by_cases unwritten : k.terminal = .lineEnd
    · rw [spelling_lineEnd k ks unwritten] at spelled
      rw [List.flatMap_cons, lexemes, if_pos unwritten, List.nil_append]
      exact ih spelled
    · rw [spelling_cons k ks unwritten] at spelled
      obtain ⟨l, more, rfl, here, there⟩ := List.map_eq_cons_iff.mp spelled.symm
      rw [List.flatMap_cons, lexemes, if_neg unwritten, ih there.symm,
        Terminal.lexeme_of_lexeme? here.symm, List.singleton_append]

end Token

namespace Tree

/-- The tree has these tokens, all of them in this line. -/
structure Spells (t : Tree) (line : Nat) (ls : List Lexeme) : Prop where
  tokens : Token.spelling t.tokens = ls.map some
  line : ∀ k ∈ t.tokens, k.start.line = line

mutual

/-- The tokens of a tree, as they are written. -/
def lexemes : Tree → List Lexeme
  | .leaf k => k.lexemes
  | .node _ parts => lexemesOf parts
  | .group parts => lexemesOf parts

def lexemesOf : List Tree → List Lexeme
  | [] => []
  | t :: more => lexemes t ++ lexemesOf more

end

mutual

theorem lexemes_eq_flatMap : ∀ t : Tree, t.lexemes = t.tokens.flatMap Token.lexemes
  | .leaf _ => (List.append_nil _).symm
  | .node _ parts => lexemesOf_eq_flatMap parts
  | .group parts => lexemesOf_eq_flatMap parts

theorem lexemesOf_eq_flatMap : ∀ ts : List Tree, lexemesOf ts = (tokensOf ts).flatMap Token.lexemes
  | [] => rfl
  | t :: more => by
    rw [lexemesOf, tokensOf, List.flatMap_append, lexemes_eq_flatMap t, lexemesOf_eq_flatMap more]

end

theorem Spells.lexemes {t : Tree} {n : Nat} {ls : List Lexeme} (spells : t.Spells n ls) :
    t.lexemes = ls := by
  rw [lexemes_eq_flatMap, Token.flatMap_lexemes spells.tokens]

theorem Spells.line_eq {t : Tree} {n : Nat} {ls : List Lexeme} (spells : t.Spells n ls)
    (written : ls ≠ []) : t.line = n := by
  rw [Tree.line, firstToken?_eq_head?]
  cases tokens : t.tokens with
  | nil =>
    have empty := spells.tokens
    rw [tokens] at empty
    exact absurd (List.map_eq_nil_iff.mp empty.symm) written
  | cons k ks => exact spells.line k (tokens ▸ List.mem_cons_self)

theorem lexemesOf_append (ts us : List Tree) :
    lexemesOf (ts ++ us) = lexemesOf ts ++ lexemesOf us := by
  simp only [lexemesOf_eq_flatMap, tokensOf_append, List.flatMap_append]

theorem lexemesOf_ungroupAll (ts others : List Tree) :
    lexemesOf (ungroupAll ts others) = lexemesOf ts ++ lexemesOf others := by
  simp only [lexemesOf_eq_flatMap, tokensOf_ungroupAll, List.flatMap_append]

theorem lexemesOf_afterCommas (more : List (Token × Tree))
    (commas : ∀ p ∈ more, p.1.terminal = .literal ",") :
    lexemesOf (afterCommas more) = more.flatMap fun p => .mark ',' :: p.2.lexemes := by
  induction more with
  | nil => rfl
  | cons p more ih =>
    obtain ⟨comma, others⟩ := List.forall_mem_cons.1 commas
    have mark := p.1.lexemes_literal "," (.mark ',') comma rfl
    rw [afterCommas, List.flatMap_cons, ← afterCommas, lexemesOf_append, ih others]
    simp [lexemesOf, lexemes, mark]

end Tree

end ImportUsage
