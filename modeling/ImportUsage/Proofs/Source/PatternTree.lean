import Mathlib.Data.List.ReduceOption
import ImportUsage.Proofs.Source.Pattern

/-! The names that are read off the tree of a pattern. What is a pattern in a tree, and what a
pattern passes over, is told by the constructs; that the rules keep to it is checked one by one. -/

namespace ImportUsage

namespace Construct

/-- Property names and values, and places to assign to that are no names. -/
def isPassedOver : Construct → Bool
  | .propertyName | .expression | .memberExpression | .subscriptExpression
  | .nonNullExpression => true
  | _ => false

/-- The constructs that patterns are made of. -/
def isPattern : Construct → Bool
  | .pattern | .destructuringPattern | .objectPattern | .arrayPattern | .restPattern | .pairPattern
  | .assignmentPattern | .objectAssignmentPattern | .assignable | .nameOrUndefined
  | .contextualWord => true
  | _ => false

end Construct

namespace Rule

/-- Is it a token, whichever one of several? -/
def isToken : Rule → Bool
  | .terminal _ => true
  | .choice a b => isToken a && isToken b
  | _ => false

/-- Is a rule made of patterns and of what they pass over? -/
def isPattern : Rule → Bool
  | .terminal _ | .blank => true
  | .construct c => c.isPattern || c.isPassedOver
  | .sequence a b | .choice a b => isPattern a && isPattern b
  | .repetition body | .ranked _ _ body => isPattern body

end Rule

theorem Grammar.derives_token {g : Grammar} {r : Rule} {ts : List Tree} (token : r.isToken = true)
    (derives : g.Derives r ts) : ∃ k : Token, ts = [.leaf k] := by
  induction derives with
  | terminal k => exact ⟨k, rfl⟩
  | left _ ih => exact ih (Bool.and_eq_true_iff.mp token).1
  | right _ ih => exact ih (Bool.and_eq_true_iff.mp token).2
  | _ => contradiction

namespace Token

/-- Is it a name, or a keyword where a name may stand? -/
def isWord (k : Token) : Bool := k.terminal = .name || k.isKeyword

/-- Is it the keyword `undefined`, not a name of that spelling? -/
def isUndefined (k : Token) : Bool := k.terminal ≠ .name && k.text = "undefined"

/-- A token as it is written, and a gap where there is none. -/
def stroke : Option Token → Stroke
  | some k => if k.isWord then .name k.text else .mark k.text
  | none => .gap

/-- The words between the gaps. -/
def words (ks : List (Option Token)) : List Token := ks.reduceOption.filter isWord

theorem words_append (ks ms : List (Option Token)) : words (ks ++ ms) = words ks ++ words ms := by
  rw [words, List.reduceOption_append, List.filter_append, ← words, ← words]

theorem names_stroke (ks : List (Option Token)) :
    Stroke.names (ks.map stroke) = (words ks).map text := by
  induction ks with
  | nil => rfl
  | cons k ks ih =>
    cases k with
    | none => exact ih
    | some k => cases word : k.isWord <;> simp [words, stroke, word, ih]

end Token

namespace Tree

mutual

/-- The tokens of a pattern, with a gap for each part that is passed over. -/
def sketch : Tree → List (Option Token)
  | .leaf k => [some k]
  | .node c parts => if c.isPassedOver then [none] else sketchOf parts
  | .group parts => sketchOf parts

def sketchOf : List Tree → List (Option Token)
  | [] => []
  | t :: more => sketch t ++ sketchOf more

end

/-- The words that stand in a pattern where it binds a name. -/
def bound (t : Tree) : List Token := Token.words t.sketch

/-- What is read off the trees of a list is what they bind, the keyword `undefined` apart. -/
def ReadsBound (ts : List Tree) : Prop :=
  boundNamesOf ts = ((Token.words (sketchOf ts)).filter (!·.isUndefined)).map Token.text

theorem sketchOf_append (ts us : List Tree) : sketchOf (ts ++ us) = sketchOf ts ++ sketchOf us := by
  induction ts with
  | nil => rfl
  | cons t ts ih => rw [List.cons_append, sketchOf, ih, ← List.append_assoc, ← sketchOf]

theorem boundNamesOf_append (ts us : List Tree) :
    boundNamesOf (ts ++ us) = boundNamesOf ts ++ boundNamesOf us := by
  induction ts with
  | nil => rfl
  | cons t ts ih => rw [List.cons_append, boundNamesOf, ih, ← List.append_assoc, ← boundNamesOf]

theorem boundNames_mark {k : Token} {s : String} (mark : k.terminal = .literal s)
    (plain : s.toList.any isLetter = false) : boundNames (.leaf k) = [] := by
  simp [boundNames, Token.isKeyword, mark, plain]

theorem boundNamesOf_marked {k : Token} {s : String} (mark : k.terminal = .literal s)
    (plain : s.toList.any isLetter = false) (t u : Tree) :
    boundNamesOf [t, .leaf k, u] = boundNames t ++ boundNames u := by
  simp [boundNamesOf, boundNames_mark mark plain]

theorem ReadsBound.leaf (k : Token) : ReadsBound [.leaf k] := by
  by_cases name : k.terminal = .name
  · simp [ReadsBound, boundNamesOf, boundNames, sketchOf, sketch, Token.words, Token.isWord,
      Token.isUndefined, name]
  · cases keyword : k.isKeyword <;> by_cases undefined : k.text = "undefined" <;>
      simp [ReadsBound, boundNamesOf, boundNames, sketchOf, sketch, Token.words, Token.isWord,
        Token.isUndefined, name, keyword, undefined]

theorem ReadsBound.append {ts us : List Tree} (front : ReadsBound ts) (back : ReadsBound us) :
    ReadsBound (ts ++ us) := by
  rw [ReadsBound, boundNamesOf_append, front, back, sketchOf_append, Token.words_append,
    List.filter_append, List.map_append]

theorem ReadsBound.node {c : Construct} {parts : List Tree} (kept : c.isPassedOver = false)
    (same : boundNames (.node c parts) = boundNamesOf parts) (inside : ReadsBound parts) :
    ReadsBound [.node c parts] := by
  rw [ReadsBound, boundNamesOf, boundNamesOf, List.append_nil, same, inside, sketchOf, sketchOf,
    List.append_nil, sketch, kept]
  rfl

theorem ReadsBound.group {parts : List Tree} (inside : ReadsBound parts) :
    ReadsBound [.group parts] := by
  rw [ReadsBound, boundNamesOf, boundNamesOf, List.append_nil, boundNames, inside, sketchOf,
    sketchOf, List.append_nil, sketch]

theorem boundNames_passedOver {c : Construct} (passed : c.isPassedOver = true)
    (parts : List Tree) : boundNames (.node c parts) = [] := by
  cases c <;> first | rfl | contradiction

theorem ReadsBound.passedOver {c : Construct} (passed : c.isPassedOver = true)
    (parts : List Tree) : ReadsBound [.node c parts] := by
  simp [ReadsBound, boundNamesOf, boundNames_passedOver passed, sketchOf, sketch, passed,
    Token.words]

end Tree

namespace Dialect

open Rule Construct ImportUsage.Tree

/-- Is this definition none of a pattern, or does its rule keep to patterns? -/
def keepsToPatterns (e : Definition) : Bool := !e.construct.isPattern || e.rule.isPattern

theorem keepsToPatterns_plain : ∀ e ∈ Grammar.Plain.definitions, keepsToPatterns e = true := by
  decide +kernel

theorem keepsToPatterns_changes : ∀ d : Dialect, ∀ e ∈ d.changes, keepsToPatterns e = true
  | .plain => by decide +kernel
  | .typed => by decide +kernel
  | .typedMarkup => by decide +kernel

variable {d : Dialect}

theorem isPattern_rule {c : Construct} {r : Rule} (defined : d.grammar.rule? c = some r)
    (pattern : c.isPattern = true) : r.isPattern = true := by
  have listed := d.mem_definitions _ (Grammar.mem_of_rule? defined)
  have keeps := listed.elim (keepsToPatterns_plain _) (keepsToPatterns_changes d _)
  simpa [keepsToPatterns, pattern] using keeps

theorem passedOver_kept {c : Construct} (passed : c.isPassedOver = true) :
    c ∉ d.grammar.inlined := by
  intro given
  cases c <;> first | contradiction | exact absurd given (by cases d <;> decide)

theorem contextualWord_leaf {ts : List Tree}
    (derives : d.grammar.Derives (.construct contextualWord) ts) : ∃ k : Token, ts = [.leaf k] := by
  have given : contextualWord ∈ d.grammar.inlined := by
    cases d <;> decide
  have defined : ∃ r, d.grammar.rule? contextualWord = some r ∧ r.isToken = true := by
    rw [rule?_grammar]
    cases d <;> exact ⟨_, rfl, rfl⟩
  obtain ⟨r, defined, token⟩ := defined
  exact Grammar.derives_token token
    ((Grammar.derives_inlined _ _ _ defined given _).mp derives)

theorem pair_tree {parts : List Tree} (derives : d.grammar.Derives
    (seq [propertyName, ":", oneOf [pattern, assignmentPattern]]) parts) :
    ∃ name k value, parts = [.node propertyName name, .leaf k, value] ∧
      k.terminal = .literal ":" := by
  obtain ⟨_, _, name, rest, rfl⟩ := (Grammar.derives_sequence _ _ _ _).mp derives
  obtain ⟨k, _, mark, rfl, value⟩ := literal_starts rest
  obtain ⟨inside, rfl⟩ := Grammar.derives_kept (passedOver_kept rfl) name
  rcases (Grammar.derives_choice _ _ _ _).mp value with target | defaulted
  · obtain ⟨target, rfl⟩ := Grammar.derives_kept (by cases d <;> decide) target
    exact ⟨inside, k, _, rfl, mark⟩
  · obtain ⟨target, rfl⟩ := Grammar.derives_kept (by cases d <;> decide) defaulted
    exact ⟨inside, k, _, rfl, mark⟩

theorem default_tree {target : Rule} {parts : List Tree}
    (single : ∀ ts, d.grammar.Derives target ts → ∃ t, ts = [t])
    (derives : d.grammar.Derives (seq [target, "=", expression]) parts) :
    ∃ t k value, parts = [t, .leaf k, .node expression value] ∧ k.terminal = .literal "=" := by
  obtain ⟨_, _, front, rest, rfl⟩ := (Grammar.derives_sequence _ _ _ _).mp derives
  obtain ⟨k, _, mark, rfl, value⟩ := literal_starts rest
  obtain ⟨inside, rfl⟩ := Grammar.derives_kept (passedOver_kept rfl) value
  obtain ⟨t, rfl⟩ := single _ front
  exact ⟨t, k, inside, rfl, mark⟩

theorem shorthand_tree {ts : List Tree} (derives : d.grammar.Derives
    (oneOf [oneOf [contextualWord, Terminal.name], destructuringPattern]) ts) :
    ∃ t, ts = [t] := by
  simp only [oneOf, Grammar.derives_choice] at derives
  rcases derives with (word | name) | nested
  · obtain ⟨k, rfl⟩ := contextualWord_leaf word
    exact ⟨_, rfl⟩
  · obtain ⟨k, -, rfl⟩ := name_leaf _ name
    exact ⟨_, rfl⟩
  · obtain ⟨inside, rfl⟩ := Grammar.derives_kept (by cases d <;> decide) nested
    exact ⟨_, rfl⟩

/-- A pair binds what its value binds, and what has a default what stands in front of it. -/
theorem boundNames_pattern {c : Construct} {r : Rule} {parts : List Tree}
    (pattern : c.isPattern = true) (kept : c ∉ d.grammar.inlined)
    (defined : d.grammar.rule? c = some r) (derives : d.grammar.Derives r parts) :
    boundNames (.node c parts) = boundNamesOf parts := by
  have known {s : Rule} (given : d.ruleOf? c = some s) : d.grammar.Derives s parts := by
    rwa [← Option.some.inj (defined.symm.trans ((d.rule?_grammar c).trans given))]
  cases c with
  | pattern | destructuringPattern | objectPattern | arrayPattern | restPattern => rfl
  | assignable | nameOrUndefined | contextualWord => exact absurd (by cases d <;> decide) kept
  | pairPattern =>
    obtain ⟨name, k, value, rfl, mark⟩ := pair_tree (known (by cases d <;> rfl))
    rw [boundNames, boundNamesOf_marked mark (by decide), boundNames_passedOver rfl name,
      List.nil_append]
  | assignmentPattern =>
    have single (ts : List Tree) (derives : d.grammar.Derives (.construct Construct.pattern) ts) :
        ∃ t, ts = [t] := by
      obtain ⟨inside, rfl⟩ := Grammar.derives_kept (by cases d <;> decide) derives
      exact ⟨_, rfl⟩
    obtain ⟨t, k, value, rfl, mark⟩ := default_tree single (known (by cases d <;> rfl))
    rw [boundNames, boundNamesOf_marked mark (by decide), boundNames_passedOver rfl value,
      List.append_nil]
  | objectAssignmentPattern =>
    obtain ⟨t, k, value, rfl, mark⟩ := default_tree (fun _ => shorthand_tree)
      (known (by cases d <;> rfl))
    rw [boundNames, boundNamesOf_marked mark (by decide), boundNames_passedOver rfl value,
      List.append_nil]
  | _ => contradiction

/-- From the rules one by one to all trees of patterns. -/
theorem readsBound {r : Rule} {ts : List Tree} (derives : d.grammar.Derives r ts)
    (pattern : r.isPattern = true) : ReadsBound ts := by
  induction derives with
  | terminal k => exact .leaf k
  | @construct c rule parts defined kept inside ih =>
    rcases Bool.or_eq_true_iff.mp pattern with within | passed
    · have inner : c.isPassedOver = false := by
        cases c <;> first | rfl | contradiction
      exact .node inner (boundNames_pattern within kept defined inside)
        (ih (isPattern_rule defined within))
    · exact .passedOver passed parts
  | inlined defined given inside ih =>
    rcases Bool.or_eq_true_iff.mp pattern with within | passed
    · exact ih (isPattern_rule defined within)
    · exact absurd given (passedOver_kept passed)
  | blank => rfl
  | sequence _ _ first next =>
    obtain ⟨front, back⟩ := Bool.and_eq_true_iff.mp pattern
    exact (first front).append (next back)
  | left _ ih => exact ih (Bool.and_eq_true_iff.mp pattern).1
  | right _ ih => exact ih (Bool.and_eq_true_iff.mp pattern).2
  | once _ ih => exact .group (ih pattern)
  | again _ _ first next => exact .group ((first pattern).append (next pattern))
  | ranked _ ih => exact ih pattern

end Dialect

end ImportUsage
