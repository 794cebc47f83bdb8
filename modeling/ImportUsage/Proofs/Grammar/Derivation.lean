import ImportUsage.Automaton.Run

/-! The trees that a grammar has for its rules, whatever way a text is read. -/

namespace ImportUsage

/-- The trees that a grammar has for a rule, one after the other. A construct that is inlined leaves
its parts in its place, and a repetition groups its parts two by two. -/
inductive Grammar.Derives (g : Grammar) : Rule → List Tree → Prop
  | terminal (k : Token) : Derives g (.terminal k.terminal) [.leaf k]
  | construct {c : Construct} {rule : Rule} {parts : List Tree} (defined : g.rule? c = some rule)
      (kept : c ∉ g.inlined) (inside : Derives g rule parts) :
      Derives g (.construct c) [.node c parts]
  | inlined {c : Construct} {rule : Rule} {parts : List Tree} (defined : g.rule? c = some rule)
      (given : c ∈ g.inlined) (inside : Derives g rule parts) : Derives g (.construct c) parts
  | blank : Derives g .blank []
  | sequence {a b : Rule} {front back : List Tree} (first : Derives g a front)
      (next : Derives g b back) : Derives g (.sequence a b) (front ++ back)
  | left {a b : Rule} {ts : List Tree} (inside : Derives g a ts) : Derives g (.choice a b) ts
  | right {a b : Rule} {ts : List Tree} (inside : Derives g b ts) : Derives g (.choice a b) ts
  | once {body : Rule} {ts : List Tree} (inside : Derives g body ts) :
      Derives g (.repetition body) [.group ts]
  | again {body : Rule} {t u : Tree} (first : Derives g (.repetition body) [t])
      (next : Derives g (.repetition body) [u]) : Derives g (.repetition body) [.group [t, u]]
  | ranked {rank : Option Rank} {side : Option Side} {body : Rule} {ts : List Tree}
      (inside : Derives g body ts) : Derives g (.ranked rank side body) ts

namespace Grammar

variable (g : Grammar)

theorem derives_terminal (a : Terminal) (ts : List Tree) :
    g.Derives (.terminal a) ts ↔ ∃ k : Token, k.terminal = a ∧ ts = [.leaf k] := by
  constructor
  · intro derives
    cases derives with
    | terminal k => exact ⟨k, rfl, rfl⟩
  · rintro ⟨k, rfl, rfl⟩
    exact .terminal k

theorem derives_blank (ts : List Tree) : g.Derives .blank ts ↔ ts = [] := by
  constructor
  · intro derives
    cases derives
    rfl
  · rintro rfl
    exact .blank

theorem derives_sequence (a b : Rule) (ts : List Tree) :
    g.Derives (.sequence a b) ts ↔
      ∃ front back, g.Derives a front ∧ g.Derives b back ∧ ts = front ++ back := by
  constructor
  · intro derives
    cases derives with
    | sequence first next => exact ⟨_, _, first, next, rfl⟩
  · rintro ⟨front, back, first, next, rfl⟩
    exact .sequence first next

theorem derives_choice (a b : Rule) (ts : List Tree) :
    g.Derives (.choice a b) ts ↔ g.Derives a ts ∨ g.Derives b ts := by
  constructor
  · intro derives
    cases derives with
    | left inside => exact .inl inside
    | right inside => exact .inr inside
  · rintro (inside | inside)
    · exact .left inside
    · exact .right inside

theorem derives_optional (r : Rule) (ts : List Tree) :
    g.Derives r.optional ts ↔ g.Derives r ts ∨ ts = [] := by
  rw [Rule.optional, derives_choice, derives_blank]

theorem derives_construct (c : Construct) (rule : Rule) (defined : g.rule? c = some rule)
    (kept : c ∉ g.inlined) (ts : List Tree) :
    g.Derives (.construct c) ts ↔ ∃ parts, g.Derives rule parts ∧ ts = [.node c parts] := by
  constructor
  · intro derives
    cases derives with
    | construct other _ inside =>
      rw [defined, Option.some.injEq] at other
      subst other
      exact ⟨_, inside, rfl⟩
    | inlined _ given _ => exact absurd given kept
  · rintro ⟨parts, inside, rfl⟩
    exact .construct defined kept inside

theorem derives_inlined (c : Construct) (rule : Rule) (defined : g.rule? c = some rule)
    (given : c ∈ g.inlined) (ts : List Tree) :
    g.Derives (.construct c) ts ↔ g.Derives rule ts := by
  constructor
  · intro derives
    cases derives with
    | construct _ kept _ => exact absurd given kept
    | inlined other _ inside =>
      rw [defined, Option.some.injEq] at other
      subst other
      exact inside
  · exact .inlined defined given

/-- A rule of the changes hides the rule that it replaces. -/
theorem find?_override (definitions changes : List Definition) (c : Construct) :
    (override definitions changes).find? (·.construct = c) =
      (changes.find? (·.construct = c)).or (definitions.find? (·.construct = c)) := by
  have replaced (d : Definition) :
      ((changes.find? (·.construct = d.construct)).getD d).construct = d.construct := by
    cases found : changes.find? (·.construct = d.construct) with
    | none => rfl
    | some e => simpa using List.find?_some found
  rw [override, List.find?_append, List.find?_map]
  simp only [Function.comp_def, replaced]
  cases here : definitions.find? (·.construct = c) with
  | some d =>
    have same : d.construct = c := by simpa using List.find?_some here
    simp [same]
  | none =>
    have absent : definitions.any (·.construct = c) = false := by
      simpa using List.find?_eq_none.1 here
    rw [List.find?_filter, Option.map_none, Option.none_or, Option.or_none]
    congr 1
    funext e
    by_cases same : e.construct = c
    · simp [same, absent]
    · simp [same]

end Grammar

namespace Dialect

/-- The grammar of a dialect. -/
def grammar : Dialect → Grammar
  | .plain => .plain
  | .typed => .typed false
  | .typedMarkup => .typed true

attribute [local irreducible] Tables.ofGrammar in
/-- The machine of a dialect is made from this grammar. -/
theorem tables_machine (d : Dialect) : d.machine.tables = .ofGrammar d.grammar := by
  cases d <;> rfl

/-- The rules that a dialect has besides those of plain text, or in their place. -/
def changes : Dialect → List Definition
  | .plain => []
  | .typed => withTypes false
  | .typedMarkup => withTypes true
where
  withTypes (markedUp : Bool) : List Definition :=
    Grammar.Typed.moduleRules ++ Grammar.Typed.statementRules ++
      Grammar.Typed.expressionRules markedUp ++ Grammar.Typed.callableRules ++
      Grammar.Typed.markupRules ++ Grammar.Typed.typeRules

/-- The rule of a construct: the one of the dialect, or else the one of plain text. -/
def ruleOf? (d : Dialect) (c : Construct) : Option Rule :=
  ((d.changes.find? (·.construct = c)).or
    (Grammar.Plain.definitions.find? (·.construct = c))).map (·.rule)

theorem rule?_grammar (d : Dialect) (c : Construct) :
    d.grammar.rule? c = d.ruleOf? c := by
  cases d with
  | plain => rfl
  | typed => exact congrArg _ (Grammar.find?_override _ _ c)
  | typedMarkup => exact congrArg _ (Grammar.find?_override _ _ c)

end Dialect

end ImportUsage
