import ImportUsage.Proofs.Source.PatternWriting

/-! What the declarations of variables declare, where they are patterns. -/

namespace ImportUsage

namespace Tree

/-- What stands in front of the values in a declaration of variables. -/
def patterns (v : Tree) : List Tree :=
  (v.parts.filter (·.isNode .variableDeclarator)).filterMap (·.parts.head?)

/-- Is a declaration of variables written with these patterns? -/
def Binds (v : Tree) (ps : List Pattern) : Prop :=
  v.patterns.map (·.sketch.map Token.stroke) = ps.map Pattern.sketch

theorem text_bound {v : Tree} {ps : List Pattern} (binds : v.Binds ps) :
    (v.patterns.flatMap bound).map Token.text = ps.flatMap Pattern.names := by
  have read (t : Tree) : t.bound.map Token.text = Stroke.names (t.sketch.map Token.stroke) :=
    (Token.names_stroke _).symm
  calc (v.patterns.flatMap bound).map Token.text
      = (v.patterns.map (·.sketch.map Token.stroke)).flatMap Stroke.names := by
        simp only [List.map_flatMap, List.flatMap_map, read]
    _ = (ps.map Pattern.sketch).flatMap Stroke.names := by rw [binds]
    _ = ps.flatMap Pattern.names := by simp only [List.flatMap_map, Pattern.names_sketch]

theorem flatMap_declared (ts : List Tree) :
    ts.flatMap declared = (ts.filterMap (·.parts.head?)).flatMap boundNames := by
  induction ts with
  | nil => rfl
  | cons t ts ih =>
    rw [List.flatMap_cons, ih, List.filterMap_cons, declared]
    cases t.parts.head? with
    | none => rfl
    | some p => rfl

/-- A declaration of variables inside a declaration, perhaps an ambient one. -/
inductive Holds : Tree → Tree → Prop
  | here (v : Tree) : Holds (.node .declaration [v]) v
  | ambient {t v : Tree} (word : Token) (inside : Holds t v) :
      Holds (.node .declaration [.node .ambientDeclaration [.leaf word, t]]) v

/-- A statement that is a declaration of variables, and whether it exports them. -/
inductive States : Tree → Bool → Tree → Prop
  | plain {t v : Tree} (inside : Holds t v) : States (.node .statement [t]) false v
  | exported {parts : List Tree} {t v : Tree} (inside : Holds t v)
      (given : (Tree.node .exportStatement parts).part? .declaration = some t) :
      States (.node .statement [.node .exportStatement parts]) true v

/-- A constant that is declared with this in place of its name. -/
def constant (t : Tree) : Tree :=
  .node .lexicalDeclaration [literal "const",
    .node .variableDeclarator [t, .node .initializer [literal "=", zero]], literal ";"]

/-- A declaration of variables as a statement. -/
def stated (exported : Bool) (v : Tree) : Tree :=
  .node .statement [if exported then
    .node .exportStatement [literal "export", .node .declaration [v]]
    else .node .declaration [v]]

theorem states_stated (exported : Bool) (v : Tree) : (stated exported v).States exported v := by
  cases exported with
  | false => exact .plain (.here v)
  | true => exact .exported (.here v) rfl

theorem Holds.declarations {t v : Tree} (inside : Holds t v) (exported : Bool) :
    t.declarations exported = v.declarations exported := by
  induction inside with
  | here v => simp [Tree.declarations, declarationsOf]
  | ambient word _ ih => simpa [Tree.declarations, declarationsOf] using ih

theorem States.contributions {s v : Tree} {exported : Bool} (states : s.States exported v) :
    s.statementContributions = [.declares (v.declarations exported)] := by
  cases states with
  | plain inside =>
    rw [← inside.declarations]
    cases inside with
    | here v => rfl
    | ambient word inside => rfl
  | exported inside given =>
    simp only [statementContributions, exportContributions, given, inside.declarations]

end Tree

namespace Dialect

open Rule Construct ImportUsage.Tree

variable {d : Dialect}

/-- The trees that the grammar has for declarations of variables. -/
def IsVariables (d : Dialect) (v : Tree) : Prop :=
  d.grammar.Derives (.construct lexicalDeclaration) [v] ∨
    d.grammar.Derives (.construct variableDeclaration) [v]

theorem node_tree {c : Construct} {r : Rule} {t : Tree} (given : d.ruleOf? c = some r)
    (kept : c ∉ d.grammar.inlined) (derives : d.grammar.Derives (.construct c) [t]) :
    ∃ parts, t = .node c parts ∧ d.grammar.Derives r parts :=
  Grammar.node_of_derives ((d.rule?_grammar c).trans given) kept derives

/-- A declarator begins with a name or a pattern, whatever may follow. -/
theorem declarator_begins {t : Tree}
    (derives : d.grammar.Derives (.construct variableDeclarator) [t]) :
    ∃ front rest, t = .node variableDeclarator (front ++ rest) ∧
      d.grammar.Derives (oneOf [Terminal.name, destructuringPattern]) front := by
  cases types : d.hasTypes with
  | true =>
    obtain ⟨parts, rfl, inside⟩ := typed_tree types (fun _ => rfl) (by decide) derives
    rcases (Grammar.derives_choice _ _ _ _).mp inside with valued | definite
    · obtain ⟨front, rest, bound, -, rfl⟩ := (Grammar.derives_sequence _ _ _ _).mp valued
      exact ⟨front, rest, rfl, bound⟩
    · obtain ⟨front, rest, named, -, rfl⟩ :=
        (Grammar.derives_sequence _ _ _ _).mp (Grammar.derives_ranked definite)
      exact ⟨front, rest, rfl, .left named⟩
  | false =>
    obtain rfl : d = .plain := by
      cases d <;> first | rfl | contradiction
    obtain ⟨parts, rfl, inside⟩ := node_tree rfl (by decide) derives
    obtain ⟨front, rest, bound, -, rfl⟩ := (Grammar.derives_sequence _ _ _ _).mp inside
    exact ⟨front, rest, rfl, bound⟩

theorem pattern_single {ts : List Tree}
    (derives : d.grammar.Derives (oneOf [Terminal.name, destructuringPattern]) ts) :
    ∃ p, ts = [p] ∧ ∀ others, ungroup p others = p :: others := by
  rcases (Grammar.derives_choice _ _ _ _).mp derives with named | nested
  · obtain ⟨k, -, rfl⟩ := name_leaf _ named
    exact ⟨.leaf k, rfl, fun _ => rfl⟩
  · obtain ⟨inside, rfl⟩ := Grammar.derives_kept (by cases d <;> decide) nested
    exact ⟨.node destructuringPattern inside, rfl, fun _ => rfl⟩

theorem declarator_head {t : Tree}
    (derives : d.grammar.Derives (.construct variableDeclarator) [t]) :
    ∃ p, t.parts.head? = some p ∧
      d.grammar.Derives (oneOf [Terminal.name, destructuringPattern]) [p] := by
  obtain ⟨front, rest, rfl, bound⟩ := declarator_begins derives
  obtain ⟨p, rfl, single⟩ := pattern_single bound
  exact ⟨p, by rw [parts, List.singleton_append, ungroupAll, single]; rfl, bound⟩

theorem boundNames_head {p : Tree}
    (derives : d.grammar.Derives (oneOf [Terminal.name, destructuringPattern]) [p]) :
    p.boundNames = (p.bound.filter (!·.isUndefined)).map Token.text := by
  simpa [ReadsBound, boundNamesOf, sketchOf, bound] using readsBound derives rfl

theorem variables_tree {v : Tree} (declares : d.IsVariables v) :
    ∃ c word rest, v = .node c (.leaf word :: rest) ∧
      (c = lexicalDeclaration ∨ c = variableDeclaration) ∧
      d.grammar.Derives (seq [listed variableDeclarator, statementEnd]) rest := by
  rcases declares with lexical | hoisted
  · obtain ⟨parts, rfl, inside⟩ := node_tree
      (r := seq [oneOf ["let", "const"], listed variableDeclarator, statementEnd])
      (by cases d <;> rfl) (by cases d <;> decide) lexical
    obtain ⟨_, rest, word, bound, rfl⟩ := (Grammar.derives_sequence _ _ _ _).mp inside
    obtain ⟨k, rfl⟩ := Grammar.derives_token rfl word
    exact ⟨_, k, rest, rfl, .inl rfl, bound⟩
  · obtain ⟨parts, rfl, inside⟩ := node_tree
      (r := seq ["var", listed variableDeclarator, statementEnd])
      (by cases d <;> rfl) (by cases d <;> decide) hoisted
    obtain ⟨k, rest, -, rfl, bound⟩ := literal_starts inside
    exact ⟨_, k, rest, rfl, .inr rfl, bound⟩

theorem derives_declarators {rest : List Tree}
    (derives : d.grammar.Derives (seq [listed variableDeclarator, statementEnd]) rest) :
    ∀ t ∈ (ungroupAll rest []).filter (·.isNode variableDeclarator),
      d.grammar.Derives (.construct variableDeclarator) [t] := by
  obtain ⟨ts, _, list, last, rfl⟩ := (Grammar.derives_sequence _ _ _ _).mp derives
  obtain ⟨e, rfl, -⟩ := d.statementEnd_tree _ last
  obtain ⟨first, more, head, tail, ungrouped⟩ :=
    Grammar.derives_listed (by cases d <;> decide) list
  intro t member
  obtain ⟨listed, node⟩ := List.mem_filter.mp member
  rw [ungroupAll_append, ungrouped, List.mem_cons, List.mem_append] at listed
  rcases listed with rfl | between | last
  · exact head
  · obtain ⟨p, here, either⟩ := List.mem_flatMap.mp between
    simp only [List.mem_cons, List.not_mem_nil, or_false] at either
    rcases either with rfl | rfl
    · cases node
    · exact (tail p here).2
  · obtain rfl := List.mem_singleton.mp last
    cases node

/-- Every word that a pattern binds is declared, in order, unless it is the keyword `undefined`. -/
theorem declarations_bound {v : Tree} (declares : d.IsVariables v) (exported : Bool) :
    v.declarations exported = ((v.patterns.flatMap bound).filter (!·.isUndefined)).map
      fun k => ⟨k.text, .variableBinding, exported, v.line⟩ := by
  obtain ⟨c, word, rest, rfl, binds, derives⟩ := variables_tree declares
  have each : ∀ p ∈ (node c (.leaf word :: rest)).patterns,
      p.boundNames = (p.bound.filter (!·.isUndefined)).map Token.text := by
    intro p member
    obtain ⟨t, listed, head⟩ := List.mem_filterMap.mp member
    obtain ⟨q, same, pattern⟩ := declarator_head (derives_declarators derives t listed)
    obtain rfl := Option.some.inj (same.symm.trans head)
    exact boundNames_head pattern
  have names : (node c (.leaf word :: rest)).patterns.flatMap boundNames =
      (((node c (.leaf word :: rest)).patterns.flatMap bound).filter (!·.isUndefined)).map
        Token.text := by
    rw [List.filter_flatMap, List.map_flatMap]
    exact List.flatMap_congr each
  have filtered : (node c (.leaf word :: rest)).patterns =
      ((ungroupAll rest []).filter (·.isNode variableDeclarator)).filterMap (·.parts.head?) := rfl
  rw [declarations_variables binds, flatMap_declared, ← filtered, names, List.map_map]
  rfl

theorem isVariables_constant {t : Tree}
    (derives : d.grammar.Derives (oneOf [Terminal.name, destructuringPattern]) [t]) :
    d.IsVariables (constant t) := by
  have token := Grammar.derives_spelled d.grammar
  have value : d.grammar.Derives (.construct initializer)
      [.node initializer [literal "=", zero]] := by
    have zero := d.derives_zero
    cases d <;> exact derives_node _ rfl (by decide) (.sequence (token _ "=") zero)
  have declarator : d.grammar.Derives (.construct variableDeclarator) [.node variableDeclarator
      [t, .node initializer [literal "=", zero]]] := by
    cases d with
    | plain => exact derives_node _ rfl (by decide) (.sequence derives (.left value))
    | typed | typedMarkup =>
      exact derives_node _ rfl (by decide) (.left (.sequence derives
        (.sequence (.right .blank) (.left value))))
  have ends : d.grammar.Derives (.construct statementEnd) [literal ";"] := by
    cases d <;> exact .inlined (rule?_grammar _ _) (by decide) (.right (token _ ";"))
  left
  cases d <;> exact derives_node _ rfl (by decide) (.sequence (.right (token _ "const"))
    (.sequence (.sequence declarator (.right .blank)) ends))

theorem patterns_constant {t : Tree} (single : ∀ others, ungroup t others = t :: others) :
    (constant t).patterns = [t] := by
  have head : (Tree.node variableDeclarator [t, .node initializer
      [literal "=", zero]]).parts.head? = some t := by
    rw [parts, ungroupAll, single]
    rfl
  exact congrArg Option.toList head

theorem derives_stated {v : Tree} (declares : d.IsVariables v) (exported : Bool) :
    d.grammar.Derives (.construct statement) [stated exported v] := by
  have token := Grammar.derives_spelled d.grammar
  have inside : d.grammar.Derives (.construct declaration) [.node declaration [v]] := by
    rcases declares with binding | binding <;> cases d <;>
      exact derives_node _ rfl (by decide) (Grammar.derives_oneOf (by decide) binding)
  cases exported with
  | false =>
    cases d <;> exact derives_node _ rfl (by decide) (Grammar.derives_oneOf (by decide) inside)
  | true =>
    have given : d.grammar.Derives (.construct exportStatement) [.node exportStatement
        [literal "export", .node declaration [v]]] := by
      cases d with
      | plain =>
        exact derives_node _ rfl (by decide) (.right (.sequence (.right .blank)
          (.sequence (token _ "export") (.left inside))))
      | typed | typedMarkup =>
        exact derives_node _ rfl (by decide) (.right (.left (.sequence (.right .blank)
          (.sequence (token _ "export") (.left inside)))))
    cases d <;> exact derives_node _ rfl (by decide) (.left given)

/-- Every pattern stands in some declaration of variables, with nothing but names for its words. -/
theorem exists_variables (d : Dialect) (p : Pattern) :
    ∃ v, d.IsVariables v ∧ v.Binds [p] ∧ ∀ k ∈ v.patterns.flatMap bound, k.terminal = .name := by
  obtain ⟨ts, derives, writes⟩ := p.canWrite d
  obtain ⟨t, rfl, single⟩ := pattern_single derives
  have patterns := patterns_constant single
  have inside : sketchOf [t] = t.sketch := by
    simp [sketchOf]
  refine ⟨constant t, isVariables_constant derives, ?_, ?_⟩
  · rw [Binds, patterns, List.map_singleton, List.map_singleton, ← inside, writes.strokes]
  · intro k member
    rw [patterns, List.flatMap_singleton, bound, ← inside] at member
    exact writes.names k member

end Dialect

open ImportUsage.Tree

/-- Variables of these names, declared on one line. -/
def Contribution.bindings (exported : Bool) (line : Nat) (names : List String) : Contribution :=
  .declares (names.map (⟨·, .variableBinding, exported, line⟩))

theorem Contribution.bindings_inj {exported : Bool} {line : Nat} {names others : List String}
    (same : bindings exported line names = bindings exported line others) : names = others :=
  List.map_injective_iff.mpr (fun _ _ same => congrArg Declaration.name same)
    (Contribution.declares.inj same)

theorem Token.filter_isUndefined (ks : List Token) :
    (ks.filter (!·.isUndefined)).map Token.text = ks.map Token.text ↔
      ∀ k ∈ ks, k.isUndefined = false := by
  constructor
  · intro same
    have long := congrArg List.length same
    rw [List.length_map, List.length_map, List.length_filter_eq_length_iff] at long
    simpa using long
  · intro none
    rw [List.filter_eq_self.mpr (by simpa using none)]

/-- A statement that declares variables by patterns declares the names that the patterns bind, each
as often as it is bound and in the order in which they are written: nothing for property names, and
nothing for what stands in a value. The keyword `undefined`, which stands for a name in all places
but the shorthand of a property and the single name, is the one word that is passed over. -/
theorem destructuring_declares_iff (d : Dialect) (exported : Bool) :
    (∀ p : Pattern, ∃ v s, d.IsVariables v ∧ d.grammar.Derives (.construct .statement) [s] ∧
      s.States exported v ∧ v.Binds [p] ∧
      s.statementContributions = [.bindings exported v.line p.names]) ∧
    ∀ (v s : Tree) (ps : List Pattern), d.IsVariables v → s.States exported v → v.Binds ps →
      (v.patterns.flatMap bound).map Token.text = ps.flatMap Pattern.names ∧
      s.statementContributions = [.bindings exported v.line
        (((v.patterns.flatMap bound).filter (!·.isUndefined)).map Token.text)] ∧
      (s.statementContributions = [.bindings exported v.line (ps.flatMap Pattern.names)] ↔
        ∀ k ∈ v.patterns.flatMap bound, k.isUndefined = false) := by
  have declared {v s : Tree} (declares : d.IsVariables v) (states : s.States exported v) :
      s.statementContributions = [.bindings exported v.line
        (((v.patterns.flatMap bound).filter (!·.isUndefined)).map Token.text)] := by
    rw [states.contributions, Dialect.declarations_bound declares, Contribution.bindings,
      List.map_map]
    rfl
  constructor
  · intro p
    obtain ⟨v, declares, binds, names⟩ := d.exists_variables p
    refine ⟨v, stated exported v, declares, Dialect.derives_stated declares exported,
      states_stated exported v, binds, ?_⟩
    have defined : ∀ k ∈ v.patterns.flatMap bound, k.isUndefined = false := by
      intro k member
      simp [Token.isUndefined, names k member]
    rw [declared declares (states_stated exported v),
      (Token.filter_isUndefined _).mpr defined, text_bound binds, List.flatMap_singleton]
  · intro v s ps declares states binds
    refine ⟨text_bound binds, declared declares states, ?_⟩
    rw [declared declares states, ← text_bound binds, ← Token.filter_isUndefined]
    constructor
    · intro same
      exact Contribution.bindings_inj (List.cons.inj same).1
    · intro same
      rw [same]

/-- `[undefined]` -/
def undefinedElement : Tree :=
  .node .destructuringPattern [.node .arrayPattern
    [literal "[", .node .pattern [literal "undefined"], literal "]"]]

theorem derives_undefinedElement :
    Dialect.typed.grammar.Derives (.construct .destructuringPattern) [undefinedElement] := by
  have token := Grammar.derives_spelled Dialect.typed.grammar
  have rule := Dialect.rule?_grammar .typed
  have word : Dialect.typed.grammar.Derives (.construct .nameOrUndefined) _ :=
    .inlined (rule _) (by decide) (.left (token _ "undefined"))
  have target : Dialect.typed.grammar.Derives (.construct .assignable) _ :=
    .inlined (rule _) (by decide) (.right (.right (.left word)))
  have element : Dialect.typed.grammar.Derives (.construct .pattern) _ :=
    .construct (rule _) (by decide) (.left target)
  have array : Dialect.typed.grammar.Derives (.construct .arrayPattern) _ :=
    .construct (rule _) (by decide) (.sequence (token _ "[") (.sequence
      (.left (.sequence (.left (.left element)) (.right .blank))) (token _ "]")))
  exact .construct (rule _) (by decide) (.right array)

/-- A property by its own name, one with a pattern, one with a default, and the others. -/
def Pattern.everyMember : Pattern :=
  .object [.shorthand "undefined" false, .keyed (.array [.item (.name "undefined") false]) false,
    .shorthand "b" true, .rest (.name "c")]

/-- `{ undefined, a: [undefined], b = 0, ...c }` -/
def everyMember : Tree :=
  .node .destructuringPattern [.node .objectPattern
    [literal "\x7b", named "undefined", .group [
      .group [literal ",", .node .pairPattern
        [.node .propertyName [named "a"], literal ":", .node .pattern [undefinedElement]]],
      .group [
        .group [literal ",", .node .objectAssignmentPattern [named "b", literal "=", zero]],
        .group [literal ",", .node .restPattern [literal "...", named "c"]]]],
      literal "\x7d"]]

theorem derives_everyMember :
    Dialect.typed.grammar.Derives (.construct .destructuringPattern) [everyMember] := by
  have token := Grammar.derives_spelled Dialect.typed.grammar
  have rule := Dialect.rule?_grammar .typed
  have place : Dialect.typed.grammar.Derives (.construct .assignable) [undefinedElement] :=
    .inlined (rule _) (by decide) (.right (.right (.right (.right (.left
      derives_undefinedElement)))))
  have value : Dialect.typed.grammar.Derives (.construct .pattern) _ :=
    .construct (rule _) (by decide) (.left place)
  have key : Dialect.typed.grammar.Derives (.construct .propertyName) _ :=
    .construct (rule _) (by decide) (.left (.left (token _ "a")))
  have pair : Dialect.typed.grammar.Derives (.construct .pairPattern) _ :=
    .construct (rule _) (by decide) (.sequence key (.sequence (token _ ":") (.left value)))
  have assigned : Dialect.typed.grammar.Derives (.construct .objectAssignmentPattern) _ :=
    .construct (rule _) (by decide) (.sequence (.left (.right (token _ "b")))
      (.sequence (token _ "=") (Dialect.derives_zero _)))
  have name : Dialect.typed.grammar.Derives (.construct .nameOrUndefined) _ :=
    .inlined (rule _) (by decide) (.right (token _ "c"))
  have others : Dialect.typed.grammar.Derives (.construct .assignable) _ :=
    .inlined (rule _) (by decide) (.right (.right (.left name)))
  have rest : Dialect.typed.grammar.Derives (.construct .restPattern) _ :=
    .construct (rule _) (by decide) (.ranked (.sequence (token _ "...") others))
  have object : Dialect.typed.grammar.Derives (.construct .objectPattern) _ :=
    .construct (rule _) (by decide) (.ranked (.sequence (token _ "\x7b") (.sequence
      (.left (.sequence (.left (.right (.right (.right (.left (token _ "undefined"))))))
        (.left (.again (.once (.sequence (token _ ",") (.left (.left pair))))
          (.again (.once (.sequence (token _ ",") (.left (.right (.right (.left assigned))))))
            (.once (.sequence (token _ ",") (.left (.right (.left rest)))))))))) (token _ "\x7d"))))
  exact .construct (rule _) (by decide) (.left object)

theorem destructuring_declares_everyMember :
    Dialect.typed.IsVariables (constant everyMember) ∧
    (constant everyMember).Binds [.everyMember] ∧
    (stated true (constant everyMember)).statementContributions =
      [.bindings true 0 ["undefined", "b", "c"]] := by
  have declares := Dialect.isVariables_constant (.right derives_everyMember)
  have binds : (constant everyMember).Binds [.everyMember] := rfl
  obtain ⟨-, declared, -⟩ := (destructuring_declares_iff .typed true).2 _ _ _ declares
    (states_stated true _) binds
  exact ⟨declares, binds, declared⟩

theorem undefined_element_undeclared :
    Dialect.typed.IsVariables (constant undefinedElement) ∧
    (constant undefinedElement).Binds [.array [.item (.name "undefined") false]] ∧
    (stated true (constant undefinedElement)).statementContributions = [.bindings true 0 []] :=
  ⟨Dialect.isVariables_constant (.right derives_undefinedElement), rfl, rfl⟩

end ImportUsage
