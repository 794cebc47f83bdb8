import ImportUsage.Proofs.Source.Spelling

/-! The trees of import statements. Their shapes are the same in all dialects, but for the names that
are bound and for imports that only typed text has. -/

namespace ImportUsage

namespace Tree

@[simp] theorem isNode_node (c e : Construct) (parts : List Tree) :
    (node e parts).isNode c = decide (c = e) := rfl

@[simp] theorem isNode_leaf (c : Construct) (k : Token) : (leaf k).isNode c = false := rfl

theorem ungroupAll_append (ts us others : List Tree) :
    ungroupAll (ts ++ us) others = ungroupAll ts (ungroupAll us others) := by
  induction ts with
  | nil => simp [ungroupAll]
  | cons t ts ih => simp [ungroupAll, ih]

/-- A name that an import binds. -/
inductive IsBinding : Tree → Prop
  | plain (k : Token) (name : k.terminal = .name) : IsBinding (.leaf k)
  | wrapped (k : Token) (word : k.terminal = .name ∨ k.terminal = .literal "type") :
      IsBinding (.node .importName [.leaf k])

inductive IsSpecifier : Tree → Prop
  | alone (b : Tree) (binding : IsBinding b) : IsSpecifier (.node .importSpecifier [b])
  | renamed (k as : Token) (b : Tree) (source : k.terminal = .name ∨ k.terminal = .string)
      (mark : as.terminal = .literal "as") (binding : IsBinding b) :
      IsSpecifier (.node .importSpecifier [.node .exportName [.leaf k], .leaf as, b])
  | ofType (k : Token) (word : k.terminal = .literal "type" ∨ k.terminal = .literal "typeof")
      (rest : List Tree) : IsSpecifier (.node .importSpecifier (.leaf k :: rest))

theorem IsSpecifier.exists_parts {t : Tree} (specifier : t.IsSpecifier) :
    ∃ parts, t = .node .importSpecifier parts := by
  cases specifier <;> exact ⟨_, rfl⟩

/-- Names between braces. A comma may follow the last one. -/
structure Lists (t : Tree) (specifiers : List Tree) : Prop where
  node : ∃ parts, t = .node .namedImports parts
  each : ∀ s ∈ specifiers, s.IsSpecifier
  parts : t.parts.filter (·.isNode .importSpecifier) = specifiers
  lexemes : ∃ comma, (comma = [] ∨ comma = [.mark ',']) ∧
    t.lexemes = .mark '{' :: ([.mark ','].intercalate (specifiers.map Tree.lexemes) ++
      (comma ++ [.mark '}']))

inductive IsWhole : Tree → Prop
  | intro (star as k : Token) (mark : star.terminal = .literal "*")
      (word : as.terminal = .literal "as") (name : k.terminal = .name) :
      IsWhole (.node .namespaceImport [.leaf star, .leaf as, .leaf k])

inductive IsClause : Tree → Prop
  | whole (w : Tree) (inside : IsWhole w) : IsClause (.node .importClause [w])
  | named (t : Tree) (specifiers : List Tree) (lists : t.Lists specifiers) :
      IsClause (.node .importClause [t])
  | main (b : Tree) (binding : IsBinding b) : IsClause (.node .importClause [b])
  | mainAndWhole (b w : Tree) (comma : Token) (binding : IsBinding b)
      (mark : comma.terminal = .literal ",") (inside : IsWhole w) :
      IsClause (.node .importClause [b, .leaf comma, w])
  | mainAndNamed (b t : Tree) (comma : Token) (specifiers : List Tree) (binding : IsBinding b)
      (mark : comma.terminal = .literal ",") (lists : t.Lists specifiers) :
      IsClause (.node .importClause [b, .leaf comma, t])

/-- What may follow the path of a module. -/
inductive IsEnding : List Tree → Prop
  | alone (k : Token) : IsEnding [.leaf k]
  | afterAttribute (word k : Token) (more : List Tree)
      (starts : word.terminal = .literal "with" ∨ word.terminal = .literal "assert") :
      IsEnding [.node .importAttribute (.leaf word :: more), .leaf k]

inductive IsImport : Tree → Prop
  | bare (word path : Token) (rest : List Tree) (starts : word.terminal = .literal "import")
      (string : path.terminal = .string) (ends : IsEnding rest) :
      IsImport (.node .importStatement (.leaf word :: .leaf path :: rest))
  | clause (word mark path : Token) (clause : Tree) (rest : List Tree)
      (starts : word.terminal = .literal "import") (binds : IsClause clause)
      (marks : mark.terminal = .literal "from") (string : path.terminal = .string)
      (ends : IsEnding rest) :
      IsImport (.node .importStatement
        (.leaf word :: clause :: .node .fromClause [.leaf mark, .leaf path] :: rest))
  | ofType (word k : Token) (rest : List Tree) (starts : word.terminal = .literal "import")
      (type : k.terminal = .literal "type" ∨ k.terminal = .literal "typeof") :
      IsImport (.node .importStatement (.leaf word :: .leaf k :: rest))
  | require (word k mark : Token) (inside rest : List Tree)
      (starts : word.terminal = .literal "import") (name : k.terminal = .name)
      (equals : mark.terminal = .literal "=") :
      IsImport (.node .importStatement
        (.leaf word :: .node .importRequire (.leaf k :: .leaf mark :: inside) :: rest))

end Tree

namespace Dialect

open Rule Construct

variable (d : Dialect)

theorem exportName_tree (ts : List Tree) (derives : d.grammar.Derives (.construct exportName) ts) :
    ∃ k : Token, ts = [.node exportName [.leaf k]] ∧
      (k.terminal = .name ∨ k.terminal = .string) := by
  have defined : d.grammar.rule? exportName = some (oneOf [Terminal.name, Terminal.string]) :=
    (d.rule?_grammar _).trans (by cases d <;> rfl)
  rw [Grammar.derives_construct _ _ _ defined (by cases d <;> decide)] at derives
  obtain ⟨parts, inside, rfl⟩ := derives
  simp only [oneOf, Grammar.derives_choice, Grammar.derives_terminal] at inside
  rcases inside with ⟨k, is_name, rfl⟩ | ⟨k, is_string, rfl⟩
  · exact ⟨k, rfl, .inl is_name⟩
  · exact ⟨k, rfl, .inr is_string⟩

/-- The rule for a name that an import binds. -/
def bindingRule : Rule := if d.hasTypes then .construct importName else .terminal .name

theorem binding_tree (ts : List Tree) (derives : d.grammar.Derives d.bindingRule ts) :
    ∃ b, ts = [b] ∧ b.IsBinding := by
  have plain (ts : List Tree) (derives : d.grammar.Derives (.terminal .name) ts) :
      ∃ b, ts = [b] ∧ b.IsBinding := by
    obtain ⟨k, name, rfl⟩ := (Grammar.derives_terminal _ _ _).1 derives
    exact ⟨_, rfl, .plain k name⟩
  have wrapped (defined : d.grammar.rule? importName = some (oneOf [Terminal.name, "type"]))
      (ts : List Tree) (derives : d.grammar.Derives (.construct importName) ts) :
      ∃ b, ts = [b] ∧ b.IsBinding := by
    rw [Grammar.derives_construct _ _ _ defined (by cases d <;> decide)] at derives
    obtain ⟨parts, inside, rfl⟩ := derives
    simp only [oneOf, Grammar.derives_choice, Grammar.derives_terminal] at inside
    rcases inside with ⟨k, name, rfl⟩ | ⟨k, word, rfl⟩
    · exact ⟨_, rfl, .wrapped k (.inl name)⟩
    · exact ⟨_, rfl, .wrapped k (.inr word)⟩
  cases d with
  | plain => exact plain ts derives
  | typed => exact wrapped (rule?_grammar _ _) ts derives
  | typedMarkup => exact wrapped (rule?_grammar _ _) ts derives

theorem rule?_importSpecifier : d.grammar.rule? importSpecifier = some
    (if d.hasTypes then
      seq [optional (oneOf ["type", "typeof"]),
        oneOf [d.bindingRule, seq [oneOf [exportName, "type"], "as", d.bindingRule]]]
    else oneOf [d.bindingRule, seq [exportName, "as", d.bindingRule]]) :=
  (d.rule?_grammar _).trans (by cases d <;> rfl)

theorem specifier_tree (ts : List Tree)
    (derives : d.grammar.Derives (.construct importSpecifier) ts) :
    ∃ t, ts = [t] ∧ t.IsSpecifier := by
  rw [Grammar.derives_construct _ _ _ d.rule?_importSpecifier (by cases d <;> decide)] at derives
  obtain ⟨parts, inside, rfl⟩ := derives
  refine ⟨_, rfl, ?_⟩
  have renamed (front back : List Tree) (source : d.grammar.Derives (.construct exportName) front)
      (rest : d.grammar.Derives (seq ["as", d.bindingRule]) back) :
      Tree.IsSpecifier (.node importSpecifier (front ++ back)) := by
    obtain ⟨k, rfl, kinds⟩ := d.exportName_tree front source
    simp only [seq, Grammar.derives_sequence, Grammar.derives_terminal] at rest
    obtain ⟨_, _, ⟨as, mark, rfl⟩, last, rfl⟩ := rest
    obtain ⟨b, rfl, binding⟩ := d.binding_tree _ last
    exact .renamed k as b kinds mark binding
  by_cases types : d.hasTypes = true
  · rw [if_pos types] at inside
    obtain ⟨front, back, marked, rest, rfl⟩ := (Grammar.derives_sequence _ _ _ _).1 inside
    rw [Grammar.derives_optional] at marked
    simp only [seq, oneOf, Grammar.derives_choice, Grammar.derives_terminal] at marked rest
    rcases marked with (⟨k, word, rfl⟩ | ⟨k, word, rfl⟩) | rfl
    · exact .ofType k (.inl word) back
    · exact .ofType k (.inr word) back
    rcases rest with bound | rest
    · obtain ⟨b, rfl, binding⟩ := d.binding_tree _ bound
      exact .alone b binding
    · obtain ⟨front, back, source, last, rfl⟩ := (Grammar.derives_sequence _ _ _ _).1 rest
      simp only [Grammar.derives_choice, Grammar.derives_terminal] at source
      rcases source with source | ⟨k, word, rfl⟩
      · exact renamed front back source last
      · exact .ofType k (.inl word) back
  · rw [if_neg types] at inside
    simp only [oneOf, Grammar.derives_choice] at inside
    rcases inside with bound | rest
    · obtain ⟨b, rfl, binding⟩ := d.binding_tree _ bound
      exact .alone b binding
    · obtain ⟨front, back, source, last, rfl⟩ := (Grammar.derives_sequence _ _ _ _).1 rest
      exact renamed front back source last

theorem specifiers_tree (ts : List Tree)
    (derives : d.grammar.Derives (Rule.list (.construct importSpecifier)) ts) :
    ∃ specifiers : List Tree, (∀ t ∈ specifiers, t.IsSpecifier) ∧
      Tree.lexemesOf ts = [.mark ','].intercalate (specifiers.map Tree.lexemes) ∧
      ∀ others, (Tree.ungroupAll ts others).filter (·.isNode importSpecifier) =
        specifiers ++ others.filter (·.isNode importSpecifier) := by
  rw [Rule.list, Grammar.derives_optional] at derives
  rcases derives with derives | rfl
  · obtain ⟨first, more, head, tail, ungrouped⟩ :=
      Grammar.derives_listed (by cases d <;> decide) derives
    have single (t : Tree) (derives : d.grammar.Derives (.construct importSpecifier) [t]) :
        t.IsSpecifier := by
      obtain ⟨u, same, specifier⟩ := d.specifier_tree [t] derives
      obtain rfl := (List.cons.inj same).1
      exact specifier
    have node (t : Tree) (derives : d.grammar.Derives (.construct importSpecifier) [t]) :
        t.isNode importSpecifier = true := by
      obtain ⟨parts, rfl⟩ := (single t derives).exists_parts
      simp
    refine ⟨first :: more.map (·.2), ?_, ?_, ?_⟩
    · intro t member
      rcases List.mem_cons.1 member with rfl | later
      · exact single t head
      · obtain ⟨p, listed, rfl⟩ := List.mem_map.1 later
        exact single p.2 (tail p listed).2
    · have listed := Tree.lexemesOf_ungroupAll ts []
      rw [ungrouped, Tree.lexemesOf, Tree.lexemesOf, List.append_nil, List.append_nil,
        Tree.lexemesOf_afterCommas more fun p member => (tail p member).1] at listed
      rw [List.map_cons, Lexeme.intercalate_commas, ← listed, List.flatMap_map, List.flatMap_map]
    · intro others
      rw [ungrouped, List.filter_cons_of_pos (node first head), List.filter_append,
        Tree.filter_afterCommas _ _ fun p member => node p.2 (tail p member).2]
      rfl
  · exact ⟨[], by simp, rfl, fun others => rfl⟩

theorem rule?_namedImports : d.grammar.rule? namedImports =
    some (seq [openBrace, Rule.list importSpecifier, Rule.optional ",", closeBrace]) :=
  (d.rule?_grammar _).trans (by cases d <;> rfl)

theorem namedImports_tree (ts : List Tree)
    (derives : d.grammar.Derives (.construct namedImports) ts) :
    ∃ t specifiers, ts = [t] ∧ t.Lists specifiers := by
  rw [Grammar.derives_construct _ _ _ d.rule?_namedImports (by cases d <;> decide)] at derives
  obtain ⟨parts, inside, rfl⟩ := derives
  simp only [seq, Grammar.derives_sequence, Grammar.derives_optional, openBrace, closeBrace,
    Grammar.derives_terminal] at inside
  obtain ⟨_, _, ⟨front, opens, rfl⟩, ⟨listed, _, list, ⟨comma, _, commas, ⟨back, closes, rfl⟩, rfl⟩,
    rfl⟩, rfl⟩ := inside
  obtain ⟨specifiers, each, lexemes, filtered⟩ := d.specifiers_tree listed list
  refine ⟨_, specifiers, rfl, ⟨_, rfl⟩, each, ?_, ?_⟩
  · rcases commas with ⟨k, mark, rfl⟩ | rfl
    · simp [Tree.parts, Tree.ungroupAll_append, Tree.ungroupAll, Tree.ungroup, filtered]
    · simp [Tree.parts, Tree.ungroupAll_append, Tree.ungroupAll, Tree.ungroup, filtered]
  · have opening := front.lexemes_literal "\x7b" (.mark '{') opens rfl
    have closing := back.lexemes_literal "\x7d" (.mark '}') closes rfl
    refine ⟨Tree.lexemesOf comma, ?_, ?_⟩
    · rcases commas with ⟨k, mark, rfl⟩ | rfl
      · have marked := k.lexemes_literal "," (.mark ',') mark rfl
        exact .inr (by simp [Tree.lexemesOf, Tree.lexemes, marked])
      · exact .inl rfl
    · simp [Tree.lexemes, Tree.lexemesOf, Tree.lexemesOf_append, lexemes, opening, closing]

theorem namespaceImport_tree (ts : List Tree)
    (derives : d.grammar.Derives (.construct namespaceImport) ts) :
    ∃ w, ts = [w] ∧ w.IsWhole := by
  have defined : d.grammar.rule? namespaceImport = some (seq ["*", "as", Terminal.name]) :=
    (d.rule?_grammar _).trans (by cases d <;> rfl)
  rw [Grammar.derives_construct _ _ _ defined (by cases d <;> decide)] at derives
  obtain ⟨parts, inside, rfl⟩ := derives
  simp only [seq, Grammar.derives_sequence, Grammar.derives_terminal] at inside
  obtain ⟨_, _, ⟨star, mark, rfl⟩, ⟨_, _, ⟨as, word, rfl⟩, ⟨k, name, rfl⟩, rfl⟩, rfl⟩ := inside
  exact ⟨_, rfl, .intro star as k mark word name⟩

theorem fromClause_tree (ts : List Tree)
    (derives : d.grammar.Derives (.construct fromClause) ts) :
    ∃ mark path : Token, ts = [.node fromClause [.leaf mark, .leaf path]] ∧
      mark.terminal = .literal "from" ∧ path.terminal = .string := by
  have defined : d.grammar.rule? fromClause = some (seq ["from", Terminal.string]) :=
    (d.rule?_grammar _).trans (by cases d <;> rfl)
  rw [Grammar.derives_construct _ _ _ defined (by cases d <;> decide)] at derives
  obtain ⟨parts, inside, rfl⟩ := derives
  simp only [seq, Grammar.derives_sequence, Grammar.derives_terminal] at inside
  obtain ⟨_, _, ⟨mark, marks, rfl⟩, ⟨path, string, rfl⟩, rfl⟩ := inside
  exact ⟨mark, path, rfl, marks, string⟩

theorem rule?_importClause : d.grammar.rule? importClause =
    some (oneOf [namespaceImport, namedImports,
      seq [d.bindingRule, Rule.optional (seq [",", oneOf [namespaceImport, namedImports]])]]) :=
  (d.rule?_grammar _).trans (by cases d <;> rfl)

theorem importClause_tree (ts : List Tree)
    (derives : d.grammar.Derives (.construct importClause) ts) :
    ∃ t, ts = [t] ∧ t.IsClause := by
  rw [Grammar.derives_construct _ _ _ d.rule?_importClause (by cases d <;> decide)] at derives
  obtain ⟨parts, inside, rfl⟩ := derives
  refine ⟨_, rfl, ?_⟩
  simp only [seq, oneOf, Grammar.derives_choice, Grammar.derives_sequence,
    Grammar.derives_optional, Grammar.derives_terminal] at inside
  rcases inside with whole | named | ⟨_, _, bound, (⟨_, _, ⟨comma, mark, rfl⟩, rest, rfl⟩ | rfl), rfl⟩
  · obtain ⟨w, rfl, inside⟩ := d.namespaceImport_tree _ whole
    exact .whole w inside
  · obtain ⟨t, specifiers, rfl, lists⟩ := d.namedImports_tree _ named
    exact .named t specifiers lists
  · obtain ⟨b, rfl, binding⟩ := d.binding_tree _ bound
    rcases rest with whole | named
    · obtain ⟨w, rfl, inside⟩ := d.namespaceImport_tree _ whole
      exact .mainAndWhole b w comma binding mark inside
    · obtain ⟨t, specifiers, rfl, lists⟩ := d.namedImports_tree _ named
      exact .mainAndNamed b t comma specifiers binding mark lists
  · obtain ⟨b, rfl, binding⟩ := d.binding_tree _ bound
    exact .main b binding

theorem importAttribute_tree (ts : List Tree)
    (derives : d.grammar.Derives (.construct importAttribute) ts) :
    ∃ (word : Token) (more : List Tree), ts = [.node importAttribute (.leaf word :: more)] ∧
      (word.terminal = .literal "with" ∨ word.terminal = .literal "assert") := by
  have defined : d.grammar.rule? importAttribute =
      some (seq [if d.hasTypes then oneOf ["with", "assert"] else "with", object]) :=
    (d.rule?_grammar _).trans (by cases d <;> rfl)
  rw [Grammar.derives_construct _ _ _ defined (by cases d <;> decide)] at derives
  obtain ⟨parts, inside, rfl⟩ := derives
  obtain ⟨front, more, first, -, rfl⟩ := (Grammar.derives_sequence _ _ _ _).1 inside
  by_cases types : d.hasTypes = true
  · rw [if_pos types] at first
    simp only [oneOf, Grammar.derives_choice, Grammar.derives_terminal] at first
    rcases first with ⟨word, starts, rfl⟩ | ⟨word, starts, rfl⟩
    · exact ⟨word, more, rfl, .inl starts⟩
    · exact ⟨word, more, rfl, .inr starts⟩
  · rw [if_neg types, Grammar.derives_terminal] at first
    obtain ⟨word, starts, rfl⟩ := first
    exact ⟨word, more, rfl, .inl starts⟩

theorem statementEnd_tree (ts : List Tree)
    (derives : d.grammar.Derives (.construct statementEnd) ts) :
    ∃ k : Token, ts = [.leaf k] ∧ (k.terminal = .lineEnd ∨ k.terminal = .literal ";") := by
  have defined : d.grammar.rule? statementEnd = some (oneOf [Terminal.lineEnd, ";"]) :=
    (d.rule?_grammar _).trans (by cases d <;> rfl)
  rw [Grammar.derives_inlined _ _ _ defined (by cases d <;> decide)] at derives
  simp only [oneOf, Grammar.derives_choice, Grammar.derives_terminal] at derives
  rcases derives with ⟨k, ends, rfl⟩ | ⟨k, mark, rfl⟩
  · exact ⟨k, rfl, .inl ends⟩
  · exact ⟨k, rfl, .inr mark⟩

theorem ending_tree (ts : List Tree)
    (derives : d.grammar.Derives (seq [Rule.optional importAttribute, statementEnd]) ts) :
    Tree.IsEnding ts := by
  obtain ⟨front, back, before, last, rfl⟩ := (Grammar.derives_sequence _ _ _ _).1 derives
  obtain ⟨k, rfl, -⟩ := d.statementEnd_tree back last
  rcases (Grammar.derives_optional _ _ _).1 before with given | rfl
  · obtain ⟨word, more, rfl, starts⟩ := d.importAttribute_tree _ given
    exact .afterAttribute word k more starts
  · exact .alone k

theorem importRequire_tree (types : d.hasTypes = true) (ts : List Tree)
    (derives : d.grammar.Derives (.construct importRequire) ts) :
    ∃ (k mark : Token) (inside : List Tree),
      ts = [.node importRequire (.leaf k :: .leaf mark :: inside)] ∧
        k.terminal = .name ∧ mark.terminal = .literal "=" := by
  have defined : d.grammar.rule? importRequire =
      some (seq [Terminal.name, "=", "require", "(", Terminal.string, ")"]) := by
    rw [rule?_grammar]
    cases d with
    | plain => contradiction
    | typed => rfl
    | typedMarkup => rfl
  rw [Grammar.derives_construct _ _ _ defined (by cases d <;> decide)] at derives
  obtain ⟨parts, inside, rfl⟩ := derives
  obtain ⟨_, _, first, rest, rfl⟩ := (Grammar.derives_sequence _ _ _ _).1 inside
  obtain ⟨_, others, second, -, rfl⟩ := (Grammar.derives_sequence _ _ _ _).1 rest
  obtain ⟨k, name, rfl⟩ := (Grammar.derives_terminal _ _ _).1 first
  obtain ⟨mark, equals, rfl⟩ := (Grammar.derives_terminal _ _ _).1 second
  exact ⟨k, mark, others, rfl, name, equals⟩

theorem rule?_importStatement : d.grammar.rule? importStatement = some
    (if d.hasTypes then
      seq ["import", Rule.optional (oneOf ["type", "typeof"]),
        oneOf [seq [importClause, fromClause], importRequire, Terminal.string],
        Rule.optional importAttribute, statementEnd]
    else
      seq ["import", oneOf [seq [importClause, fromClause], Terminal.string],
        Rule.optional importAttribute, statementEnd]) :=
  (d.rule?_grammar _).trans (by cases d <;> rfl)

theorem importStatement_tree (t : Tree)
    (derives : d.grammar.Derives (.construct importStatement) [t]) : t.IsImport := by
  rw [Grammar.derives_construct _ _ _ d.rule?_importStatement (by cases d <;> decide)] at derives
  obtain ⟨parts, inside, same⟩ := derives
  obtain rfl : t = .node importStatement parts := by simpa using same
  have clause (word : Token) (front rest : List Tree) (starts : word.terminal = .literal "import")
      (binds : d.grammar.Derives (seq [importClause, fromClause]) front)
      (ends : Tree.IsEnding rest) :
      Tree.IsImport (.node importStatement (.leaf word :: (front ++ rest))) := by
    obtain ⟨_, _, bound, source, rfl⟩ := (Grammar.derives_sequence _ _ _ _).1 binds
    obtain ⟨clause, rfl, shape⟩ := d.importClause_tree _ bound
    obtain ⟨mark, path, rfl, marks, string⟩ := d.fromClause_tree _ source
    exact .clause word mark path clause rest starts shape marks string ends
  by_cases types : d.hasTypes = true
  · rw [if_pos types] at inside
    obtain ⟨_, _, first, after, rfl⟩ := (Grammar.derives_sequence _ _ _ _).1 inside
    obtain ⟨word, starts, rfl⟩ := (Grammar.derives_terminal _ _ _).1 first
    obtain ⟨_, _, marked, others, rfl⟩ := (Grammar.derives_sequence _ _ _ _).1 after
    obtain ⟨front, rest, body, ends, rfl⟩ := (Grammar.derives_sequence _ _ _ _).1 others
    simp only [Grammar.derives_optional, oneOf, Grammar.derives_choice,
      Grammar.derives_terminal] at marked body
    rcases marked with (⟨k, type, rfl⟩ | ⟨k, type, rfl⟩) | rfl
    · exact .ofType word k _ starts (.inl type)
    · exact .ofType word k _ starts (.inr type)
    rcases body with binds | require | ⟨path, string, rfl⟩
    · exact clause word front rest starts binds (d.ending_tree rest ends)
    · obtain ⟨k, mark, inner, rfl, name, equals⟩ := d.importRequire_tree types _ require
      exact .require word k mark inner rest starts name equals
    · exact .bare word path rest starts string (d.ending_tree rest ends)
  · rw [if_neg types] at inside
    obtain ⟨_, _, first, after, rfl⟩ := (Grammar.derives_sequence _ _ _ _).1 inside
    obtain ⟨word, starts, rfl⟩ := (Grammar.derives_terminal _ _ _).1 first
    obtain ⟨front, rest, body, ends, rfl⟩ := (Grammar.derives_sequence _ _ _ _).1 after
    simp only [oneOf, Grammar.derives_choice, Grammar.derives_terminal] at body
    rcases body with binds | ⟨path, string, rfl⟩
    · exact clause word front rest starts binds (d.ending_tree rest ends)
    · exact .bare word path rest starts string (d.ending_tree rest ends)

end Dialect

end ImportUsage
