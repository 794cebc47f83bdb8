import ImportUsage.Proofs.Source.WrittenTree

/-! Every written declaration has a tree in the grammar of typed text, as a statement that
declares. -/

namespace ImportUsage

namespace Tree

def braces : List Tree := [literal "\x7b", literal "\x7d"]

/-- A variable with a value. -/
def declarator (n : String) : Tree :=
  .node .variableDeclarator [named n, .node .initializer [literal "=", zero]]

end Tree

namespace DeclaringForm

open ImportUsage.Tree

/-- The tree of a declaration of one name. -/
def namedTree (n : String) : (kind : Declaration.Kind) → kind ≠ .variableBinding → Tree
  | .function, _ =>
    .node .functionDeclaration [literal "function", Tree.named n,
      .node .callSignature [.node .parameters [literal "(", literal ")"]], .node .block braces]
  | .classType, _ =>
    .node .classDeclaration [literal "class", Tree.named n, .node .classBody braces]
  | .interface, _ =>
    .node .interfaceDeclaration
      [literal "interface", Tree.named n, .node .interfaceBody [.node .objectType braces]]
  | .typeAlias, _ =>
    .node .typeAliasDeclaration [literal "type", Tree.named n, literal "=",
      .node .type [.node .primaryType [.node .predefinedType [literal "number"]]], literal ";"]
  | .enumType, _ => .node .enumDeclaration [literal "enum", Tree.named n, .node .enumBody braces]
  | .namespaceBlock, _ =>
    .node .namespaceDeclaration
      [literal "namespace", .node .moduleBody [Tree.named n, .node .block braces]]
  | .variableBinding, single => absurd rfl single

/-- The tree of a declaration of variables. -/
def bindingsTree (word : BindingWord) (names : List String) : Tree :=
  .node (if word = .hoisted then .variableDeclaration else .lexicalDeclaration)
    (literal word.text :: (separated (names.map declarator) ++ [literal ";"]))

def tree : DeclaringForm → Tree
  | named kind single n => .node .declaration [namedTree n kind single]
  | bindings word first more => .node .declaration [bindingsTree word (first :: more)]

end DeclaringForm

def DeclaringStatement.tree (s : DeclaringStatement) : Tree :=
  .node .statement
    [if s.exported then .node .exportStatement [.literal "export", s.form.tree] else s.form.tree]

namespace Dialect

open Rule Construct ImportUsage.Tree

variable {d : Dialect}

theorem derives_typed (types : d.hasTypes = true) {c : Construct} {r : Rule} {parts : List Tree}
    (given : ∀ markedUp, ((changes.withTypes markedUp).find? (·.construct = c)).or
      (Grammar.Plain.definitions.find? (·.construct = c)) = some ⟨c, r⟩)
    (kept : c ∉ Grammar.Typed.inlined) (inside : d.grammar.Derives r parts) :
    d.grammar.Derives (.construct c) [.node c parts] :=
  .construct (rule?_typed types given) (kept_typed types kept) inside

theorem derives_typeName (types : d.hasTypes = true) (n : String) :
    d.grammar.Derives (.construct typeName) [named n] := by
  have given : typeName ∈ d.grammar.inlined := by
    cases d with
    | plain => contradiction
    | typed => decide
    | typedMarkup => decide
  exact .inlined (rule?_typed types fun _ => rfl) given (d.grammar.derives_spelled _ n)

theorem derives_block (types : d.hasTypes = true) :
    d.grammar.Derives (.construct block) [.node block braces] := by
  have token := d.grammar.derives_spelled
  exact derives_typed types (fun _ => rfl) (by decide) (.ranked (.sequence (token _ "\x7b")
    (Grammar.derives_without (.sequence (token _ "\x7d") (.right .blank)))))

theorem derives_declarator (types : d.hasTypes = true) (n : String) :
    d.grammar.Derives (.construct variableDeclarator) [declarator n] := by
  have token := d.grammar.derives_spelled
  have given : d.grammar.Derives (.construct initializer)
      [.node initializer [literal "=", zero]] :=
    derives_typed types (fun _ => rfl) (by decide) (.sequence (token _ "=") d.derives_zero)
  exact derives_typed types (fun _ => rfl) (by decide)
    (.left (.sequence (.left (token _ n)) (Grammar.derives_without (.left given))))

theorem derives_bindings (types : d.hasTypes = true) (word : BindingWord) (first : String)
    (more : List String) : d.grammar.Derives (.choice lexicalDeclaration variableDeclaration)
      [DeclaringForm.bindingsTree word (first :: more)] := by
  have token := d.grammar.derives_spelled
  have bound : d.grammar.Derives (listed variableDeclarator)
      (separated ((first :: more).map declarator)) := by
    apply Grammar.derives_separated
    intro t member
    obtain ⟨n, -, rfl⟩ := List.mem_map.mp (List.map_cons .. ▸ member)
    exact derives_declarator types n
  have lexical (word : String) (given : d.grammar.Derives (oneOf ["let", "const"]) [literal word]) :
      d.grammar.Derives (.construct lexicalDeclaration) [.node lexicalDeclaration
        (literal word :: (separated ((first :: more).map declarator) ++ [literal ";"]))] :=
    derives_typed types (fun _ => rfl) (by decide)
      (.sequence given (.sequence bound d.derives_statementEnd))
  have hoisted : d.grammar.Derives (.construct variableDeclaration) [.node variableDeclaration
      (literal "var" :: (separated ((first :: more).map declarator) ++ [literal ";"]))] :=
    derives_typed types (fun _ => rfl) (by decide)
      (.sequence (token _ "var") (.sequence bound d.derives_statementEnd))
  cases word with
  | fixed => exact .left (lexical "const" (.right (token _ "const")))
  | assignable => exact .left (lexical "let" (.left (token _ "let")))
  | hoisted => exact .right hoisted

theorem derives_empty (q : Rule) :
    d.grammar.Derives (seq [openBrace, Rule.optional q, closeBrace]) braces :=
  .sequence (d.grammar.derives_spelled _ "\x7b")
    (Grammar.derives_without (d.grammar.derives_spelled _ "\x7d"))

theorem derives_function (types : d.hasTypes = true) (n : String) :
    d.grammar.Derives (.construct functionDeclaration)
      [DeclaringForm.namedTree n .function (by decide)] := by
  have token := d.grammar.derives_spelled
  have parameters : d.grammar.Derives (.construct parameters) _ :=
    derives_typed types (fun _ => rfl) (by decide)
      (.sequence (token _ "(") (Grammar.derives_without (token _ ")")))
  have signature : d.grammar.Derives (.construct callSignature) _ :=
    derives_typed types (fun _ => rfl) (by decide)
      (Grammar.derives_without (.sequence parameters (.right .blank)))
  exact derives_typed types (fun _ => rfl) (by decide) (.ranked (Grammar.derives_without
    (.sequence (token _ "function") (.sequence (token _ n)
      (.sequence signature (.sequence (derives_block types) (.right .blank)))))))

theorem derives_class (types : d.hasTypes = true) (n : String) :
    d.grammar.Derives (.construct classDeclaration)
      [DeclaringForm.namedTree n .classType (by decide)] := by
  have body : d.grammar.Derives (.construct classBody) _ :=
    derives_typed types (fun _ => rfl) (by decide) (derives_empty _)
  exact derives_typed types (fun _ => rfl) (by decide) (.ranked (Grammar.derives_without
    (.sequence (d.grammar.derives_spelled _ "class") (.sequence (derives_typeName types n)
      (Grammar.derives_without (Grammar.derives_without (.sequence body (.right .blank))))))))

theorem derives_interface (types : d.hasTypes = true) (n : String) :
    d.grammar.Derives (.construct interfaceDeclaration)
      [DeclaringForm.namedTree n .interface (by decide)] := by
  have token := d.grammar.derives_spelled
  have members : d.grammar.Derives (.construct objectType) _ :=
    derives_typed types (fun _ => rfl) (by decide) (.sequence (.left (token _ "\x7b"))
      (Grammar.derives_without (.left (token _ "\x7d"))))
  have body : d.grammar.Derives (.construct interfaceBody) _ :=
    derives_typed types (fun _ => rfl) (by decide) members
  exact derives_typed types (fun _ => rfl) (by decide)
    (.sequence (token _ "interface") (.sequence (derives_typeName types n)
      (Grammar.derives_without (Grammar.derives_without body))))

theorem derives_typeAlias (types : d.hasTypes = true) (n : String) :
    d.grammar.Derives (.construct typeAliasDeclaration)
      [DeclaringForm.namedTree n .typeAlias (by decide)] := by
  have token := d.grammar.derives_spelled
  have number : d.grammar.Derives (.construct predefinedType) _ :=
    derives_typed types (fun _ => rfl) (by decide)
      (Grammar.derives_oneOf (.tail _ (.head _)) (token _ "number"))
  have primary : d.grammar.Derives (.construct primaryType) _ :=
    derives_typed types (fun _ => rfl) (by decide)
      (Grammar.derives_oneOf (.tail _ (.head _)) number)
  have value : d.grammar.Derives (.construct type) _ :=
    derives_typed types (fun _ => rfl) (by decide) (.left primary)
  exact derives_typed types (fun _ => rfl) (by decide)
    (.sequence (token _ "type") (.sequence (derives_typeName types n) (Grammar.derives_without
      (.sequence (token _ "=") (.sequence value d.derives_statementEnd)))))

theorem derives_enum (types : d.hasTypes = true) (n : String) :
    d.grammar.Derives (.construct enumDeclaration)
      [DeclaringForm.namedTree n .enumType (by decide)] := by
  have token := d.grammar.derives_spelled
  have body : d.grammar.Derives (.construct enumBody) _ :=
    derives_typed types (fun _ => rfl) (by decide) (derives_empty _)
  exact derives_typed types (fun _ => rfl) (by decide)
    (Grammar.derives_without (.sequence (token _ "enum") (.sequence (token _ n) body)))

theorem derives_namespace (types : d.hasTypes = true) (n : String) :
    d.grammar.Derives (.construct namespaceDeclaration)
      [DeclaringForm.namedTree n .namespaceBlock (by decide)] := by
  have token := d.grammar.derives_spelled
  have body : d.grammar.Derives (.construct moduleBody) _ :=
    derives_typed types (fun _ => rfl) (by decide)
      (.ranked (.sequence (.right (.left (token _ n))) (.left (derives_block types))))
  exact derives_typed types (fun _ => rfl) (by decide) (.sequence (token _ "namespace") body)

theorem derives_form (types : d.hasTypes = true) (f : DeclaringForm) :
    d.grammar.Derives (.construct declaration) [f.tree] := by
  cases f with
  | named kind single n =>
    apply derives_typed types (fun _ => rfl) (by decide)
    cases kind with
    | function => exact Grammar.derives_oneOf (by simp) (derives_function types n)
    | classType => exact Grammar.derives_oneOf (by simp) (derives_class types n)
    | interface => exact Grammar.derives_oneOf (by simp) (derives_interface types n)
    | typeAlias => exact Grammar.derives_oneOf (by simp) (derives_typeAlias types n)
    | enumType => exact Grammar.derives_oneOf (by simp) (derives_enum types n)
    | namespaceBlock =>
      have preferred : d.grammar.Derives (tier .declaration namespaceDeclaration) _ :=
        .ranked (derives_namespace types n)
      exact Grammar.derives_oneOf (by simp) preferred
    | variableBinding => contradiction
  | bindings word first more =>
    apply derives_typed types (fun _ => rfl) (by decide)
    rcases (Grammar.derives_choice _ _ _ _).mp (derives_bindings types word first more) with
      lexical | hoisted
    · exact Grammar.derives_oneOf (by simp) lexical
    · exact Grammar.derives_oneOf (by simp) hoisted

theorem derives_exported (types : d.hasTypes = true) (f : DeclaringForm) :
    d.grammar.Derives (.construct exportStatement)
      [.node exportStatement [literal "export", f.tree]] :=
  derives_typed types (fun _ => rfl) (by decide) (.right (.left (Grammar.derives_without
    (.sequence (d.grammar.derives_spelled _ "export") (.left (derives_form types f))))))

theorem derives_declaring (types : d.hasTypes = true) (s : DeclaringStatement) :
    d.grammar.Derives (.construct statement) [s.tree] := by
  obtain ⟨exported, form⟩ := s
  cases exported with
  | false => exact derives_statement (by decide) (derives_form types form)
  | true => exact derives_statement (by decide) (derives_exported types form)

theorem declares_tree (types : d.hasTypes = true) (s : DeclaringStatement) :
    d.Declares s.exported s.tree := by
  obtain ⟨exported, form⟩ := s
  cases exported with
  | false => exact .plain (derives_form types form)
  | true => exact .exported (derives_exported types form)

end Dialect

/-! The tokens of these trees. -/

namespace DeclaringForm

open Token ImportUsage.Tree

theorem spelling_declarator (n : String) :
    spelling (declarator n).tokens = (bindingLexemes n).map some := by
  simp only [declarator, zero, literal, Tree.named, Tree.tokens, tokensOf, List.append_nil,
    List.singleton_append, spelling_named, spelling_spelled, spelling_number]
  rfl

theorem spelling_tree (f : DeclaringForm) : spelling f.tree.tokens = f.lexemes.map some := by
  cases f with
  | named kind single n =>
    cases kind with
    | variableBinding => contradiction
    | _ =>
      simp only [tree, namedTree, Tree.tokens, tokensOf, literal, Tree.named, braces,
        List.append_nil, List.cons_append, List.nil_append, spelling_spelled, spelling_named]
      rfl
  | bindings word first more =>
    have listed := spelling_listed declarator bindingLexemes spelling_declarator (first :: more)
    have keyword : Terminal.lexeme? "" (.literal word.text) = some (.keyword word.text) := by
      cases word <;> rfl
    simp only [tree, bindingsTree, Tree.tokens, tokensOf, tokensOf_append, literal,
      List.append_nil, List.singleton_append, spelling_spelled, spelling_append, listed, keyword]
    simp only [lexemes, List.map_cons, List.map_append]
    rfl

theorem line_tree (f : DeclaringForm) : ∀ k ∈ f.tree.tokens, k.start.line = 0 := by
  cases f with
  | named kind single n =>
    cases kind with
    | variableBinding => contradiction
    | _ =>
      simp [tree, namedTree, Tree.tokens, tokensOf, literal, Tree.named, braces, spelled]
  | bindings word first more =>
    have each : ∀ t ∈ (first :: more).map declarator, ∀ k ∈ t.tokens, k.start.line = 0 := by
      intro t member
      obtain ⟨n, -, rfl⟩ := List.mem_map.mp member
      simp [declarator, zero, Tree.tokens, tokensOf, literal, Tree.named, spelled]
    have listed := line_separated each
    simpa [tree, bindingsTree, Tree.tokens, tokensOf, tokensOf_append, literal, spelled, or_imp,
      forall_and] using listed

end DeclaringForm

theorem DeclaringStatement.spelling_tree (s : DeclaringStatement) :
    Token.spelling s.tree.tokens = s.lexemes.map some := by
  obtain ⟨exported, form⟩ := s
  have inside := form.spelling_tree
  cases exported with
  | false => rwa [tree, Tree.tokens, Tree.tokensOf_singleton]
  | true =>
    have word : Terminal.lexeme? "" (.literal "export") = some (.keyword "export") := rfl
    simp only [tree, if_true, Tree.tokens, Tree.tokensOf, Tree.literal, List.append_nil,
      List.singleton_append, Token.spelling_spelled, word, inside]
    rfl

/-- The tree of a statement that declares has the tokens of the statement. -/
theorem DeclaringStatement.tree_spells (s : DeclaringStatement) : s.tree.Spells 0 s.lexemes := by
  refine ⟨s.spelling_tree, ?_⟩
  obtain ⟨exported, form⟩ := s
  have inside := form.line_tree
  cases exported with
  | false => rwa [tree, Tree.tokens, Tree.tokensOf_singleton]
  | true =>
    simpa [tree, Tree.tokens, Tree.tokensOf, Tree.literal, Token.spelled] using inside

end ImportUsage
