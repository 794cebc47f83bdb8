import ImportUsage.Proofs.Source.StatementTree

/-! Every written statement has a tree in the grammar. -/

namespace ImportUsage

namespace Tree

/-- A string. -/
def quoted (s : String) : Tree := .leaf (.spelled .string ("\x27" ++ s ++ "\x27"))

/-- Parts that repeat, grouped as a grammar groups them. -/
def repeated : List (List Tree) → List Tree
  | [] => []
  | [ts] => [.group ts]
  | ts :: us :: more => [.group (.group ts :: repeated (us :: more))]

/-- Trees with commas between them. -/
def separated : List Tree → List Tree
  | [] => []
  | t :: more => t :: repeated (more.map fun u => [literal ",", u])

theorem tokensOf_repeated (tss : List (List Tree)) :
    tokensOf (repeated tss) = tss.flatMap tokensOf := by
  induction tss with
  | nil => rfl
  | cons ts more ih =>
    cases more with
    | nil => simp [repeated, tokensOf, tokens]
    | cons us more =>
      rw [repeated, tokensOf_singleton, tokens, tokensOf, tokens, ih]
      rfl

theorem line_separated {ts : List Tree} (each : ∀ t ∈ ts, ∀ k ∈ t.tokens, k.start.line = 0) :
    ∀ k ∈ tokensOf (separated ts), k.start.line = 0 := by
  cases ts with
  | nil => simp [separated, tokensOf]
  | cons t more =>
    obtain ⟨here, there⟩ := List.forall_mem_cons.mp each
    intro k member
    rw [separated, tokensOf, tokensOf_repeated, List.flatMap_map, List.mem_append] at member
    rcases member with first | later
    · exact here k first
    · obtain ⟨u, listed, inside⟩ := List.mem_flatMap.mp later
      simp only [tokensOf, tokens, literal, List.append_nil, List.singleton_append,
        List.mem_cons] at inside
      rcases inside with rfl | inside
      · rfl
      · exact there u listed k inside

theorem spelling_separated (first : Tree) (more : List Tree) :
    Token.spelling (tokensOf (separated (first :: more))) =
      Token.spelling first.tokens ++
        more.flatMap fun t => some (.mark ',') :: Token.spelling t.tokens := by
  have comma (t : Tree) : Token.spelling (tokensOf [literal ",", t]) =
      some (.mark ',') :: Token.spelling t.tokens := by
    simp only [tokensOf, tokens, literal, List.append_nil, List.singleton_append]
    exact Token.spelling_literal _ _ "," rfl
  rw [separated, tokensOf, Token.spelling_append, tokensOf_repeated, List.flatMap_map]
  congr 1
  induction more with
  | nil => rfl
  | cons t more ih => rw [List.flatMap_cons, List.flatMap_cons, Token.spelling_append, comma, ih]

theorem spelling_listed {α : Type} (tree : α → Tree) (lexemes : α → List Lexeme)
    (each : ∀ a, Token.spelling (tree a).tokens = (lexemes a).map some) (items : List α) :
    Token.spelling (tokensOf (separated (items.map tree))) =
      ([.mark ','].intercalate (items.map lexemes)).map some := by
  cases items with
  | nil => rfl
  | cons a items =>
    rw [List.map_cons, spelling_separated, List.map_cons, Lexeme.intercalate_commas]
    simp [each, List.flatMap_map, List.map_flatMap]

end Tree

namespace Grammar

open Rule ImportUsage.Tree

variable {g : Grammar}

theorem derives_repetition {r : Rule} {ts : List Tree} {more : List (List Tree)}
    (each : ∀ us ∈ ts :: more, g.Derives r us) :
    g.Derives (.repetition r) (repeated (ts :: more)) := by
  induction more generalizing ts with
  | nil => exact .once (each ts List.mem_cons_self)
  | cons us more ih =>
    obtain ⟨here, there⟩ := List.forall_mem_cons.mp each
    obtain ⟨u, last⟩ : ∃ u, repeated (us :: more) = [u] := by
      cases more <;> exact ⟨_, rfl⟩
    have rest := ih there
    rw [last] at rest
    rw [repeated, last]
    exact .again (.once here) rest

theorem derives_repeated {r : Rule} {tss : List (List Tree)} (each : ∀ ts ∈ tss, g.Derives r ts) :
    g.Derives (many r) (repeated tss) := by
  cases tss with
  | nil => exact .right .blank
  | cons ts more => exact .left (derives_repetition each)

theorem derives_separated {c : Construct} {t : Tree} {more : List Tree}
    (each : ∀ u ∈ t :: more, g.Derives (.construct c) [u]) :
    g.Derives (listed c) (separated (t :: more)) := by
  obtain ⟨here, there⟩ := List.forall_mem_cons.mp each
  refine .sequence here (derives_repeated ?_)
  intro us member
  obtain ⟨u, among, rfl⟩ := List.mem_map.mp member
  exact .sequence (g.derives_spelled _ ",") (there u among)

theorem derives_list {c : Construct} {ts : List Tree}
    (each : ∀ t ∈ ts, g.Derives (.construct c) [t]) : g.Derives (list c) (separated ts) := by
  cases ts with
  | nil => exact .right .blank
  | cons t more => exact .left (derives_separated each)

end Grammar

/-! Imports. -/

namespace Dialect

open Rule Construct ImportUsage.Tree

/-- A name that an import binds. -/
def bindingTree (d : Dialect) (n : String) : Tree :=
  if d.hasTypes then .node importName [named n] else named n

variable (d : Dialect)

theorem derives_binding (n : String) : d.grammar.Derives d.bindingRule [d.bindingTree n] := by
  have name := d.grammar.derives_spelled .name n
  cases d with
  | plain => exact name
  | typed => exact derives_node _ rfl (by decide) (.left name)
  | typedMarkup => exact derives_node _ rfl (by decide) (.left name)

theorem spelling_binding (n : String) :
    Token.spelling (d.bindingTree n).tokens = [some (.name n)] := by
  have tokens : (d.bindingTree n).tokens = [.spelled .name n] := by
    cases d <;> rfl
  rw [tokens, Token.spelling_name _ [] rfl, Token.text_spelled]
  rfl

end Dialect

namespace Specifier

open ImportUsage.Tree

def tree (d : Dialect) : Specifier → Tree
  | ⟨imported, none⟩ => .node .importSpecifier [d.bindingTree imported]
  | ⟨imported, some renamed⟩ =>
    .node .importSpecifier [.node .exportName [named imported], literal "as", d.bindingTree renamed]

def bracedTree (d : Dialect) (specifiers : List Specifier) : Tree :=
  .node .namedImports
    (literal "\x7b" :: (separated (specifiers.map (tree d)) ++ [literal "\x7d"]))

end Specifier

namespace Import

open ImportUsage.Tree

/-- What an import clause is made of. -/
def Kind.clause (d : Dialect) : Kind → List Tree
  | named none specifiers => [Specifier.bracedTree d specifiers]
  | named (some n) specifiers => [d.bindingTree n, literal ",", Specifier.bracedTree d specifiers]
  | main n => [d.bindingTree n]
  | whole n => [.node .namespaceImport [literal "*", literal "as", Tree.named n]]
  | sideEffect => []

/-- What stands between the word `import` and the semicolon. -/
def origin (d : Dialect) (i : Import) : List Tree :=
  if i.kind = .sideEffect then [quoted i.source]
  else [.node .importClause (i.kind.clause d),
    .node .fromClause [literal "from", quoted i.source]]

/-- The tree of an import. -/
def tree (d : Dialect) (i : Import) : Tree :=
  .node .importStatement (literal "import" :: (i.origin d ++ [literal ";"]))

end Import

namespace Dialect

open Rule Construct ImportUsage.Tree

variable (d : Dialect)

theorem derives_specifier (s : Specifier) :
    d.grammar.Derives (.construct importSpecifier) [s.tree d] := by
  obtain ⟨imported, renamed⟩ := s
  have kept : importSpecifier ∉ d.grammar.inlined := by
    cases d <;> decide
  cases renamed with
  | none =>
    refine .construct d.rule?_importSpecifier kept ?_
    have bound := d.derives_binding imported
    split
    · exact .sequence (.right .blank) (.left bound)
    · exact .left bound
  | some renamed =>
    refine .construct d.rule?_importSpecifier kept ?_
    have bound := d.derives_binding renamed
    have source : d.grammar.Derives (.construct exportName) [.node exportName [named imported]] := by
      have name := d.grammar.derives_spelled .name imported
      cases d <;> exact derives_node _ rfl (by decide) (.left name)
    have word := d.grammar.derives_spelled (.literal "as") "as"
    split
    · exact .sequence (.right .blank) (.right (.sequence (.left source) (.sequence word bound)))
    · exact .right (.sequence source (.sequence word bound))

theorem derives_braced (specifiers : List Specifier) :
    d.grammar.Derives (.construct namedImports) [Specifier.bracedTree d specifiers] := by
  refine .construct d.rule?_namedImports (by cases d <;> decide) ?_
  have listed : d.grammar.Derives (list importSpecifier)
      (separated (specifiers.map (Specifier.tree d))) := by
    apply Grammar.derives_list
    intro t member
    obtain ⟨s, -, rfl⟩ := List.mem_map.mp member
    exact d.derives_specifier s
  exact .sequence (d.grammar.derives_spelled _ "\x7b")
    (.sequence listed (.sequence (.right .blank) (d.grammar.derives_spelled _ "\x7d")))

theorem derives_clause (kind : Import.Kind) (binds : kind ≠ .sideEffect) :
    d.grammar.Derives (.construct importClause) [.node importClause (kind.clause d)] := by
  refine .construct d.rule?_importClause (by cases d <;> decide) ?_
  cases kind with
  | named n specifiers =>
    have braced := d.derives_braced specifiers
    cases n with
    | none => exact .right (.left braced)
    | some n =>
      exact .right (.right (.sequence (d.derives_binding n)
        (.left (.sequence (d.grammar.derives_spelled _ ",") (.right braced)))))
  | main n => exact .right (.right (.sequence (d.derives_binding n) (.right .blank)))
  | whole n =>
    have token := d.grammar.derives_spelled
    have space : d.grammar.Derives (.construct namespaceImport)
        [.node namespaceImport [literal "*", literal "as", named n]] := by
      cases d <;> exact derives_node _ rfl (by decide)
        (.sequence (token _ "*") (.sequence (token _ "as") (token _ n)))
    exact .left space
  | sideEffect => contradiction

theorem derives_statementEnd : d.grammar.Derives (.construct statementEnd) [literal ";"] := by
  have mark := d.grammar.derives_spelled (.literal ";") ";"
  cases d <;> exact .inlined (rule?_grammar _ _) (by decide) (.right mark)

theorem derives_origin {i : Import} (binds : i.kind ≠ .sideEffect) :
    d.grammar.Derives (seq [importClause, fromClause]) (i.origin d) := by
  have token := d.grammar.derives_spelled
  have source : d.grammar.Derives (.construct fromClause)
      [.node fromClause [literal "from", quoted i.source]] := by
    cases d <;> exact derives_node _ rfl (by decide) (.sequence (token _ "from") (token _ _))
  rw [Import.origin, if_neg binds]
  exact .sequence (d.derives_clause i.kind binds) source

theorem derives_import (i : Import) :
    d.grammar.Derives (.construct importStatement) [i.tree d] := by
  have word := d.grammar.derives_spelled (.literal "import") "import"
  have ended {r : Rule} (given : d.grammar.Derives r (i.origin d)) : d.grammar.Derives
      (seq [r, Rule.optional importAttribute, statementEnd]) (i.origin d ++ [literal ";"]) :=
    .sequence given (Grammar.derives_without d.derives_statementEnd)
  refine .construct d.rule?_importStatement (by cases d <;> decide) ?_
  by_cases only : i.kind = .sideEffect
  · have bare : d.grammar.Derives (.terminal .string) (i.origin d) := by
      rw [Import.origin, if_pos only]
      exact d.grammar.derives_spelled _ _
    split
    · exact .sequence word (Grammar.derives_without (ended (.right (.right bare))))
    · exact .sequence word (ended (.right bare))
  · have bound := d.derives_origin only
    split
    · exact .sequence word (Grammar.derives_without (ended (.left bound)))
    · exact .sequence word (ended (.left bound))

end Dialect

/-! The tokens of these trees. -/

namespace Token

theorem spelling_spelled (s : String) (ks : List Token) :
    spelling (.spelled (.literal s) s :: ks) = Terminal.lexeme? "" (.literal s) :: spelling ks :=
  spelling_literal _ ks s rfl

theorem spelling_named (n : String) (ks : List Token) :
    spelling (.spelled .name n :: ks) = some (.name n) :: spelling ks := by
  rw [spelling_name _ ks rfl, text_spelled]

theorem spelling_number (s : String) (ks : List Token) :
    spelling (.spelled .number s :: ks) = some .number :: spelling ks :=
  spelling_cons _ ks (by simp [spelled])

theorem spelling_quoted (s : String) (ks : List Token) :
    spelling (.spelled .string ("\x27" ++ s ++ "\x27") :: ks) = some (.string s) :: spelling ks := by
  rw [spelling_cons _ ks (by simp [spelled]), text_spelled]
  simp [spelled, Terminal.lexeme?, Terminal.lexeme]

end Token

namespace Dialect

open Rule Construct ImportUsage.Tree Token

variable (d : Dialect)

theorem spelling_specifier (s : Specifier) : spelling (s.tree d).tokens = s.lexemes.map some := by
  obtain ⟨imported, renamed⟩ := s
  cases renamed with
  | none =>
    rw [Specifier.tree, Tree.tokens, tokensOf_singleton]
    exact d.spelling_binding imported
  | some renamed =>
    simp only [Specifier.tree, Tree.tokens, tokensOf, named, literal, List.append_nil,
      List.singleton_append, spelling_named, spelling_spelled, spelling_binding]
    rfl

theorem spelling_braced (specifiers : List Specifier) :
    spelling (Specifier.bracedTree d specifiers).tokens =
      (Specifier.bracedLexemes specifiers).map some := by
  have listed := spelling_listed (Specifier.tree d) Specifier.lexemes d.spelling_specifier specifiers
  simp only [Specifier.bracedTree, Tree.tokens, tokensOf, tokensOf_append, literal,
    List.append_nil, List.singleton_append, spelling_spelled, spelling_append, listed]
  simp only [Specifier.bracedLexemes, List.map_cons, List.map_append]
  rfl

theorem spelling_clause (kind : Import.Kind) (binds : kind ≠ .sideEffect) :
    spelling (tokensOf (kind.clause d)) ++ [some (.keyword "from")] = kind.lexemes.map some := by
  cases kind with
  | named n specifiers =>
    cases n with
    | none =>
      rw [Import.Kind.clause, tokensOf_singleton, spelling_braced, Import.Kind.lexemes,
        List.map_append]
      rfl
    | some n =>
      simp only [Import.Kind.clause, tokensOf, Tree.tokens, literal, spelling_append,
        spelling_binding, spelling_braced, spelling_spelled, List.append_nil,
        List.singleton_append]
      rw [Import.Kind.lexemes, List.map_cons, List.map_cons, List.map_append]
      rfl
  | main n =>
    rw [Import.Kind.clause, tokensOf_singleton, spelling_binding]
    rfl
  | whole n =>
    simp only [Import.Kind.clause, tokensOf, Tree.tokens, literal, named, List.append_nil,
      List.singleton_append, spelling_spelled, spelling_named]
    rfl
  | sideEffect => contradiction

theorem spelling_origin (i : Import) :
    spelling (tokensOf (i.origin d)) = i.kind.lexemes.map some ++ [some (.string i.source)] := by
  by_cases only : i.kind = .sideEffect
  · rw [Import.origin, if_pos only, only, tokensOf_singleton, quoted, Tree.tokens, spelling_quoted]
    rfl
  · have word : Terminal.lexeme? "" (.literal "from") = some (.keyword "from") := rfl
    rw [Import.origin, if_neg only, ← d.spelling_clause i.kind only]
    simp only [tokensOf, Tree.tokens, literal, quoted, List.append_nil, List.singleton_append,
      spelling_append, spelling_spelled, spelling_quoted, word, List.append_assoc]
    rfl

theorem spelling_import (i : Import) : spelling (i.tree d).tokens = i.lexemes.map some := by
  simp only [Import.tree, Tree.tokens, tokensOf, tokensOf_append, literal, List.append_nil,
    List.singleton_append, spelling_spelled, spelling_append, spelling_origin]
  rw [Import.lexemes, List.map_cons, List.map_append, List.append_assoc]
  rfl

theorem line_binding (n : String) : ∀ k ∈ (d.bindingTree n).tokens, k.start.line = 0 := by
  unfold bindingTree
  split <;> simp [Tree.tokens, tokensOf, named, spelled]

theorem line_braced (specifiers : List Specifier) :
    ∀ k ∈ (Specifier.bracedTree d specifiers).tokens, k.start.line = 0 := by
  have each : ∀ t ∈ specifiers.map (Specifier.tree d), ∀ k ∈ t.tokens, k.start.line = 0 := by
    intro t member
    obtain ⟨⟨imported, renamed⟩, -, rfl⟩ := List.mem_map.mp member
    cases renamed with
    | none => simpa [Specifier.tree, Tree.tokens, tokensOf] using d.line_binding imported
    | some renamed =>
      simpa [Specifier.tree, Tree.tokens, tokensOf, named, literal, spelled] using
        d.line_binding renamed
  have listed := line_separated each
  simpa [Specifier.bracedTree, Tree.tokens, tokensOf, tokensOf_append, literal, spelled, or_imp,
    forall_and] using listed

theorem line_clause (kind : Import.Kind) :
    ∀ k ∈ tokensOf (kind.clause d), k.start.line = 0 := by
  cases kind with
  | named n specifiers =>
    have braced := d.line_braced specifiers
    cases n with
    | none => rwa [Import.Kind.clause, tokensOf_singleton]
    | some n =>
      have bound := d.line_binding n
      simp only [Import.Kind.clause, tokensOf, List.append_nil, List.forall_mem_append]
      exact ⟨bound, by simp [literal, Tree.tokens, spelled], braced⟩
  | main n =>
    rw [Import.Kind.clause, tokensOf_singleton]
    exact d.line_binding n
  | whole n => simp [Import.Kind.clause, Tree.tokens, tokensOf, literal, named, spelled]
  | sideEffect => simp [Import.Kind.clause, tokensOf]

theorem line_import (i : Import) : ∀ k ∈ (i.tree d).tokens, k.start.line = 0 := by
  have clause := d.line_clause i.kind
  by_cases only : i.kind = .sideEffect
  · simp [Import.tree, Import.origin, only, Tree.tokens, tokensOf, literal, quoted, spelled]
  · simpa [Import.tree, Import.origin, only, Tree.tokens, tokensOf, literal, quoted, spelled,
      or_imp, forall_and] using clause

/-- The tree of an import has the tokens of the import. -/
theorem import_spells (i : Import) : (i.tree d).Spells 0 i.lexemes :=
  ⟨d.spelling_import i, d.line_import i⟩

end Dialect

end ImportUsage
