import ImportUsage.Proofs.Grammar.Opening
import ImportUsage.Proofs.Grammar.Spelled
import ImportUsage.Proofs.Source.TreeReading
import ImportUsage.Proofs.Source.VariableTree

/-! The statements of a program by their tokens. An import is told by its first tokens, and so is an
export; a statement that declares names is read as its declaration is. -/

namespace ImportUsage

namespace Opening

/-- The same automaton on tokens as they are written. -/
def read : Opening → Lexeme → Option Opening
  | imports, _ => some imports
  | exports, _ => some exports
  | nothing, .keyword s =>
    if s = "import" then some word else if s = "export" then some exports else none
  | word, .name _ => some named
  | word, .string _ => some imports
  | word, .mark c => if c = '{' || c = '*' then some imports else none
  | named, .mark c => if c = ',' then some imports else none
  | named, .keyword s => if s = "from" then some imports else none
  | _, _ => none

def reads : Opening → List Lexeme → Option Opening
  | q, [] => some q
  | q, l :: ls => (q.read l).bind (reads · ls)

theorem step_word (q : Opening) {s : String} (letter : s.toList.any isLetter = true) :
    q.step (.literal s) = q.read (.keyword s) := by
  have apart (mark : String) (plain : mark.toList.any isLetter = false) : s ≠ mark := by
    rintro rfl
    rw [letter] at plain
    contradiction
  have brace := apart "\x7b" (by decide)
  have star := apart "*" (by decide)
  have comma := apart "," (by decide)
  cases q <;> simp [step, read, brace, star, comma]

theorem step_mark (q : Opening) {s : String} {c : Char} (chars : s.toList = [c]) :
    q.step (.literal s) = q.read (.mark c) := by
  have long (word : String) (size : word.toList.length ≠ 1) : s ≠ word := by
    rintro rfl
    simp [chars] at size
  have same (mark : String) (e : Char) (one : mark.toList = [e]) : s = mark ↔ c = e := by
    rw [← String.toList_inj, chars, one, List.cons.injEq, eq_self, and_true]
  cases q <;> simp [step, read, same "\x7b" '{' rfl, same "*" '*' rfl, same "," ',' rfl,
    long "import" (by decide), long "export" (by decide), long "from" (by decide)]

theorem step_of_lexeme? (q : Opening) {text : String} {a : Terminal} {l : Lexeme}
    (spelled : a.lexeme? text = some l) : q.step a = q.read l := by
  unfold Terminal.lexeme? at spelled
  split at spelled
  · cases spelled
    cases q <;> rfl
  · cases spelled
    cases q <;> rfl
  · cases spelled
    cases q <;> rfl
  · rename_i s
    obtain ⟨short, same⟩ := Option.ite_none_right_eq_some.mp spelled
    have written := Option.some.inj same
    rw [Terminal.lexeme] at written
    by_cases letter : s.toList.any isLetter = true
    · rw [if_pos letter] at written
      rw [← written]
      exact q.step_word letter
    · rw [if_neg letter] at written
      have one : s.toList.length = 1 := by simpa [letter] using short
      obtain ⟨c, chars⟩ := List.length_eq_one_iff.mp one
      rw [chars] at written
      rw [← written]
      exact q.step_mark chars
  · contradiction

theorem run_of_spelling (q : Opening) {ks : List Token} {ls : List Lexeme}
    (spelled : Token.spelling ks = ls.map some) : q.run ks = q.reads ls := by
  induction ks generalizing q ls with
  | nil =>
    rw [List.map_eq_nil_iff.mp spelled.symm]
    rfl
  | cons k ks ih =>
    by_cases unwritten : k.terminal = .lineEnd
    · have stays : q.step k.terminal = some q := by
        rw [unwritten]
        cases q <;> rfl
      rw [Token.spelling_lineEnd k ks unwritten] at spelled
      rw [run, stays]
      exact ih q spelled
    · rw [Token.spelling_cons k ks unwritten] at spelled
      obtain ⟨l, more, rfl, here, there⟩ := List.map_eq_cons_iff.mp spelled.symm
      rw [run, reads, q.step_of_lexeme? here.symm]
      cases q.read l with
      | none => rfl
      | some next => exact ih next there.symm

theorem reads_imports (ls : List Lexeme) : imports.reads ls = some imports := by
  induction ls with
  | nil => rfl
  | cons l ls ih => exact ih

theorem reads_exports (ls : List Lexeme) : exports.reads ls = some exports := by
  induction ls with
  | nil => rfl
  | cons l ls ih => exact ih

end Opening

theorem Import.reads_lexemes (i : Import) : Opening.nothing.reads i.lexemes = some .imports := by
  obtain ⟨kind, source, line⟩ := i
  cases kind with
  | named n specifiers => cases n <;> exact Opening.reads_imports _
  | main n => rfl
  | whole n => rfl
  | sideEffect => rfl

/-- The words that begin a declaration are not the word that exports it. -/
theorem DeclaringForm.lexemes_begin (f : DeclaringForm) :
    ∃ w more, w ∈ Brief.openers ∧ w ≠ "export" ∧ f.lexemes = .keyword w :: more := by
  cases f with
  | named kind single n =>
    refine ⟨kind.word, _, ?_, ?_, rfl⟩
    · cases kind with
      | variableBinding => contradiction
      | _ => decide +kernel
    · cases kind <;> decide +kernel
  | bindings word first more =>
    refine ⟨word.text, _, ?_, ?_, rfl⟩
    · cases word <;> decide +kernel
    · cases word <;> decide +kernel

namespace Tree

variable {d : Dialect}

theorem Agrees.wrapped {t : Tree} (agrees : t.Agrees d) : (node .declaration [t]).Agrees d := by
  intro n ls kind names spells read exported
  have tokens : (node .declaration [t]).tokens = t.tokens := tokensOf_singleton t
  have inside : (node .declaration [t]).declarations exported = t.declarations exported := by
    simp [declarations, declarationsOf]
  obtain ⟨spelled, line⟩ := spells
  rw [tokens] at spelled line
  rw [inside]
  exact agrees n ls kind names ⟨spelled, line⟩ read exported

end Tree

namespace Dialect

open Rule Construct ImportUsage.Tree Token

variable {d : Dialect}

theorem declaration_agrees (types : d.hasTypes = true) {t : Tree}
    (derives : d.grammar.Derives (.construct declaration) [t]) : t.Agrees d := by
  obtain ⟨parts, rfl, inside⟩ := typed_tree types (fun _ => rfl) (by decide) derives
  have wrap {c : Construct} (kept : c ∉ d.grammar.inlined)
      (inside : d.grammar.Derives (.construct c) parts)
      (agrees : ∀ t, d.grammar.Derives (.construct c) [t] → t.Agrees d) :
      (node .declaration parts).Agrees d := by
    obtain ⟨_, rfl⟩ := Grammar.derives_kept kept inside
    exact (agrees _ inside).wrapped
  simp only [oneOf, Grammar.derives_choice] at inside
  rcases inside with functions | generators | classes | lexical | hoisted | signatures | abstracts |
    modules | spaces | aliases | enums | interfaces | imported | ambient
  · exact wrap (by cases d <;> decide) functions fun _ => functionDeclaration_agrees types
  · exact wrap (by cases d <;> decide) generators fun _ => generatorDeclaration_agrees types
  · exact wrap (by cases d <;> decide) classes fun _ => classDeclaration_agrees types
  · exact wrap (by cases d <;> decide) lexical fun _ => lexicalDeclaration_agrees types
  · exact wrap (by cases d <;> decide) hoisted fun _ => variableDeclaration_agrees types
  · exact wrap (by cases d <;> decide) signatures fun _ => functionSignature_agrees types
  · exact wrap (by cases d <;> decide) abstracts fun _ => abstractClassDeclaration_agrees types
  · exact wrap (by cases d <;> decide) modules fun _ =>
      agrees_of_literal types (fun _ => rfl) (by cases d <;> decide) (by decide +kernel)
  · exact wrap (by cases d <;> decide) (Grammar.derives_ranked spaces) fun _ =>
      namespaceDeclaration_agrees types
  · exact wrap (by cases d <;> decide) aliases fun _ => typeAliasDeclaration_agrees types
  · exact wrap (by cases d <;> decide) enums fun _ => enumDeclaration_agrees types
  · exact wrap (by cases d <;> decide) interfaces fun _ => interfaceDeclaration_agrees types
  · exact wrap (by cases d <;> decide) imported fun _ =>
      agrees_of_literal types (fun _ => rfl) (by cases d <;> decide) (by decide +kernel)
  · exact wrap (by cases d <;> decide) ambient fun _ =>
      agrees_of_literal types (fun _ => rfl) (by cases d <;> decide) (by decide +kernel)

theorem exportClause_strange (types : d.hasTypes = true) {ts : List Tree}
    (derives : d.grammar.Derives (.construct exportClause) ts) : Strange ts :=
  construct_strange types (fun _ => rfl) (by cases d <;> decide) (by decide +kernel) derives

/-- What an export statement begins with: a declaration after the word `export`, or something that
no brief statement has there. -/
theorem exportStatement_tree (types : d.hasTypes = true) {t : Tree}
    (derives : d.grammar.Derives (.construct exportStatement) [t]) :
    (∃ parts, t = .node exportStatement parts ∧ Strange parts) ∨
      ∃ (k : Token) (rest : List Tree), k.terminal = .literal "export" ∧
        t = .node exportStatement (.leaf k :: rest) ∧
          (Unread d (tokensOf rest) ∨ d.grammar.Derives (.construct declaration) rest) := by
  obtain ⟨parts, rfl, inside⟩ := typed_tree types (fun _ => rfl) (by decide) derives
  simp only [oneOf, Grammar.derives_choice] at inside
  rcases inside with listed | declared | typeOnly | assigned | spaced
  · obtain ⟨k, rest, word, rfl, next⟩ := literal_starts listed
    obtain ⟨front, back, given, -, rfl⟩ := (Grammar.derives_sequence _ _ _ _).mp next
    have strange : Strange front := by
      simp only [Grammar.derives_choice] at given
      rcases given with all | space | source | own
      · exact literal_strange (by decide +kernel) all
      · obtain ⟨ts, us, first, -, rfl⟩ := (Grammar.derives_sequence _ _ _ _).mp space
        exact (construct_strange types (fun _ => rfl) (by cases d <;> decide) (by decide +kernel)
          first).append us
      · obtain ⟨ts, us, first, -, rfl⟩ := (Grammar.derives_sequence _ _ _ _).mp source
        exact (exportClause_strange types first).append us
      · exact exportClause_strange types own
    exact .inr ⟨k, _, word, rfl, .inl (strange.append back).unread⟩
  · obtain ⟨before, _, decorators, next, rfl⟩ := (Grammar.derives_sequence _ _ _ _).mp declared
    rcases decorators_strange types decorators with rfl | strange
    · obtain ⟨k, rest, word, rfl, after⟩ := literal_starts next
      rcases (Grammar.derives_choice _ _ _ _).mp after with given | standard
      · exact .inr ⟨k, rest, word, rfl, .inr given⟩
      · exact .inr ⟨k, rest, word, rfl, .inl (literal_strange (by decide +kernel) standard).unread⟩
    · exact .inl ⟨_, rfl, strange.append _⟩
  · obtain ⟨k, _, word, rfl, next⟩ := literal_starts typeOnly
    obtain ⟨second, _, marked, rfl, after⟩ := literal_starts next
    obtain ⟨front, back, listed, -, rfl⟩ := (Grammar.derives_sequence _ _ _ _).mp after
    obtain ⟨l, ks, w, tokens, literal, -⟩ := (exportClause_strange types listed).append back
    have whole : tokensOf (.leaf second :: (front ++ back)) = second :: l :: ks := by
      rw [← tokens]
      rfl
    refine .inr ⟨k, _, word, rfl, .inl ?_⟩
    rw [whole]
    exact unread_of_second marked (by simp [literal]) (by simp [literal])
  · obtain ⟨k, rest, word, rfl, next⟩ := literal_starts assigned
    exact .inr ⟨k, rest, word, rfl, .inl (literal_strange (by decide +kernel) next).unread⟩
  · obtain ⟨k, rest, word, rfl, next⟩ := literal_starts spaced
    exact .inr ⟨k, rest, word, rfl, .inl (literal_strange (by decide +kernel) next).unread⟩

/-- An exported declaration is read off its tree as the declaration is off its tokens. -/
theorem exportContributions_of_brief (types : d.hasTypes = true) {t : Tree}
    (derives : d.grammar.Derives (.construct exportStatement) [t]) {n : Nat} {ls : List Lexeme}
    {kind : Declaration.Kind} {names : List String} (spells : t.Spells n (.keyword "export" :: ls))
    (read : Brief.declared? d ls = some (kind, names)) :
    t.exportContributions = [.declares (names.map (⟨·, kind, true, n⟩))] := by
  rcases exportStatement_tree types derives with ⟨parts, rfl, strange⟩ | ⟨k, rest, word, rfl, next⟩
  · exact absurd spells.tokens (strange.ne_opener (by decide +kernel) ls)
  · have tokens : (node exportStatement (.leaf k :: rest)).tokens = k :: tokensOf rest := rfl
    obtain ⟨spelled, line⟩ := spells
    rw [tokens] at spelled line
    rw [spelling_literal k _ "export" word] at spelled
    have inner := (List.cons.inj spelled).2
    rcases next with unread | declared
    · exact absurd read (unread ls kind names inner)
    · obtain ⟨parts, rfl⟩ := Grammar.derives_kept (by cases d <;> decide) declared
      rw [tokensOf_singleton] at inner line
      have agrees := declaration_agrees types declared n ls kind names
        ⟨inner, fun l member => line l (List.mem_cons_of_mem _ member)⟩ read true
      rw [← agrees]
      simp [exportContributions, part?, Tree.parts, ungroupAll, ungroup]

/-- The trees of statements that declare, exported or not. A namespace that is not exported is an
expression for the grammar. -/
inductive Declares (d : Dialect) : Bool → Tree → Prop
  | plain {t : Tree} (derives : d.grammar.Derives (.construct declaration) [t]) :
      Declares d false (.node statement [t])
  | exported {t : Tree} (derives : d.grammar.Derives (.construct exportStatement) [t]) :
      Declares d true (.node statement [t])
  | space {t : Tree} {e : Token}
      (derives : d.grammar.Derives (.construct namespaceDeclaration) [t])
      (ends : e.terminal = .lineEnd) :
      Declares d false
        (.node statement [.node expressionStatement [.node expression [t], .leaf e]])

theorem tokens_space (t : Tree) (e : Token) :
    (node statement [.node expressionStatement [.node expression [t], .leaf e]]).tokens =
      t.tokens ++ [e] := by
  simp [Tree.tokens, tokensOf]

theorem contributions_of_declares (types : d.hasTypes = true) (s : DeclaringStatement) {t : Tree}
    {n : Nat} (declares : d.Declares s.exported t) (spells : t.Spells n s.lexemes) :
    t.statementContributions = [.declares (s.declarations n)] := by
  obtain ⟨exported, form⟩ := s
  have read := Brief.declared?_lexemes d types form
  obtain ⟨spelled, line⟩ := spells
  cases declares with
  | plain derives =>
    obtain ⟨parts, rfl⟩ := Grammar.eq_node_of_derives (by cases d <;> decide) derives
    rw [Tree.tokens, tokensOf_singleton] at spelled line
    have agrees := declaration_agrees types derives n _ _ _ ⟨spelled, line⟩ read false
    simp [statementContributions, agrees, DeclaringStatement.declarations]
  | exported derives =>
    obtain ⟨parts, rfl⟩ := Grammar.eq_node_of_derives (by cases d <;> decide) derives
    rw [Tree.tokens, tokensOf_singleton] at spelled line
    have agrees := exportContributions_of_brief types derives ⟨spelled, line⟩ read
    simp [statementContributions, agrees, DeclaringStatement.declarations]
  | @space t e derives ends =>
    have unwritten : spelling [e] = [] := spelling_lineEnd e [] ends
    rw [tokens_space, spelling_append, unwritten, List.append_nil] at spelled
    rw [tokens_space] at line
    have agrees := namespaceDeclaration_agrees types derives n _ _ _
      ⟨spelled, fun k member => line k (List.mem_append_left _ member)⟩ read false
    simp [statementContributions, declarations, declarationsOf, agrees,
      DeclaringStatement.declarations]

theorem mem_openings {c : Construct} {ts : List Tree} (derives : d.grammar.Derives (.construct c) ts)
    {q s : Opening} (run : q.run (tokensOf ts) = some s) : (q, s) ∈ openings c :=
  d.opens.mem_moves derives rfl run

/-- What a statement can be. -/
def statementForms : List Construct :=
  [exportStatement, importStatement, debuggerStatement, expressionStatement, declaration, block,
    ifStatement, switchStatement, forStatement, forInStatement, whileStatement, doStatement,
    tryStatement, withStatement, breakStatement, continueStatement, returnStatement,
    throwStatement, emptyStatement, labeledStatement]

theorem rule?_statement :
    d.grammar.rule? statement = some (oneOf (statementForms.map .construct)) :=
  (d.rule?_grammar _).trans (by cases d <;> rfl)

theorem derives_statement {c : Construct} (listed : c ∈ statementForms) {parts : List Tree}
    (inside : d.grammar.Derives (.construct c) parts) :
    d.grammar.Derives (.construct statement) [.node statement parts] :=
  .construct rule?_statement (by cases d <;> decide)
    (Grammar.derives_oneOf (List.mem_map_of_mem listed) inside)

theorem statement_tree {t : Tree} (derives : d.grammar.Derives (.construct statement) [t]) :
    ∃ c ∈ statementForms, ∃ parts, t = .node statement parts ∧
      d.grammar.Derives (.construct c) parts := by
  obtain ⟨parts, rfl, inside⟩ :=
    Grammar.node_of_derives rule?_statement (by cases d <;> decide) derives
  obtain ⟨r, member, given⟩ := Grammar.exists_of_derives_oneOf inside
  have mapped : r ∈ statementForms.map .construct := member
  obtain ⟨c, listed, rfl⟩ := List.mem_map.mp mapped
  exact ⟨c, listed, parts, rfl, given⟩

/-- A statement with the tokens of an import is an import. -/
theorem importStatement_of_spells {t : Tree} (derives : d.grammar.Derives (.construct statement) [t])
    {i : Import} {n : Nat} (spells : t.Spells n i.lexemes) :
    ∃ u, t = .node statement [u] ∧ d.grammar.Derives (.construct importStatement) [u] := by
  obtain ⟨c, listed, parts, rfl, inside⟩ := statement_tree derives
  have run : Opening.nothing.run (tokensOf parts) = some .imports :=
    (Opening.run_of_spelling _ spells.tokens).trans i.reads_lexemes
  have only : ∀ c ∈ statementForms, (Opening.nothing, Opening.imports) ∈ openings c →
      c = importStatement := by
    decide
  obtain rfl := only c listed (mem_openings inside run)
  obtain ⟨_, rfl⟩ := Grammar.derives_kept (by cases d <;> decide) inside
  exact ⟨_, rfl, inside⟩

/-- An import is read off the tree of its statement as it is written. -/
theorem contributions_of_import {t : Tree} (derives : d.grammar.Derives (.construct statement) [t])
    {i : Import} {n : Nat} (spells : t.Spells n i.lexemes) :
    t.statementContributions = [.imports { i with line := n }] := by
  obtain ⟨u, rfl, inside⟩ := importStatement_of_spells derives spells
  obtain ⟨parts, rfl⟩ := Grammar.eq_node_of_derives (by cases d <;> decide) inside
  have tokens : (node statement [node importStatement parts]).tokens =
      (node importStatement parts).tokens := tokensOf_singleton _
  obtain ⟨spelled, lines⟩ := spells
  rw [tokens] at spelled lines
  have inner : (node importStatement parts).Spells n i.lexemes := ⟨spelled, lines⟩
  have read : Brief.import? 0 (node importStatement parts).lexemes.tail =
      some { i with line := 0 } := by
    rw [inner.lexemes, Import.lexemes, List.tail_cons, Brief.import?_lexemes]
  have line : (node importStatement parts).line = n := inner.line_eq (by simp [Import.lexemes])
  have found := importOf?_of_brief d _ inside 0 _ read
  simp [statementContributions, found, line]

/-- What a statement that declares has its tokens from. -/
theorem Declares.inside {exported : Bool} {t : Tree} (declares : d.Declares exported t) :
    ∃ c u, d.grammar.Derives (.construct c) [u] ∧ Token.spelling u.tokens = Token.spelling t.tokens ∧
      if exported then c = exportStatement else c = declaration ∨ c = namespaceDeclaration := by
  cases declares with
  | @plain u derives =>
    exact ⟨_, u, derives, by rw [Tree.tokens, tokensOf_singleton], .inl rfl⟩
  | @exported u derives =>
    exact ⟨_, u, derives, by rw [Tree.tokens, tokensOf_singleton], rfl⟩
  | @space u e derives ends =>
    refine ⟨_, u, derives, ?_, .inr rfl⟩
    rw [tokens_space, Token.spelling_append, Token.spelling_lineEnd e [] ends]
    exact (List.append_nil _).symm

/-- No statement that declares has the tokens of an import. -/
theorem Declares.ne_import {exported : Bool} {t : Tree} (declares : d.Declares exported t)
    (i : Import) : Token.spelling t.tokens ≠ i.lexemes.map some := by
  intro spelled
  obtain ⟨c, u, derives, same, kind⟩ := declares.inside
  have run := (Opening.run_of_spelling .nothing (same.trans spelled)).trans i.reads_lexemes
  rw [← tokensOf_singleton] at run
  have moves := mem_openings derives run
  cases exported with
  | true =>
    obtain rfl := kind
    exact absurd moves (by decide)
  | false =>
    rcases kind with rfl | rfl
    · exact absurd moves (by decide)
    · exact absurd moves (by decide)

/-- Whether a statement that declares is exported can be told from its tokens. -/
theorem Declares.exported_eq (types : d.hasTypes = true) {exported : Bool} {t : Tree}
    (declares : d.Declares exported t) {s : DeclaringStatement}
    (spelled : Token.spelling t.tokens = s.lexemes.map some) : exported = s.exported := by
  obtain ⟨c, u, derives, same, kind⟩ := declares.inside
  rw [← same] at spelled
  obtain ⟨marked, form⟩ := s
  cases exported with
  | true =>
    obtain rfl := kind
    cases marked with
    | true => rfl
    | false =>
      obtain ⟨w, more, opener, other, begins⟩ := form.lexemes_begin
      have lexemes : DeclaringStatement.lexemes ⟨false, form⟩ = form.lexemes := rfl
      rw [lexemes, begins] at spelled
      rcases exportStatement_tree types derives with ⟨parts, rfl, strange⟩ | ⟨k, rest, word, rfl, -⟩
      · exact absurd spelled (strange.ne_opener opener _)
      · rw [Tree.tokens, tokensOf, Tree.tokens, List.singleton_append,
          spelling_literal k _ "export" word, List.map_cons] at spelled
        have first : Terminal.lexeme? "" (.literal "export") = some (.keyword "export") := by
          decide +kernel
        rw [first] at spelled
        exact absurd (Lexeme.keyword.inj (Option.some.inj (List.cons.inj spelled).1)).symm other
  | false =>
    cases marked with
    | false => rfl
    | true =>
      have run := (Opening.run_of_spelling .nothing spelled).trans
        (Opening.reads_exports form.lexemes)
      rw [← tokensOf_singleton] at run
      have moves := mem_openings derives run
      rcases kind with rfl | rfl
      · exact absurd moves (by decide)
      · exact absurd moves (by decide)

end Dialect

end ImportUsage
