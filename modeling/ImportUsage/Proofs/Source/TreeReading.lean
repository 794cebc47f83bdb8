import ImportUsage.Proofs.Source.ImportTree
import ImportUsage.Proofs.Source.Written
import ImportUsage.Source.Statement

/-! Two ways to read an import statement: off its tokens, if it is brief, and off its tree. Where the
first succeeds, the second comes to the same. -/

namespace ImportUsage

namespace Tree

theorem IsBinding.reads {b : Tree} (binding : b.IsBinding) :
    b.lexemes = [.name b.text] ∨ b.lexemes = [.keyword "type"] := by
  cases binding with
  | plain k name => exact .inl (k.lexemes_name name)
  | wrapped k word =>
    have alone : (node .importName [.leaf k]).lexemes = k.lexemes := List.append_nil _
    rcases word with name | type
    · exact .inl (alone.trans (k.lexemes_name name))
    · exact .inr (alone.trans (k.lexemes_literal "type" _ type rfl))

theorem IsBinding.ungroup {b : Tree} (binding : b.IsBinding) (others : List Tree) :
    b.ungroup others = b :: others := by
  cases binding <;> rfl

theorem lexemes_string (k : Token) (string : k.terminal = .string) :
    k.lexemes = [.string (leaf k).unquoted] := by
  rw [Token.lexemes, string]
  simp [Terminal.lexeme, unquoted, firstToken?, string, Token.text]

/-- A specifier has the tokens of what it stands for, or no brief statement has them. -/
theorem IsSpecifier.reads {t : Tree} (specifier : t.IsSpecifier) :
    (∃ s, t.specifier? = some s ∧ t.lexemes = s.lexemes) ∨
      ∀ ls, Brief.specifiers? (t.lexemes ++ ls) = none := by
  cases specifier with
  | alone b binding =>
    have parts : (node .importSpecifier [b]).parts = [b] := binding.ungroup []
    have tokens : (node .importSpecifier [b]).lexemes = b.lexemes := List.append_nil _
    rw [tokens]
    rcases binding.reads with name | type
    · exact .inl ⟨⟨b.text, none⟩, by simp [specifier?, parts], name⟩
    · exact .inr fun ls => by rw [type]; rfl
  | renamed k as b source mark binding =>
    have parts : (node .importSpecifier [.node .exportName [.leaf k], .leaf as, b]).parts =
        [.node .exportName [.leaf k], .leaf as, b] := by
      simp [Tree.parts, ungroupAll, Tree.ungroup, binding.ungroup]
    have marked := as.lexemes_literal "as" (.keyword "as") mark rfl
    have tokens : (node .importSpecifier [.node .exportName [.leaf k], .leaf as, b]).lexemes =
        k.lexemes ++ .keyword "as" :: b.lexemes := by
      simp [lexemes, lexemesOf, marked]
    rw [tokens]
    rcases source with name | string
    · have imported : (node .exportName [.leaf k]).unquoted = k.text := by
        simp [unquoted, firstToken?, firstToken?.first, name]
      have literal : (leaf as).isLiteral "as" = true := by
        simp [isLiteral, isLeaf, mark]
      rcases binding.reads with bound | type
      · refine .inl ⟨⟨k.text, some b.text⟩, ?_, ?_⟩
        · simp [specifier?, parts, literal, imported]
        · rw [k.lexemes_name name, bound]
          rfl
      · exact .inr fun ls => by rw [k.lexemes_name name, type]; rfl
    · exact .inr fun ls => by rw [lexemes_string k string]; rfl
  | ofType k word rest =>
    right
    intro ls
    rcases word with type | typeof
    · rw [lexemes, lexemesOf, lexemes, k.lexemes_literal "type" _ type rfl]
      rfl
    · rw [lexemes, lexemesOf, lexemes, k.lexemes_literal "typeof" _ typeof rfl]
      rfl

theorem specifiers?_trees (first : Tree) (more : List Tree)
    (each : ∀ t ∈ first :: more, t.IsSpecifier) (comma ls rest : List Lexeme)
    (trailing : comma = [] ∨ comma = [.mark ',']) (found : List Specifier)
    (read : Brief.specifiers? ([.mark ','].intercalate ((first :: more).map lexemes) ++
      (comma ++ .mark '}' :: ls)) = some (found, rest)) :
    found = (first :: more).filterMap specifier? ∧ rest = ls := by
  induction more generalizing first found with
  | nil =>
    rw [List.map_singleton, List.intercalate_singleton] at read
    rcases (each first (by simp)).reads with ⟨s, here, tokens⟩ | never
    · have alone : Brief.specifiers? (s.lexemes ++ (comma ++ .mark '}' :: ls)) = some ([s], ls) := by
        rcases trailing with rfl | rfl
        · exact Brief.specifiers?_last s ls
        · exact Brief.specifiers?_next s (.mark '}' :: ls)
      rw [tokens, alone, Option.some.injEq, Prod.mk.injEq] at read
      exact ⟨by simp [here, ← read.1], read.2.symm⟩
    · rw [never] at read
      contradiction
  | cons second more ih =>
    rw [List.map_cons, List.map_cons, List.intercalate_cons_cons, ← List.map_cons,
      List.append_assoc, List.append_assoc, List.singleton_append] at read
    rcases (each first (by simp)).reads with ⟨s, here, tokens⟩ | never
    · rw [tokens, Brief.specifiers?_next, Option.map_eq_some_iff] at read
      obtain ⟨⟨others, after⟩, tail, same⟩ := read
      obtain ⟨rfl, rfl⟩ := Prod.mk.inj same
      obtain ⟨listed, rfl⟩ := ih second (fun t member => each t (List.mem_cons_of_mem _ member))
        others tail
      exact ⟨by rw [listed, List.filterMap_cons_some here], rfl⟩
    · rw [never] at read
      contradiction

/-- The names between braces are read off their tree as off its tokens. -/
theorem Lists.reads {t : Tree} {specifiers : List Tree} (lists : t.Lists specifiers)
    (ls rest : List Lexeme) (found : List Specifier)
    (read : Brief.specifiers? (t.lexemes.tail ++ ls) = some (found, rest)) :
    found = specifiers.filterMap specifier? ∧ rest = ls := by
  obtain ⟨comma, trailing, tokens⟩ := lists.lexemes
  rw [tokens, List.tail_cons, List.append_assoc, List.append_assoc, List.singleton_append] at read
  cases specifiers with
  | nil =>
    rcases trailing with rfl | rfl
    · simp only [Brief.specifiers?, List.map_nil, List.intercalate_nil, List.nil_append,
        Option.some.injEq, Prod.mk.injEq] at read
      exact ⟨read.1.symm, read.2.symm⟩
    · simp [Brief.specifiers?] at read
  | cons first more =>
    exact specifiers?_trees first more lists.each comma ls rest trailing found read

theorem Lists.begins {t : Tree} {specifiers : List Tree} (lists : t.Lists specifiers) :
    t.lexemes = .mark '{' :: t.lexemes.tail := by
  obtain ⟨comma, _, tokens⟩ := lists.lexemes
  rw [tokens, List.tail_cons]

theorem Lists.reads_named {t : Tree} {specifiers : List Tree} (lists : t.Lists specifiers)
    (main : Option String) (ls rest : List Lexeme) (kind : Import.Kind)
    (read : (Brief.specifiers? (t.lexemes.tail ++ .keyword "from" :: ls)).map
      (fun (names, after) => (.named main names, after)) = some (kind, .keyword "from" :: rest)) :
    kind = .named main ((t.parts.filter (·.isNode .importSpecifier)).filterMap specifier?) ∧
      rest = ls := by
  obtain ⟨⟨found, after⟩, inside, same⟩ := Option.map_eq_some_iff.mp read
  obtain ⟨listed, rfl⟩ := lists.reads _ after found inside
  simp only [Prod.mk.injEq, List.cons.injEq, true_and] at same
  exact ⟨by rw [← same.1, listed, lists.parts], same.2.symm⟩

theorem IsBinding.isName {b : Tree} (binding : b.IsBinding) :
    (b.isLeaf .name || b.isNode .importName) = true := by
  cases binding with
  | plain k name => simp [isLeaf, name]
  | wrapped k word => rfl

theorem IsBinding.not_isNode {b : Tree} (binding : b.IsBinding) (c : Construct)
    (other : c ≠ .importName) : b.isNode c = false := by
  cases binding with
  | plain k name => rfl
  | wrapped k word => simp [other]

theorem IsWhole.reads {w : Tree} (inside : w.IsWhole) :
    ∃ (parts : List Tree) (n : String), w = .node .namespaceImport parts ∧ w.name? = some n ∧
      w.lexemes = [.mark '*', .keyword "as", .name n] := by
  cases inside with
  | intro star as k mark word name =>
    have stars := star.lexemes_literal "*" (.mark '*') mark rfl
    have renames := as.lexemes_literal "as" (.keyword "as") word rfl
    have named := k.lexemes_name name
    refine ⟨_, k.text, rfl, ?_, ?_⟩
    · simp [name?, parts, ungroupAll, Tree.ungroup, isLeaf, mark, word, name, text, firstToken?]
    · simp [lexemes, lexemesOf, stars, renames, named]

theorem IsClause.exists_parts {t : Tree} (clause : t.IsClause) :
    ∃ parts, t = .node .importClause parts := by
  cases clause <;> exact ⟨_, rfl⟩

theorem IsClause.reads {t : Tree} (clause : t.IsClause) (ls rest : List Lexeme)
    (kind : Import.Kind)
    (read : Brief.clause? (t.lexemes ++ .keyword "from" :: ls) =
      some (kind, .keyword "from" :: rest)) : kind = t.importKind ∧ rest = ls := by
  cases clause with
  | whole w inside =>
    obtain ⟨parts, n, rfl, name, tokens⟩ := inside.reads
    rw [lexemes, lexemesOf, tokens] at read
    simp only [lexemesOf, List.append_nil, List.cons_append, List.nil_append, Brief.clause?,
      Option.some.injEq, Prod.mk.injEq, List.cons.injEq, true_and] at read
    refine ⟨?_, read.2.symm⟩
    rw [← read.1]
    simp [importKind, part?, Tree.parts, ungroupAll, Tree.ungroup, isLeaf, name]
  | named b specifiers lists =>
    obtain ⟨parts, rfl⟩ := lists.node
    rw [lexemes, lexemesOf, lexemesOf, List.append_nil, lists.begins] at read
    obtain ⟨rfl, same⟩ := lists.reads_named none ls rest kind read
    refine ⟨?_, same⟩
    simp [importKind, part?, Tree.parts, ungroupAll, Tree.ungroup, isLeaf]
  | main b binding =>
    rw [lexemes, lexemesOf, lexemesOf, List.append_nil] at read
    rcases binding.reads with name | type
    · simp only [name, List.cons_append, List.nil_append, Brief.clause?, Option.some.injEq,
        Prod.mk.injEq, List.cons.injEq, true_and] at read
      refine ⟨?_, read.2.symm⟩
      rw [← read.1]
      simp [importKind, part?, Tree.parts, ungroupAll, binding.ungroup, binding.isName,
        binding.not_isNode]
    · simp [type, Brief.clause?] at read
  | mainAndWhole b w comma binding mark inside =>
    obtain ⟨parts, n, rfl, _, tokens⟩ := inside.reads
    have marked := comma.lexemes_literal "," (.mark ',') mark rfl
    have whole : (node .importClause [b, .leaf comma, .node .namespaceImport parts]).lexemes =
        b.lexemes ++ [.mark ',', .mark '*', .keyword "as", .name n] := by
      rw [lexemes, lexemesOf, lexemesOf, lexemesOf, lexemesOf, tokens, lexemes, marked]
      rfl
    rcases binding.reads with name | type
    · simp [whole, name, Brief.clause?] at read
    · simp [whole, type, Brief.clause?] at read
  | mainAndNamed b t comma specifiers binding mark lists =>
    obtain ⟨parts, rfl⟩ := lists.node
    have marked := comma.lexemes_literal "," (.mark ',') mark rfl
    have whole : (node .importClause [b, .leaf comma, .node .namedImports parts]).lexemes =
        b.lexemes ++ .mark ',' :: .mark '{' :: (node .namedImports parts).lexemes.tail := by
      rw [lexemes, lexemesOf, lexemesOf, lexemesOf, lexemesOf, List.append_nil, lists.begins,
        List.tail_cons, lexemes, marked]
      rfl
    rcases binding.reads with name | type
    · rw [whole, name] at read
      obtain ⟨rfl, same⟩ := lists.reads_named (some b.text) ls rest kind read
      refine ⟨?_, same⟩
      simp [importKind, part?, Tree.parts, ungroupAll, Tree.ungroup, binding.ungroup,
        binding.isName, binding.not_isNode]
    · simp [whole, type, Brief.clause?] at read

end Tree

theorem Brief.import?_eq_some (n : Nat) (ls : List Lexeme) (i : Import)
    (read : (import? n ls) = some i) :
    (∃ m, ls = [.string m, .mark ';'] ∧ i = ⟨.sideEffect, m, n⟩) ∨
      ∃ kind m, clause? ls = some (kind, [.keyword "from", .string m, .mark ';']) ∧
        i = ⟨kind, m, n⟩ := by
  unfold Brief.import? at read
  split at read
  · exact .inl ⟨_, rfl, (Option.some.inj read).symm⟩
  · split at read
    · rename_i found
      exact .inr ⟨_, _, found, (Option.some.inj read).symm⟩
    · contradiction

namespace Tree

theorem IsEnding.of_lexemes {rest : List Tree} (ends : IsEnding rest)
    (tokens : lexemesOf rest = [.mark ';']) : ∃ k, rest = [.leaf k] := by
  cases ends with
  | alone k => exact ⟨k, rfl⟩
  | afterAttribute word k more starts =>
    obtain ⟨w, first⟩ : ∃ w, word.lexemes = [.keyword w] := by
      rcases starts with starts | starts
      · exact ⟨_, word.lexemes_literal "with" _ starts rfl⟩
      · exact ⟨_, word.lexemes_literal "assert" _ starts rfl⟩
    simp [lexemesOf, lexemes, first] at tokens

end Tree

/-- A tree of an import statement is read as its tokens are, if they make a brief statement. -/
theorem importOf?_of_brief (d : Dialect) (t : Tree)
    (derives : d.grammar.Derives (.construct .importStatement) [t]) (n : Nat) (i : Import)
    (read : Brief.import? n t.lexemes.tail = some i) :
    t.importOf? = some { i with line := t.line } := by
  have shape := d.importStatement_tree t derives
  have reading := Brief.import?_eq_some n _ i read
  cases shape with
  | bare word path rest starts string ends =>
    have first := word.lexemes_literal "import" _ starts rfl
    have path_token := Tree.lexemes_string path string
    simp only [Tree.lexemes, Tree.lexemesOf, first, path_token, List.cons_append, List.nil_append,
      List.tail_cons, List.cons.injEq, Lexeme.string.injEq, Brief.clause?, reduceCtorEq, false_and,
      exists_false, or_false] at reading
    obtain ⟨m, ⟨rfl, tokens⟩, rfl⟩ := reading
    obtain ⟨k, rfl⟩ := ends.of_lexemes tokens
    simp [Tree.importOf?, Tree.part?, Tree.source?, Tree.parts, Tree.ungroupAll, Tree.ungroup,
      Tree.isLeaf, starts, string]
  | clause word mark path clause rest starts binds marks string ends =>
    obtain ⟨parts, rfl⟩ := binds.exists_parts
    have first := word.lexemes_literal "import" _ starts rfl
    have path_token := Tree.lexemes_string path string
    have mark_token := mark.lexemes_literal "from" (.keyword "from") marks rfl
    have tokens : (Tree.node .importStatement (.leaf word :: .node .importClause parts ::
        .node .fromClause [.leaf mark, .leaf path] :: rest)).lexemes.tail =
        (Tree.node .importClause parts).lexemes ++
          .keyword "from" :: .string (Tree.leaf path).unquoted :: Tree.lexemesOf rest := by
      simp [Tree.lexemes, Tree.lexemesOf, first, path_token, mark_token]
    rw [tokens] at reading
    rcases reading with ⟨m, short, _⟩ | ⟨kind, m, found, rfl⟩
    · have inside : Lexeme.keyword "from" ∈ [Lexeme.string m, .mark ';'] := by
        rw [← short]
        simp
      simp at inside
    · obtain ⟨rfl, same⟩ := binds.reads _ _ kind found
      simp only [List.cons.injEq, Lexeme.string.injEq] at same
      obtain ⟨rfl, ending⟩ := same
      obtain ⟨k, rfl⟩ := ends.of_lexemes ending.symm
      simp [Tree.importOf?, Tree.part?, Tree.source?, Tree.parts, Tree.ungroupAll, Tree.ungroup,
        Tree.isLeaf, marks, string]
  | ofType word k rest starts type =>
    have first := word.lexemes_literal "import" _ starts rfl
    obtain ⟨w, token⟩ : ∃ w, k.lexemes = [.keyword w] := by
      rcases type with type | typeof
      · exact ⟨_, k.lexemes_literal "type" _ type rfl⟩
      · exact ⟨_, k.lexemes_literal "typeof" _ typeof rfl⟩
    simp [Tree.lexemes, Tree.lexemesOf, first, token, Brief.clause?] at reading
  | require word k mark inside rest starts name equals =>
    have first := word.lexemes_literal "import" _ starts rfl
    have name_token := k.lexemes_name name
    have equals_token := mark.lexemes_literal "=" (.mark '=') equals rfl
    simp [Tree.lexemes, Tree.lexemesOf, first, name_token, equals_token, Brief.clause?] at reading

end ImportUsage
