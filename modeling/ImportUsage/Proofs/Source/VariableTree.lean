import ImportUsage.Proofs.Source.DeclarationTree

/-! Declarations of variables, read off their tokens and off their trees. The tokens are cut at the
commas, and so is the tree: where there is no bracket, no initial value has a comma in it. -/

namespace ImportUsage

theorem append_inj_of_separators {α : Type} (p : α → Bool) {a b x y : List α}
    (plain_a : ∀ c ∈ a, p c = false) (plain_b : ∀ c ∈ b, p c = false)
    (ends_x : ∀ c ∈ x.head?, p c = true) (ends_y : ∀ c ∈ y.head?, p c = true)
    (same : a ++ x = b ++ y) : a = b ∧ x = y := by
  have front (l m : List α) (plain : ∀ c ∈ l, p c = false) (ends : ∀ c ∈ m.head?, p c = true) :
      (l ++ m).takeWhile (fun c => !p c) = l := by
    have stops : m.takeWhile (fun c => !p c) = [] := by
      cases m with
      | nil => rfl
      | cons c m => exact List.takeWhile_cons_of_neg (by simp [ends c rfl])
    rw [List.takeWhile_append_of_pos (by simpa using plain), stops, List.append_nil]
  have fronts : a = b := by
    rw [← front a x plain_a ends_x, same, front b y plain_b ends_y]
  subst fronts
  exact ⟨rfl, List.append_cancel_left same⟩

def Lexeme.separates (l : Option Lexeme) : Bool := l = some (.mark ',') || l = some (.mark ';')

theorem Terminal.lexeme?_eq_mark {text : String} {a : Terminal} {c : Char}
    (read : a.lexeme? text = some (.mark c)) : a = .literal (String.ofList [c]) := by
  unfold Terminal.lexeme? at read
  split at read
  · cases read
  · cases read
  · cases read
  · rename_i s
    rw [Option.ite_none_right_eq_some] at read
    have mark := Option.some.inj read.2
    simp only [Terminal.lexeme] at mark
    split at mark
    · cases mark
    · split at mark
      · rename_i spelled
        obtain rfl := Lexeme.mark.inj mark
        rw [← spelled, String.ofList_toList]
      · cases mark
  · cases read

namespace Tree

theorem separates_spelling {ts : List Tree} (plain : ¬ Token.Occurs Terminal.separating ts) :
    ∀ l ∈ Token.spelling (tokensOf ts), Lexeme.separates l = false := by
  intro l member
  obtain ⟨k, inside, rfl⟩ := List.mem_map.mp member
  have here : k ∈ tokensOf ts := (List.mem_filter.mp inside).1
  cases separates : Lexeme.separates (k.terminal.lexeme? k.text) with
  | false => rfl
  | true =>
    simp only [Lexeme.separates, Bool.or_eq_true, decide_eq_true_eq] at separates
    have listed : k.terminal ∈ Terminal.separating := by
      rcases separates with comma | semicolon
      · rw [Terminal.lexeme?_eq_mark comma]
        decide
      · rw [Terminal.lexeme?_eq_mark semicolon]
        decide
    exact absurd ⟨k, here, listed⟩ plain

/-- A name and what may follow it, without a separator. -/
structure IsDeclarator (t : Tree) : Prop where
  named : ∃ (k : Token) (rest : List Tree),
    t = .node .variableDeclarator (.leaf k :: rest) ∧ k.terminal = .name
  plain : ¬ Token.Occurs Terminal.separating [t]

def declared (t : Tree) : List String := (t.parts.head?.map boundNames).getD []

theorem IsDeclarator.reads {t : Tree} (declarator : t.IsDeclarator) {x : List (Option Lexeme)}
    {n : String} {v : Lexeme} {rest : List Lexeme} (value : v.isValue = true)
    (ends : ∀ l ∈ x.head?, Lexeme.separates l = true)
    (stops : ∀ l ∈ (rest.map some).head?, Lexeme.separates l = true)
    (spelled : Token.spelling t.tokens ++ x = (.name n :: .mark '=' :: v :: rest).map some) :
    t.declared = [n] ∧ x = rest.map some := by
  have plain := separates_spelling declarator.plain
  rw [tokensOf_singleton] at plain
  have brief : ∀ l ∈ [some (.name n), some (.mark '='), some v], Lexeme.separates l = false := by
    cases v <;> first | contradiction | simp [Lexeme.separates]
  obtain ⟨front, back⟩ := append_inj_of_separators Lexeme.separates plain brief ends stops spelled
  obtain ⟨k, others, rfl, name⟩ := declarator.named
  have tokens : (node .variableDeclarator (.leaf k :: others)).tokens = k :: tokensOf others := rfl
  rw [tokens, Token.spelling_name k _ name] at front
  have same : k.text = n := by
    simpa using (List.cons.inj front).1
  refine ⟨?_, back⟩
  simp [declared, parts, ungroupAll, ungroup, boundNames, name, same]

theorem declared_declarators {closing : List (Option Lexeme)}
    (closed : closing = [] ∨ closing = [some (.mark ';')]) (first : Tree)
    (more : List (Token × Tree)) (names : List String) (ls : List Lexeme)
    (each : ∀ t ∈ first :: more.map (·.2), t.IsDeclarator)
    (commas : ∀ p ∈ more, p.1.terminal = .literal ",")
    (spelled : Token.spelling (tokensOf (first :: afterCommas more)) ++ closing = ls.map some)
    (read : Brief.bindings? ls = some names) :
    (first :: more.map (·.2)).flatMap declared = names := by
  have declarator := each first List.mem_cons_self
  obtain ⟨n, v, value, reading⟩ := Brief.bindings?_eq_some read
  induction more generalizing first names ls n v with
  | nil =>
    have ends : ∀ l ∈ closing.head?, Lexeme.separates l = true := by
      rcases closed with rfl | rfl <;> simp [Lexeme.separates]
    rw [afterCommas, List.flatMap_nil, tokensOf_singleton] at spelled
    rcases reading with ⟨rfl, rfl⟩ | ⟨others, rest, rfl, -, rfl⟩
    · obtain ⟨here, -⟩ := declarator.reads value ends (by simp [Lexeme.separates]) spelled
      simp [here]
    · obtain ⟨-, there⟩ := declarator.reads value ends (by simp [Lexeme.separates]) spelled
      rcases closed with rfl | rfl <;> simp at there
  | cons p more ih =>
    have comma := commas p List.mem_cons_self
    have mark : Terminal.lexeme? "" (.literal ",") = some (.mark ',') := by
      decide +kernel
    have tokens : tokensOf (first :: afterCommas (p :: more)) =
        first.tokens ++ p.1 :: tokensOf (p.2 :: afterCommas more) := by
      simp [tokensOf, afterCommas, Tree.tokens]
    rw [tokens, Token.spelling_append, Token.spelling_literal p.1 _ "," comma, mark,
      List.append_assoc] at spelled
    rcases reading with ⟨rfl, rfl⟩ | ⟨others, rest, rfl, next, rfl⟩
    · obtain ⟨-, there⟩ := declarator.reads value (by simp [Lexeme.separates])
        (by simp [Lexeme.separates]) spelled
      simp at there
    · obtain ⟨here, there⟩ := declarator.reads value (by simp [Lexeme.separates])
        (by simp [Lexeme.separates]) spelled
      obtain ⟨m, w, worth, reading⟩ := Brief.bindings?_eq_some next
      have tail := ih p.2 others rest (fun t member => each t (List.mem_cons_of_mem _ member))
        (fun q member => commas q (List.mem_cons_of_mem _ member)) (List.cons.inj there).2 next
        (each p.2 (by simp)) m w worth reading
      rw [List.flatMap_cons, here, List.map_cons, tail]
      rfl

theorem declarations_variables {c : Construct}
    (binds : c = .lexicalDeclaration ∨ c = .variableDeclaration) (word : Token) (parts : List Tree)
    (exported : Bool) :
    (node c (.leaf word :: parts)).declarations exported =
      (((ungroupAll parts []).filter (·.isNode .variableDeclarator)).flatMap declared).map
        (⟨·, .variableBinding, exported, word.start.line⟩) := by
  have line : (node c (.leaf word :: parts)).line = word.start.line := rfl
  have inside : (node c (.leaf word :: parts)).parts.filter (·.isNode .variableDeclarator) =
      (ungroupAll parts []).filter (·.isNode .variableDeclarator) := rfl
  rcases binds with rfl | rfl
  · simp only [declarations, inside, line, List.map_flatMap]
    rfl
  · simp only [declarations, inside, line, List.map_flatMap]
    rfl

end Tree

theorem Brief.bindings?_plain {ls : List Lexeme} {names : List String}
    (read : bindings? ls = some names) :
    ∀ l ∈ ls, l.isValue = true ∨ l ∈ [.mark '=', .mark ',', .mark ';'] := by
  induction names generalizing ls with
  | nil =>
    obtain ⟨n, v, -, ⟨impossible, -⟩ | ⟨more, rest, impossible, -⟩⟩ := bindings?_eq_some read
    · cases impossible
    · cases impossible
  | cons name names ih =>
    obtain ⟨n, v, value, ⟨-, rfl⟩ | ⟨more, rest, same, next, rfl⟩⟩ := bindings?_eq_some read
    · have name_value : (Lexeme.name n).isValue = true := rfl
      simp [value, name_value]
    · obtain ⟨-, rfl⟩ := List.cons.inj same
      have tail := ih next
      intro l member
      simp only [List.mem_cons] at member
      rcases member with rfl | rfl | rfl | rfl | later
      · exact .inl rfl
      · exact .inr (by decide)
      · exact .inl value
      · exact .inr (by decide)
      · exact tail l later

theorem Brief.not_opening {ls : List Lexeme} {names : List String} {ks : List Token}
    (read : bindings? ls = some names) (spelled : Token.spelling ks = ls.map some) :
    ∀ k ∈ ks, k.terminal ∉ Terminal.opening := by
  intro k member listed
  obtain ⟨s, bracket, literal⟩ := List.mem_map.mp listed
  have inside := Token.lexeme?_mem_spelling member literal.symm
  rw [spelled] at inside
  obtain ⟨l, here, same⟩ := List.mem_map.mp inside
  have allowed := bindings?_plain read l here
  simp only [List.mem_cons, List.not_mem_nil, or_false] at bracket
  rcases bracket with rfl | rfl | rfl | rfl | rfl | rfl | rfl <;> cases same <;>
    exact absurd allowed (by decide +kernel)

namespace Dialect

open Rule Construct ImportUsage.Tree Token

variable {d : Dialect}

theorem declarator_tree (types : d.hasTypes = true) {t : Tree}
    (derives : d.grammar.Derives (.construct variableDeclarator) [t])
    (plain : ¬ Token.Occurs Terminal.opening [t]) : t.IsDeclarator := by
  refine ⟨?_, fun separated =>
    plain (d.brackets.opening_of_separating derives rfl separated)⟩
  obtain ⟨parts, rfl, inside⟩ := typed_tree types (fun _ => rfl) (by decide) derives
  simp only [oneOf, Grammar.derives_choice] at inside
  rcases inside with valued | definite
  · obtain ⟨front, rest, bound, -, rfl⟩ := (Grammar.derives_sequence _ _ _ _).mp valued
    rcases (Grammar.derives_choice _ _ _ _).mp bound with named | pattern
    · obtain ⟨k, name, rfl⟩ := name_leaf _ named
      exact ⟨k, rest, rfl, name⟩
    · have bracket := d.brackets.occurs_opening pattern rfl
      rw [Token.occurs_wrapped _ _ _ rfl, Token.occurs_append] at plain
      exact absurd (.inl bracket) plain
  · obtain ⟨front, rest, named, -, rfl⟩ :=
      (Grammar.derives_sequence _ _ _ _).mp (Grammar.derives_ranked definite)
    obtain ⟨k, name, rfl⟩ := name_leaf _ named
    exact ⟨k, rest, rfl, name⟩

theorem lexeme?_text (word : BindingWord) :
    Terminal.lexeme? "" (.literal word.text) = some (.keyword word.text) := by
  cases word <;> decide +kernel

theorem declarators_tree (types : d.hasTypes = true) {first : Tree} {more : List (Token × Tree)}
    (head : d.grammar.Derives (.construct variableDeclarator) [first])
    (tail : ∀ p ∈ more, d.grammar.Derives (.construct variableDeclarator) [p.2])
    (plain : ∀ k ∈ tokensOf (first :: afterCommas more), k.terminal ∉ Terminal.opening) :
    ∀ t ∈ first :: more.map (·.2), t.IsDeclarator := by
  have single (t : Tree) (listed : t ∈ first :: afterCommas more)
      (derives : d.grammar.Derives (.construct variableDeclarator) [t]) : t.IsDeclarator := by
    apply declarator_tree types derives
    rintro ⟨k, inside, bracket⟩
    rw [tokensOf_singleton] at inside
    exact plain k (mem_tokensOf listed inside) bracket
  intro t member
  rcases List.mem_cons.mp member with rfl | later
  · exact single t List.mem_cons_self head
  · obtain ⟨p, listed, rfl⟩ := List.mem_map.mp later
    have inside : p.2 ∈ afterCommas more := List.mem_flatMap.mpr ⟨p, listed, by simp⟩
    exact single p.2 (List.mem_cons_of_mem first inside) (tail p listed)

theorem statementEnd_spelling {e : Token}
    (ends : e.terminal = .lineEnd ∨ e.terminal = .literal ";") :
    spelling [e] = [] ∨ spelling [e] = [some (.mark ';')] := by
  rcases ends with ends | mark
  · left
    simp [spelling, ends]
  · right
    rw [spelling_literal e [] ";" mark]
    decide +kernel

/-- Declarators after one of the words that bind variables are read off their names. -/
theorem agrees_variables (types : d.hasTypes = true) {c : Construct}
    (binds : c = lexicalDeclaration ∨ c = variableDeclaration) {word : Token} {binder : BindingWord}
    {rest : List Tree} (starts : word.terminal = .literal binder.text)
    (derives : d.grammar.Derives (seq [listed variableDeclarator, statementEnd]) rest) :
    (node c (.leaf word :: rest)).Agrees d := by
  obtain ⟨ts, _, list, last, rfl⟩ := (Grammar.derives_sequence _ _ _ _).mp derives
  obtain ⟨e, rfl, ends⟩ := d.statementEnd_tree _ last
  obtain ⟨first, more, head, tail, ungrouped⟩ :=
    Grammar.derives_listed (by cases d <;> decide) list
  have tokens : (node c (.leaf word :: (ts ++ [.leaf e]))).tokens =
      word :: (tokensOf (first :: afterCommas more) ++ [e]) := by
    have listed := tokensOf_ungroupAll ts []
    rw [ungrouped, List.append_nil, tokensOf, List.append_nil] at listed
    simp [Tree.tokens, tokensOf, tokensOf_append, ← listed]
  intro n ls kind names spells read exported
  have line := spells.line word (by rw [tokens]; exact List.mem_cons_self)
  have spelled := spells.tokens
  rw [tokens, spelling_literal word _ _ starts, lexeme?_text] at spelled
  rcases Brief.declared?_eq_some read with ⟨-, m, -, rfl⟩ | ⟨rfl, other, after, rfl, bindings⟩
  · have same : binder.text = kind.word := by
      simpa using (List.cons.inj spelled).1
    exact absurd same.symm (Brief.word_ne_text kind binder)
  · have bound := (List.cons.inj spelled).2
    have plain := Brief.not_opening bindings bound
    have each := declarators_tree types head (fun p listed => (tail p listed).2)
      fun k member => plain k (List.mem_append_left _ member)
    have found := declared_declarators (statementEnd_spelling ends) first more names after each
      (fun p listed => (tail p listed).1) (by rw [← spelling_append, bound]) bindings
    have filtered : (ungroupAll (ts ++ [.leaf e]) []).filter (·.isNode variableDeclarator) =
        first :: more.map (·.2) := by
      have node (t : Tree) (member : t ∈ first :: more.map (·.2)) :
          t.isNode variableDeclarator = true := by
        obtain ⟨k, others, rfl, -⟩ := (each t member).named
        rfl
      have last : (Tree.leaf e).isNode variableDeclarator = false := rfl
      rw [ungroupAll_append, ungrouped, List.filter_cons_of_pos (node first List.mem_cons_self),
        List.filter_append, filter_afterCommas]
      · simp [ungroupAll, ungroup, last]
      · intro p listed
        exact node p.2 (List.mem_cons_of_mem _ (List.mem_map.mpr ⟨p, listed, rfl⟩))
    rw [declarations_variables binds, filtered, found, line]

theorem lexicalDeclaration_agrees (types : d.hasTypes = true) {t : Tree}
    (derives : d.grammar.Derives (.construct lexicalDeclaration) [t]) : t.Agrees d := by
  obtain ⟨parts, rfl, inside⟩ := typed_tree types (fun _ => rfl) (by decide) derives
  obtain ⟨_, rest, word, bound, rfl⟩ := (Grammar.derives_sequence _ _ _ _).mp inside
  rcases (Grammar.derives_choice _ _ _ _).mp word with assignable | fixed
  · obtain ⟨k, starts, rfl⟩ := (Grammar.derives_terminal _ _ _).mp assignable
    have first : k.terminal = .literal BindingWord.assignable.text := starts
    exact agrees_variables types (.inl rfl) first bound
  · obtain ⟨k, starts, rfl⟩ := (Grammar.derives_terminal _ _ _).mp fixed
    have first : k.terminal = .literal BindingWord.fixed.text := starts
    exact agrees_variables types (.inl rfl) first bound

theorem variableDeclaration_agrees (types : d.hasTypes = true) {t : Tree}
    (derives : d.grammar.Derives (.construct variableDeclaration) [t]) : t.Agrees d := by
  obtain ⟨parts, rfl, inside⟩ := typed_tree types (fun _ => rfl) (by decide) derives
  obtain ⟨k, rest, starts, rfl, bound⟩ := literal_starts inside
  have first : k.terminal = .literal BindingWord.hoisted.text := starts
  exact agrees_variables types (.inr rfl) first bound

end Dialect

end ImportUsage
