import ImportUsage.Proofs.Grammar.Tokens
import ImportUsage.Proofs.Source.Declaring
import ImportUsage.Proofs.Source.ImportTree
import ImportUsage.Source.Statement

/-! Two ways to read a declaration in typed text: off its tokens, if it is brief, and off its tree.
Where the first succeeds, the second comes to the same. -/

namespace ImportUsage

namespace Brief

/-- The words that begin a declaration, exported or not. -/
def openers : List String :=
  ["export", "function", "class", "interface", "type", "enum", "namespace", "const", "let", "var"]

theorem declared?_eq_some {d : Dialect} {ls : List Lexeme} {kind : Declaration.Kind}
    {names : List String} (read : declared? d ls = some (kind, names)) :
    (kind ≠ .variableBinding ∧ ∃ n, names = [n] ∧
        ls = .keyword kind.word :: .name n :: kind.endingLexemes) ∨
      (kind = .variableBinding ∧ ∃ (word : BindingWord) (rest : List Lexeme),
        ls = .keyword word.text :: rest ∧ bindings? rest = some names) := by
  have bound (rest : List Lexeme) (word : BindingWord)
      (read : (bindings? rest).map (Declaration.Kind.variableBinding, ·) = some (kind, names)) :
      kind = .variableBinding ∧ ∃ (other : BindingWord) (ls : List Lexeme),
        Lexeme.keyword word.text :: rest = .keyword other.text :: ls ∧
          bindings? ls = some names := by
    obtain ⟨found, inside, same⟩ := Option.map_eq_some_iff.mp read
    obtain ⟨rfl, rfl⟩ := Prod.mk.inj same
    exact ⟨rfl, word, rest, rfl, inside⟩
  unfold declared? at read
  split at read
  · obtain ⟨rfl, rfl⟩ := Prod.mk.inj (Option.some.inj read)
    exact .inl ⟨by decide, _, rfl, rfl⟩
  · obtain ⟨rfl, rfl⟩ := Prod.mk.inj (Option.some.inj read)
    exact .inl ⟨by decide, _, rfl, rfl⟩
  · exact .inr (bound _ .fixed read)
  · exact .inr (bound _ .assignable read)
  · exact .inr (bound _ .hoisted read)
  · rw [Option.ite_none_right_eq_some] at read
    obtain ⟨-, read⟩ := read
    unfold declared?.typed? at read
    split at read
    case h_5 => contradiction
    all_goals
      obtain ⟨rfl, rfl⟩ := Prod.mk.inj (Option.some.inj read)
      exact .inl ⟨by decide, _, rfl, rfl⟩

theorem word_injective {kind other : Declaration.Kind} (same : kind.word = other.word) :
    kind = other := by
  cases kind <;> cases other <;> first | rfl | exact absurd same (by decide)

theorem word_ne_text (kind : Declaration.Kind) (word : BindingWord) : kind.word ≠ word.text := by
  cases kind <;> cases word <;> decide

/-- A declaration that begins with the word of a kind is one of that kind. -/
theorem declared?_word {d : Dialect} {rest : List Lexeme} {kind other : Declaration.Kind}
    {names : List String} (read : declared? d (.keyword kind.word :: rest) = some (other, names)) :
    other = kind ∧ ∃ n, names = [n] ∧ rest = .name n :: kind.endingLexemes := by
  rcases declared?_eq_some read with ⟨-, n, rfl, same⟩ | ⟨-, word, after, same, -⟩
  · obtain ⟨words, rest⟩ := List.cons.inj same
    obtain rfl := word_injective (Lexeme.keyword.inj words)
    exact ⟨rfl, n, rfl, rest⟩
  · exact absurd (Lexeme.keyword.inj (List.cons.inj same).1) (word_ne_text kind word)

theorem bindings?_eq_some {ls : List Lexeme} {names : List String}
    (read : bindings? ls = some names) :
    ∃ n v, v.isValue = true ∧
      ((names = [n] ∧ ls = [.name n, .mark '=', v, .mark ';']) ∨
        ∃ more rest, names = n :: more ∧ bindings? rest = some more ∧
          ls = .name n :: .mark '=' :: v :: .mark ',' :: rest) := by
  unfold bindings? at read
  split at read
  · obtain ⟨value, same⟩ := Option.ite_none_right_eq_some.mp read
    exact ⟨_, _, value, .inl ⟨(Option.some.inj same).symm, rfl⟩⟩
  · obtain ⟨value, inside⟩ := Option.ite_none_right_eq_some.mp read
    obtain ⟨more, tail, rfl⟩ := Option.map_eq_some_iff.mp inside
    exact ⟨_, _, value, .inr ⟨more, _, rfl, tail, rfl⟩⟩
  · contradiction

/-- A declaration begins with one of its words and a name. -/
theorem declared?_begins {d : Dialect} {ls : List Lexeme} {kind : Declaration.Kind}
    {names : List String} (read : declared? d ls = some (kind, names)) :
    ∃ w ∈ openers, ∃ n more, ls = .keyword w :: .name n :: more := by
  rcases declared?_eq_some read with ⟨single, n, -, rfl⟩ | ⟨-, word, rest, rfl, inside⟩
  · refine ⟨kind.word, ?_, n, _, rfl⟩
    cases kind with
    | variableBinding => contradiction
    | _ => decide +kernel
  · refine ⟨word.text, by cases word <;> decide +kernel, ?_⟩
    obtain ⟨n, v, -, ⟨-, rfl⟩ | ⟨more, after, -, -, rfl⟩⟩ := bindings?_eq_some inside
    · exact ⟨n, _, rfl⟩
    · exact ⟨n, _, rfl⟩

end Brief

/-- No brief declaration has these tokens. -/
def Token.Unread (d : Dialect) (ks : List Token) : Prop :=
  ∀ (ls : List Lexeme) (kind : Declaration.Kind) (names : List String),
    spelling ks = ls.map some → Brief.declared? d ls ≠ some (kind, names)

namespace Token

variable {d : Dialect}

/-- No brief declaration begins as these trees do, exported or not. -/
def Strange (ts : List Tree) : Prop :=
  ∃ (k : Token) (ks : List Token) (w : String), Tree.tokensOf ts = k :: ks ∧
    k.terminal = .literal w ∧
      ∀ o ∈ Brief.openers, Terminal.lexeme? "" (.literal w) ≠ some (.keyword o)

theorem Strange.append {ts : List Tree} (strange : Strange ts) (us : List Tree) :
    Strange (ts ++ us) := by
  obtain ⟨k, ks, w, tokens, literal, never⟩ := strange
  exact ⟨k, ks ++ Tree.tokensOf us, w, by rw [Tree.tokensOf_append, tokens]; rfl, literal, never⟩

theorem Strange.ne_opener {ts : List Tree} (strange : Strange ts) {o : String}
    (opener : o ∈ Brief.openers) (ls : List Lexeme) :
    spelling (Tree.tokensOf ts) ≠ (.keyword o :: ls).map some := by
  obtain ⟨k, ks, w, tokens, literal, never⟩ := strange
  intro spelled
  rw [tokens, spelling_literal k ks w literal] at spelled
  exact never o opener (List.cons.inj spelled).1

theorem Strange.unread {ts : List Tree} (strange : Strange ts) : Unread d (Tree.tokensOf ts) := by
  intro ls kind names spelled read
  obtain ⟨o, opener, n, more, rfl⟩ := Brief.declared?_begins read
  exact strange.ne_opener opener _ spelled

theorem lexeme?_eq_name {text n : String} {a : Terminal}
    (read : a.lexeme? text = some (.name n)) : a = .name := by
  unfold Terminal.lexeme? Terminal.lexeme at read
  grind

theorem unread_of_second {k l : Token} {ks : List Token} {w : String}
    (first : k.terminal = .literal w) (written : l.terminal ≠ .lineEnd)
    (other : l.terminal ≠ .name) : Unread d (k :: l :: ks) := by
  intro ls kind names spelled read
  obtain ⟨o, -, n, more, rfl⟩ := Brief.declared?_begins read
  rw [spelling_literal k _ w first, spelling_cons l ks written] at spelled
  exact other (lexeme?_eq_name (List.cons.inj (List.cons.inj spelled).2).1)

end Token

/-- Is the tree read as its tokens are, if they make a brief declaration? -/
def Tree.Agrees (d : Dialect) (t : Tree) : Prop :=
  ∀ (n : Nat) (ls : List Lexeme) (kind : Declaration.Kind) (names : List String),
    t.Spells n ls → Brief.declared? d ls = some (kind, names) →
      ∀ exported, t.declarations exported = names.map (⟨·, kind, exported, n⟩)

namespace Tree

variable {d : Dialect} {t : Tree}

theorem agrees_of_unread (unread : Token.Unread d t.tokens) : t.Agrees d := by
  intro n ls kind names spells read
  exact absurd read (unread ls kind names spells.tokens)

theorem declarations_of_kindOf? {c : Construct} {kind : Declaration.Kind}
    (kinds : kindOf? c = some kind) (parts : List Tree) (exported : Bool) :
    (node c parts).declarations exported =
      ((if kind = .namespaceBlock then (node c parts).namespaceName? else (node c parts).name?).map
        (⟨·, kind, exported, (node c parts).line⟩)).toList := by
  have inner : [Construct.declaration, .ambientDeclaration, .expressionStatement,
      .expression].contains c = false := by
    rw [List.contains_eq_mem, decide_eq_false_iff_not]
    intro member
    simp only [List.mem_cons, List.not_mem_nil, or_false] at member
    rcases member with rfl | rfl | rfl | rfl <;> contradiction
  have binding : (c = .lexicalDeclaration || c = .variableDeclaration) = false := by
    rw [Bool.or_eq_false_iff, decide_eq_false_iff_not, decide_eq_false_iff_not]
    constructor <;> (rintro rfl; contradiction)
  simp only [declarations, inner, binding, kinds, Bool.false_eq_true, if_false]

theorem lexeme?_word (kind : Declaration.Kind) :
    Terminal.lexeme? "" (.literal kind.word) = some (.keyword kind.word) := by
  cases kind <;> decide +kernel

theorem Spells.of_word {t : Tree} {n : Nat} {ls : List Lexeme} (spells : t.Spells n ls)
    {kind : Declaration.Kind} {word : Token} {ks : List Token} (tokens : t.tokens = word :: ks)
    (starts : word.terminal = .literal kind.word) :
    ∃ rest, ls = .keyword kind.word :: rest ∧ Token.spelling ks = rest.map some := by
  have spelled := spells.tokens
  rw [tokens, Token.spelling_literal word ks _ starts, lexeme?_word] at spelled
  cases ls with
  | nil => contradiction
  | cons l rest =>
    obtain ⟨first, next⟩ := List.cons.inj spelled
    exact ⟨rest, by rw [Option.some.inj first], next⟩

/-- A tree of a declaring construct is read by its first two tokens, the word of its kind and a
name. -/
theorem agrees_of_name {c : Construct} {parts : List Tree} {kind : Declaration.Kind}
    (kinds : kindOf? c = some kind) {word k : Token} {ks : List Token}
    (tokens : (node c parts).tokens = word :: k :: ks)
    (first : (node c parts).firstToken? = some word) (starts : word.terminal = .literal kind.word)
    (named : k.terminal = .name)
    (name : (if kind = .namespaceBlock then (node c parts).namespaceName?
      else (node c parts).name?) = some k.text) : (node c parts).Agrees d := by
  intro n ls other names spells read exported
  have line : (node c parts).line = n := by
    have here := spells.line word (by simp [tokens])
    simpa [Tree.line, first] using here
  obtain ⟨after, rfl, spelled⟩ := spells.of_word tokens starts
  obtain ⟨rfl, m, rfl, rfl⟩ := Brief.declared?_word read
  rw [Token.spelling_name k _ named] at spelled
  have same : k.text = m := by
    simpa using (List.cons.inj spelled).1
  rw [declarations_of_kindOf? kinds, name, line, same]
  rfl

theorem agrees_named {c : Construct} {kind : Declaration.Kind} (kinds : kindOf? c = some kind)
    (ordinary : kind ≠ .namespaceBlock) {word k : Token} {rest : List Tree}
    (starts : word.terminal = .literal kind.word) (named : k.terminal = .name) :
    (node c (.leaf word :: .leaf k :: rest)).Agrees d := by
  apply agrees_of_name kinds rfl rfl starts named
  rw [if_neg ordinary]
  simp [name?, parts, ungroupAll, ungroup, isLeaf, starts, named, text, firstToken?]

theorem offset_advance (n : Nat) (p : Place) :
    (Place.advance n p).offset = p.offset + min n p.rest.length := by
  induction n generalizing p with
  | zero => simp [Place.advance]
  | succ n ih =>
    obtain ⟨offset, line, rest⟩ := p
    cases rest with
    | nil => simp [Place.advance]
    | cons c rest =>
      rw [Place.advance, ih]
      simp only [List.length_cons]
      omega

theorem covered?_leaf (k : Token) : (leaf k).covered? = some k.text := by
  have length : k.stop.offset - k.start.offset = min k.size k.start.rest.length := by
    rw [Token.stop, offset_advance]
    omega
  simp only [covered?, firstToken?, lastToken?, Token.text, length, Option.bind_eq_bind,
    Option.bind_some]
  rw [List.take_eq_take_iff.mpr]
  omega

theorem agrees_namespace {word k : Token} {rest : List Tree}
    (starts : word.terminal = .literal Declaration.Kind.namespaceBlock.word)
    (named : k.terminal = .name) :
    (node .namespaceDeclaration [.leaf word, .node .moduleBody (.leaf k :: rest)]).Agrees d := by
  have tokens : (node .namespaceDeclaration
      [.leaf word, .node .moduleBody (.leaf k :: rest)]).tokens = word :: k :: tokensOf rest := by
    simp [Tree.tokens, tokensOf]
  apply agrees_of_name rfl tokens rfl starts named
  simp [namespaceName?, part?, parts, ungroupAll, ungroup, isLeaf, named, covered?_leaf]

end Tree

namespace Dialect

open Rule Construct ImportUsage.Tree Token

variable {d : Dialect}

theorem rule?_typed (types : d.hasTypes = true) {c : Construct} {r : Rule}
    (given : ∀ markedUp, ((changes.withTypes markedUp).find? (·.construct = c)).or
      (Grammar.Plain.definitions.find? (·.construct = c)) = some ⟨c, r⟩) :
    d.grammar.rule? c = some r := by
  have defined := d.rule?_grammar c
  cases d with
  | plain => contradiction
  | typed => exact defined.trans (congrArg (Option.map _) (given false))
  | typedMarkup => exact defined.trans (congrArg (Option.map _) (given true))

theorem kept_typed (types : d.hasTypes = true) {c : Construct} (kept : c ∉ Grammar.Typed.inlined) :
    c ∉ d.grammar.inlined := by
  cases d with
  | plain => contradiction
  | typed => exact kept
  | typedMarkup => exact kept

theorem typed_tree (types : d.hasTypes = true) {c : Construct} {r : Rule} {t : Tree}
    (given : ∀ markedUp, ((changes.withTypes markedUp).find? (·.construct = c)).or
      (Grammar.Plain.definitions.find? (·.construct = c)) = some ⟨c, r⟩)
    (kept : c ∉ Grammar.Typed.inlined) (derives : d.grammar.Derives (.construct c) [t]) :
    ∃ parts, t = .node c parts ∧ d.grammar.Derives r parts :=
  Grammar.node_of_derives (rule?_typed types given) (kept_typed types kept) derives

theorem literal_starts {w : String} {r : Rule} {ts : List Tree}
    (derives : d.grammar.Derives (.sequence (.terminal (.literal w)) r) ts) :
    ∃ (k : Token) (rest : List Tree), k.terminal = .literal w ∧ ts = .leaf k :: rest ∧
      d.grammar.Derives r rest := by
  obtain ⟨_, rest, first, next, rfl⟩ := (Grammar.derives_sequence _ _ _ _).mp derives
  obtain ⟨k, literal, rfl⟩ := (Grammar.derives_terminal _ _ _).mp first
  exact ⟨k, rest, literal, rfl, next⟩

theorem literal_strange {w : String} {r : Rule} {ts : List Tree}
    (never : ∀ o ∈ Brief.openers, Terminal.lexeme? "" (.literal w) ≠ some (.keyword o))
    (derives : d.grammar.Derives (.sequence (.terminal (.literal w)) r) ts) : Strange ts := by
  obtain ⟨k, rest, literal, rfl, -⟩ := literal_starts derives
  exact ⟨k, tokensOf rest, w, rfl, literal, never⟩

theorem construct_strange (types : d.hasTypes = true) {c : Construct} {w : String} {r : Rule}
    {ts : List Tree}
    (given : ∀ markedUp, ((changes.withTypes markedUp).find? (·.construct = c)).or
      (Grammar.Plain.definitions.find? (·.construct = c)) =
        some ⟨c, .sequence (.terminal (.literal w)) r⟩)
    (kept : c ∉ d.grammar.inlined)
    (never : ∀ o ∈ Brief.openers, Terminal.lexeme? "" (.literal w) ≠ some (.keyword o))
    (derives : d.grammar.Derives (.construct c) ts) : Strange ts := by
  obtain ⟨_, rfl⟩ := Grammar.derives_kept kept derives
  have listed : c ∉ Grammar.Typed.inlined := by
    cases d with
    | plain => contradiction
    | typed => exact kept
    | typedMarkup => exact kept
  obtain ⟨parts, same, inside⟩ := typed_tree types given listed derives
  obtain ⟨k, ks, word, tokens, rest⟩ := literal_strange never inside
  refine ⟨k, ks, word, ?_, rest⟩
  rw [same, tokensOf_singleton]
  exact tokens

theorem async_strange {ts : List Tree} (derives : d.grammar.Derives (optional "async") ts) :
    ts = [] ∨ Strange ts := by
  rcases (Grammar.derives_optional _ _ _).mp derives with word | rfl
  · obtain ⟨k, literal, rfl⟩ := (Grammar.derives_terminal _ _ _).mp word
    exact .inr ⟨k, [], "async", rfl, literal, by decide +kernel⟩
  · exact .inl rfl

theorem decorators_strange (types : d.hasTypes = true) {ts : List Tree}
    (derives : d.grammar.Derives (many decorator) ts) : ts = [] ∨ Strange ts := by
  have kept : decorator ∉ d.grammar.inlined := by
    cases d <;> decide
  rcases (Grammar.derives_optional _ _ _).mp derives with repeated | rfl
  · right
    clear derives
    generalize whole : Rule.repetition decorator = rule at repeated
    induction repeated with
    | once inside _ =>
      obtain rfl := Rule.repetition.inj whole
      obtain ⟨k, ks, w, tokens, rest⟩ :=
        construct_strange types (fun _ => rfl) kept (by decide +kernel) inside
      exact ⟨k, ks, w, by simpa [tokensOf, Tree.tokens] using tokens, rest⟩
    | again _ _ first _ =>
      obtain ⟨k, ks, w, tokens, rest⟩ := (first whole).append [_]
      exact ⟨k, ks, w, by simpa [tokensOf, Tree.tokens] using tokens, rest⟩
    | _ => cases whole
  · exact .inl rfl

theorem typeName_leaf (types : d.hasTypes = true) (ts : List Tree)
    (derives : d.grammar.Derives (.construct typeName) ts) :
    ∃ k : Token, k.terminal = .name ∧ ts = [.leaf k] := by
  have defined : d.grammar.rule? typeName = some Terminal.name := by
    rw [rule?_grammar]
    cases d with
    | plain => contradiction
    | typed => rfl
    | typedMarkup => rfl
  have given : typeName ∈ d.grammar.inlined := by
    cases d with
    | plain => contradiction
    | typed => decide
    | typedMarkup => decide
  rw [Grammar.derives_inlined _ _ _ defined given] at derives
  exact (Grammar.derives_terminal _ _ _).mp derives

theorem agrees_headed {c : Construct} (kind : Declaration.Kind) (kinds : kindOf? c = some kind)
    (ordinary : kind ≠ .namespaceBlock) {name rest : Rule} {parts : List Tree}
    (named : ∀ ts, d.grammar.Derives name ts → ∃ k : Token, k.terminal = .name ∧ ts = [.leaf k])
    (inside : d.grammar.Derives
      (.sequence (.terminal (.literal kind.word)) (.sequence name rest)) parts) :
    (node c parts).Agrees d := by
  obtain ⟨word, _, starts, rfl, next⟩ := literal_starts inside
  obtain ⟨_, after, here, -, rfl⟩ := (Grammar.derives_sequence _ _ _ _).mp next
  obtain ⟨k, name, rfl⟩ := named _ here
  exact agrees_named kinds ordinary starts name

theorem agrees_fronted {c : Construct} (kind : Declaration.Kind) (kinds : kindOf? c = some kind)
    (ordinary : kind ≠ .namespaceBlock) {front name rest : Rule} {parts : List Tree}
    (strange : ∀ ts, d.grammar.Derives front ts → ts = [] ∨ Strange ts)
    (named : ∀ ts, d.grammar.Derives name ts → ∃ k : Token, k.terminal = .name ∧ ts = [.leaf k])
    (inside : d.grammar.Derives (.sequence front
      (.sequence (.terminal (.literal kind.word)) (.sequence name rest))) parts) :
    (node c parts).Agrees d := by
  obtain ⟨before, after, first, next, rfl⟩ := (Grammar.derives_sequence _ _ _ _).mp inside
  rcases strange before first with rfl | never
  · exact agrees_headed kind kinds ordinary named next
  · exact agrees_of_unread (never.append after).unread

theorem name_leaf (ts : List Tree) (derives : d.grammar.Derives (.terminal .name) ts) :
    ∃ k : Token, k.terminal = .name ∧ ts = [.leaf k] :=
  (Grammar.derives_terminal _ _ _).mp derives

theorem functionDeclaration_agrees (types : d.hasTypes = true) {t : Tree}
    (derives : d.grammar.Derives (.construct functionDeclaration) [t]) : t.Agrees d := by
  obtain ⟨parts, rfl, inside⟩ := typed_tree types (fun _ => rfl) (by decide) derives
  exact agrees_fronted .function rfl (by decide) (fun _ => async_strange) name_leaf
    (Grammar.derives_ranked inside)

theorem functionSignature_agrees (types : d.hasTypes = true) {t : Tree}
    (derives : d.grammar.Derives (.construct functionSignature) [t]) : t.Agrees d := by
  obtain ⟨parts, rfl, inside⟩ := typed_tree types (fun _ => rfl) (by decide) derives
  exact agrees_fronted .function rfl (by decide) (fun _ => async_strange) name_leaf inside

theorem generatorDeclaration_agrees (types : d.hasTypes = true) {t : Tree}
    (derives : d.grammar.Derives (.construct generatorDeclaration) [t]) : t.Agrees d := by
  obtain ⟨parts, rfl, inside⟩ := typed_tree types (fun _ => rfl) (by decide) derives
  obtain ⟨before, _, first, next, rfl⟩ :=
    (Grammar.derives_sequence _ _ _ _).mp (Grammar.derives_ranked inside)
  rcases async_strange first with rfl | never
  · obtain ⟨word, _, starts, rfl, marked⟩ := literal_starts next
    obtain ⟨star, rest, mark, rfl, -⟩ := literal_starts marked
    exact agrees_of_unread (unread_of_second starts (by simp [mark]) (by simp [mark]))
  · exact agrees_of_unread (never.append _).unread

theorem classDeclaration_agrees (types : d.hasTypes = true) {t : Tree}
    (derives : d.grammar.Derives (.construct classDeclaration) [t]) : t.Agrees d := by
  obtain ⟨parts, rfl, inside⟩ := typed_tree types (fun _ => rfl) (by decide) derives
  exact agrees_fronted .classType rfl (by decide) (fun _ => decorators_strange types)
    (typeName_leaf types) (Grammar.derives_ranked inside)

theorem abstractClassDeclaration_agrees (types : d.hasTypes = true) {t : Tree}
    (derives : d.grammar.Derives (.construct abstractClassDeclaration) [t]) : t.Agrees d := by
  obtain ⟨parts, rfl, inside⟩ := typed_tree types (fun _ => rfl) (by decide) derives
  obtain ⟨before, _, first, next, rfl⟩ :=
    (Grammar.derives_sequence _ _ _ _).mp (Grammar.derives_ranked inside)
  rcases decorators_strange types first with rfl | never
  · exact agrees_of_unread (literal_strange (by decide +kernel) next).unread
  · exact agrees_of_unread (never.append _).unread

/-- A construct that begins with a word of its own never stands for a brief declaration. -/
theorem agrees_of_literal (types : d.hasTypes = true) {c : Construct} {w : String} {r : Rule}
    {t : Tree}
    (given : ∀ markedUp, ((changes.withTypes markedUp).find? (·.construct = c)).or
      (Grammar.Plain.definitions.find? (·.construct = c)) =
        some ⟨c, .sequence (.terminal (.literal w)) r⟩)
    (kept : c ∉ d.grammar.inlined)
    (never : ∀ o ∈ Brief.openers, Terminal.lexeme? "" (.literal w) ≠ some (.keyword o))
    (derives : d.grammar.Derives (.construct c) [t]) : t.Agrees d := by
  apply agrees_of_unread
  rw [← tokensOf_singleton]
  exact (construct_strange types given kept never derives).unread

theorem enumDeclaration_agrees (types : d.hasTypes = true) {t : Tree}
    (derives : d.grammar.Derives (.construct enumDeclaration) [t]) : t.Agrees d := by
  obtain ⟨parts, rfl, inside⟩ := typed_tree types (fun _ => rfl) (by decide) derives
  obtain ⟨before, _, first, next, rfl⟩ := (Grammar.derives_sequence _ _ _ _).mp inside
  rcases (Grammar.derives_optional _ _ _).mp first with word | rfl
  · obtain ⟨k, fixed, rfl⟩ := (Grammar.derives_terminal _ _ _).mp word
    obtain ⟨word, rest, starts, rfl, -⟩ := literal_starts next
    exact agrees_of_unread (unread_of_second fixed (by simp [starts]) (by simp [starts]))
  · exact agrees_headed .enumType rfl (by decide) name_leaf next

theorem interfaceDeclaration_agrees (types : d.hasTypes = true) {t : Tree}
    (derives : d.grammar.Derives (.construct interfaceDeclaration) [t]) : t.Agrees d := by
  obtain ⟨parts, rfl, inside⟩ := typed_tree types (fun _ => rfl) (by decide) derives
  exact agrees_headed .interface rfl (by decide) (typeName_leaf types) inside

theorem typeAliasDeclaration_agrees (types : d.hasTypes = true) {t : Tree}
    (derives : d.grammar.Derives (.construct typeAliasDeclaration) [t]) : t.Agrees d := by
  obtain ⟨parts, rfl, inside⟩ := typed_tree types (fun _ => rfl) (by decide) derives
  exact agrees_headed .typeAlias rfl (by decide) (typeName_leaf types) inside

theorem dottedName_dot (types : d.hasTypes = true) {ts : List Tree}
    (derives : d.grammar.Derives (.construct dottedName) ts) :
    ∃ k ∈ tokensOf ts, k.terminal = .literal "." := by
  obtain ⟨_, rfl⟩ := Grammar.derives_kept (by cases d <;> decide) derives
  obtain ⟨parts, same, inside⟩ := typed_tree types (fun _ => rfl) (by decide) derives
  obtain ⟨front, _, -, next, rfl⟩ :=
    (Grammar.derives_sequence _ _ _ _).mp (Grammar.derives_ranked inside)
  obtain ⟨dot, rest, mark, rfl, -⟩ := literal_starts next
  refine ⟨dot, ?_, mark⟩
  rw [same]
  simp [tokensOf, Tree.tokens, tokensOf_append]

theorem namespaceDeclaration_agrees (types : d.hasTypes = true) {t : Tree}
    (derives : d.grammar.Derives (.construct namespaceDeclaration) [t]) : t.Agrees d := by
  obtain ⟨parts, rfl, inside⟩ := typed_tree types (fun _ => rfl) (by decide) derives
  obtain ⟨word, rest, starts, rfl, bodied⟩ := literal_starts inside
  obtain ⟨_, rfl⟩ := Grammar.derives_kept (by cases d <;> decide) bodied
  obtain ⟨body, same, inside⟩ := typed_tree types (fun _ => rfl) (by decide) bodied
  rw [same]
  obtain ⟨front, block, named, -, rfl⟩ :=
    (Grammar.derives_sequence _ _ _ _).mp (Grammar.derives_ranked inside)
  simp only [oneOf, Grammar.derives_choice, Grammar.derives_terminal] at named
  rcases named with ⟨k, string, rfl⟩ | ⟨k, name, rfl⟩ | dotted
  · have tokens : (node namespaceDeclaration
        [.leaf word, .node moduleBody ([.leaf k] ++ block)]).tokens =
          word :: k :: tokensOf block := by
      simp [Tree.tokens, tokensOf]
    apply agrees_of_unread
    rw [tokens]
    exact unread_of_second starts (by simp [string]) (by simp [string])
  · exact agrees_namespace starts name
  · intro n ls kind names spells read
    obtain ⟨dot, member, mark⟩ := dottedName_dot types dotted
    have inside : dot ∈ (node namespaceDeclaration
        [.leaf word, .node moduleBody (front ++ block)]).tokens := by
      simp [Tree.tokens, tokensOf, tokensOf_append, member]
    have spelled := Token.lexeme?_mem_spelling inside mark
    rw [spells.tokens] at spelled
    have first : word.terminal = .literal Declaration.Kind.namespaceBlock.word := starts
    obtain ⟨after, rfl, -⟩ := spells.of_word rfl first
    obtain ⟨-, m, -, rfl⟩ := Brief.declared?_word read
    have absent : Terminal.lexeme? "" (.literal ".") = some (.mark '.') := by
      decide +kernel
    simp [absent, Declaration.Kind.endingLexemes] at spelled

end Dialect

end ImportUsage
