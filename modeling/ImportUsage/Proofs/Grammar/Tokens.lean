import ImportUsage.Proofs.Grammar.Derivation

/-! The tokens of the trees that a grammar has: how lists with commas are built, and where the marks
that separate can stand. -/

namespace ImportUsage

namespace Tree

mutual

def tokens : Tree → List Token
  | .leaf k => [k]
  | .node _ parts => tokensOf parts
  | .group parts => tokensOf parts

def tokensOf : List Tree → List Token
  | [] => []
  | t :: more => tokens t ++ tokensOf more

end

theorem tokensOf_append (ts us : List Tree) : tokensOf (ts ++ us) = tokensOf ts ++ tokensOf us := by
  induction ts with
  | nil => simp [tokensOf]
  | cons t ts ih => simp [tokensOf, ih]

theorem tokensOf_singleton (t : Tree) : tokensOf [t] = t.tokens := by
  simp [tokensOf]

mutual

theorem tokensOf_ungroup : ∀ (t : Tree) (others : List Tree),
    tokensOf (t.ungroup others) = t.tokens ++ tokensOf others
  | .leaf _, _ => rfl
  | .node _ _, _ => rfl
  | .group parts, others => tokensOf_ungroupAll parts others

theorem tokensOf_ungroupAll : ∀ (ts others : List Tree),
    tokensOf (ungroupAll ts others) = tokensOf ts ++ tokensOf others
  | [], _ => rfl
  | t :: more, others => by
    rw [ungroupAll, tokensOf_ungroup t, tokensOf_ungroupAll more, tokensOf, List.append_assoc]

end

mutual

theorem firstToken?_eq_head? : ∀ t : Tree, t.firstToken? = t.tokens.head?
  | .leaf _ => rfl
  | .node _ parts => first_eq_head? parts
  | .group parts => first_eq_head? parts

theorem first_eq_head? : ∀ ts : List Tree, firstToken?.first ts = (tokensOf ts).head?
  | [] => rfl
  | t :: more => by
    rw [firstToken?.first, firstToken?_eq_head? t, first_eq_head? more, tokensOf, List.head?_append]
    cases t.tokens.head? <;> rfl

end

theorem mem_tokensOf {t : Tree} {ts : List Tree} {k : Token} (listed : t ∈ ts)
    (member : k ∈ t.tokens) : k ∈ tokensOf ts := by
  obtain ⟨before, after, rfl⟩ := List.append_of_mem listed
  rw [tokensOf_append, tokensOf]
  exact List.mem_append_right _ (List.mem_append_left _ member)

/-- Trees with a comma before each. -/
def afterCommas (more : List (Token × Tree)) : List Tree := more.flatMap fun p => [.leaf p.1, p.2]

theorem filter_afterCommas (c : Construct) (more : List (Token × Tree))
    (nodes : ∀ p ∈ more, p.2.isNode c = true) :
    (afterCommas more).filter (·.isNode c) = more.map (·.2) := by
  induction more with
  | nil => rfl
  | cons p more ih =>
    obtain ⟨here, there⟩ := List.forall_mem_cons.mp nodes
    have leaf : (Tree.leaf p.1).isNode c = false := rfl
    rw [afterCommas, List.flatMap_cons, ← afterCommas, List.filter_append, ih there]
    simp [leaf, here]

end Tree

namespace Grammar

variable {g : Grammar}

theorem derives_kept {c : Construct} {ts : List Tree} (kept : c ∉ g.inlined)
    (derives : g.Derives (.construct c) ts) : ∃ parts, ts = [.node c parts] := by
  cases derives with
  | construct _ _ _ => exact ⟨_, rfl⟩
  | inlined _ given _ => exact absurd given kept

theorem eq_node_of_derives {c : Construct} {t : Tree} (kept : c ∉ g.inlined)
    (derives : g.Derives (.construct c) [t]) : ∃ parts, t = .node c parts := by
  obtain ⟨parts, same⟩ := derives_kept kept derives
  exact ⟨parts, (List.cons.inj same).1⟩

theorem node_of_derives {c : Construct} {r : Rule} {t : Tree} (given : g.rule? c = some r)
    (kept : c ∉ g.inlined) (derives : g.Derives (.construct c) [t]) :
    ∃ parts, t = .node c parts ∧ g.Derives r parts := by
  obtain ⟨parts, inside, same⟩ := (derives_construct _ c r given kept _).mp derives
  exact ⟨parts, (List.cons.inj same).1, inside⟩

theorem derives_ranked {rank : Option Rank} {side : Option Side} {r : Rule} {ts : List Tree}
    (derives : g.Derives (.ranked rank side r) ts) : g.Derives r ts := by
  cases derives with
  | ranked inside => exact inside

open Rule

theorem exists_of_derives_oneOf {r : Rule} {rs : List Rule} {ts : List Tree}
    (derives : g.Derives (oneOf (r :: rs)) ts) : ∃ x ∈ r :: rs, g.Derives x ts := by
  induction rs generalizing r with
  | nil => exact ⟨r, List.mem_singleton_self r, derives⟩
  | cons second rs ih =>
    rcases (g.derives_choice _ _ _).mp derives with here | there
    · exact ⟨r, List.mem_cons_self, here⟩
    · obtain ⟨x, member, inside⟩ := ih there
      exact ⟨x, List.mem_cons_of_mem r member, inside⟩

theorem derives_many {c : Construct} {ts : List Tree} (kept : c ∉ g.inlined)
    (derives : g.Derives (many c) ts) :
    ∃ us : List Tree, (∀ u ∈ us, g.Derives (.construct c) [u]) ∧
      ∀ others, Tree.ungroupAll ts others = us ++ others := by
  rcases (g.derives_optional _ _).mp derives with repeated | rfl
  · clear derives
    generalize whole : Rule.repetition (.construct c) = rule at repeated
    induction repeated with
    | once inside _ =>
      obtain rfl := Rule.repetition.inj whole
      obtain ⟨parts, rfl⟩ := derives_kept kept inside
      exact ⟨[.node c parts], by simpa using inside, fun others => rfl⟩
    | again _ _ first next =>
      obtain ⟨ts, each₁, parts₁⟩ := first whole
      obtain ⟨us, each₂, parts₂⟩ := next whole
      refine ⟨ts ++ us, ?_, ?_⟩
      · intro u member
        exact (List.mem_append.mp member).elim (each₁ u) (each₂ u)
      · intro others
        simp only [Tree.ungroupAll, Tree.ungroup] at parts₁ parts₂ ⊢
        rw [parts₁, parts₂, List.append_assoc]
    | _ => cases whole
  · exact ⟨[], by simp, fun others => rfl⟩

theorem derives_commas {c : Construct} {ts : List Tree} (kept : c ∉ g.inlined)
    (derives : g.Derives (.repetition (seq [",", c])) ts) :
    ∃ more : List (Token × Tree),
      (∀ p ∈ more, p.1.terminal = .literal "," ∧ g.Derives (.construct c) [p.2]) ∧
      ∀ others, Tree.ungroupAll ts others = Tree.afterCommas more ++ others := by
  generalize whole : Rule.repetition (seq [",", c]) = rule at derives
  induction derives with
  | once inside _ =>
    obtain rfl := Rule.repetition.inj whole
    simp only [seq, derives_sequence, derives_terminal] at inside
    obtain ⟨_, _, ⟨k, comma, rfl⟩, item, rfl⟩ := inside
    obtain ⟨parts, rfl⟩ := derives_kept kept item
    refine ⟨[(k, .node c parts)], by simpa using ⟨comma, item⟩, ?_⟩
    intro others
    rfl
  | again _ _ first next =>
    obtain ⟨ts, each₁, parts₁⟩ := first whole
    obtain ⟨us, each₂, parts₂⟩ := next whole
    refine ⟨ts ++ us, ?_, ?_⟩
    · intro p member
      rcases List.mem_append.mp member with here | there
      · exact each₁ p here
      · exact each₂ p there
    · intro others
      simp only [Tree.ungroupAll, Tree.ungroup] at parts₁ parts₂ ⊢
      rw [parts₁, parts₂, Tree.afterCommas, Tree.afterCommas, Tree.afterCommas, List.flatMap_append,
        List.append_assoc]
  | _ => cases whole

theorem derives_listed {c : Construct} {ts : List Tree} (kept : c ∉ g.inlined)
    (derives : g.Derives (Rule.listed c) ts) :
    ∃ (first : Tree) (more : List (Token × Tree)), g.Derives (.construct c) [first] ∧
      (∀ p ∈ more, p.1.terminal = .literal "," ∧ g.Derives (.construct c) [p.2]) ∧
      ∀ others, Tree.ungroupAll ts others = first :: (Tree.afterCommas more ++ others) := by
  obtain ⟨_, rest, item, tail, rfl⟩ := (g.derives_sequence _ _ _).mp derives
  obtain ⟨parts, rfl⟩ := derives_kept kept item
  rcases (g.derives_optional _ _).mp tail with repeated | rfl
  · obtain ⟨more, each, ungrouped⟩ := derives_commas kept repeated
    refine ⟨_, more, item, each, ?_⟩
    intro others
    exact congrArg _ (ungrouped others)
  · exact ⟨_, [], item, by simp, fun others => rfl⟩

end Grammar

/- In an expression, and in almost everything else, a comma or a semicolon stands between brackets.
This is checked rule by rule, given the constructs that always have a bracket and those that may
have a bare separator. -/

def Terminal.opening : List Terminal :=
  ["(", "[", "\x7b", "\x7b|", "$\x7b", "<", "\x60"].map .literal

def Terminal.separating : List Terminal := [",", ";"].map .literal

namespace Rule

def isBracketed (sure : Construct → Bool) : Rule → Bool
  | .terminal a => Terminal.opening.contains a
  | .construct c => sure c
  | .blank => false
  | .sequence a b => isBracketed sure a || isBracketed sure b
  | .choice a b => isBracketed sure a && isBracketed sure b
  | .repetition body | .ranked _ _ body => isBracketed sure body

def isGuarded (sure bare : Construct → Bool) : Rule → Bool
  | .terminal a => !Terminal.separating.contains a
  | .construct c => !bare c
  | .blank => true
  | .sequence a b =>
    isGuarded sure bare a && isGuarded sure bare b || (isBracketed sure a || isBracketed sure b)
  | .choice a b => isGuarded sure bare a && isGuarded sure bare b
  | .repetition body | .ranked _ _ body => isGuarded sure bare body

end Rule

def Token.Occurs (terminals : List Terminal) (ts : List Tree) : Prop :=
  ∃ k ∈ Tree.tokensOf ts, k.terminal ∈ terminals

theorem Token.occurs_append (terminals : List Terminal) (ts us : List Tree) :
    Occurs terminals (ts ++ us) ↔ Occurs terminals ts ∨ Occurs terminals us := by
  simp only [Occurs, Tree.tokensOf_append, List.mem_append]
  constructor
  · rintro ⟨k, here | there, listed⟩
    · exact .inl ⟨k, here, listed⟩
    · exact .inr ⟨k, there, listed⟩
  · rintro (⟨k, here, listed⟩ | ⟨k, there, listed⟩)
    · exact ⟨k, .inl here, listed⟩
    · exact ⟨k, .inr there, listed⟩

theorem Token.occurs_wrapped (terminals : List Terminal) (t : Tree) (parts : List Tree)
    (same : t.tokens = Tree.tokensOf parts) : Occurs terminals [t] ↔ Occurs terminals parts := by
  rw [Occurs, Occurs, Tree.tokensOf_singleton, same]

namespace Grammar

open Token

structure Brackets (g : Grammar) (sure bare : Construct → Bool) : Prop where
  bracketed : ∀ d ∈ g.definitions, sure d.construct = true → d.rule.isBracketed sure = true
  guarded : ∀ d ∈ g.definitions, bare d.construct = false → d.rule.isGuarded sure bare = true

variable {g : Grammar} {sure bare : Construct → Bool}

theorem mem_of_rule? {c : Construct} {r : Rule} (defined : g.rule? c = some r) :
    ⟨c, r⟩ ∈ g.definitions := by
  obtain ⟨d, found, rfl⟩ := Option.map_eq_some_iff.mp defined
  have same : d.construct = c := by simpa using List.find?_some found
  subst same
  exact List.mem_of_find?_eq_some found

theorem Brackets.occurs_opening (brackets : g.Brackets sure bare) {r : Rule} {ts : List Tree}
    (derives : g.Derives r ts) (bracketed : r.isBracketed sure = true) :
    Occurs Terminal.opening ts := by
  induction derives with
  | terminal k => exact ⟨k, List.mem_singleton_self k, by simpa [Rule.isBracketed] using bracketed⟩
  | construct defined _ _ ih =>
    rw [occurs_wrapped _ _ _ rfl]
    exact ih (brackets.bracketed _ (mem_of_rule? defined) bracketed)
  | inlined defined _ _ ih => exact ih (brackets.bracketed _ (mem_of_rule? defined) bracketed)
  | blank => simp [Rule.isBracketed] at bracketed
  | sequence _ _ first next =>
    simp only [Rule.isBracketed, Bool.or_eq_true] at bracketed
    exact (occurs_append _ _ _).mpr (bracketed.imp first next)
  | left _ ih =>
    simp only [Rule.isBracketed, Bool.and_eq_true] at bracketed
    exact ih bracketed.1
  | right _ ih =>
    simp only [Rule.isBracketed, Bool.and_eq_true] at bracketed
    exact ih bracketed.2
  | once _ ih => exact (occurs_wrapped _ _ _ rfl).mpr (ih bracketed)
  | again _ _ first _ =>
    exact (occurs_wrapped _ _ _ rfl).mpr ((occurs_append _ [_] [_]).mpr (.inl (first bracketed)))
  | ranked _ ih => exact ih bracketed

theorem Brackets.opening_of_separating (brackets : g.Brackets sure bare) {r : Rule} {ts : List Tree}
    (derives : g.Derives r ts) (guarded : r.isGuarded sure bare = true)
    (separated : Occurs Terminal.separating ts) : Occurs Terminal.opening ts := by
  induction derives with
  | terminal k =>
    obtain ⟨l, member, listed⟩ := separated
    rw [List.mem_singleton.mp member] at listed
    simp [Rule.isGuarded, listed] at guarded
  | construct defined _ _ ih =>
    rw [occurs_wrapped _ _ _ rfl] at separated ⊢
    exact ih (brackets.guarded _ (mem_of_rule? defined) (by simpa [Rule.isGuarded] using guarded))
      separated
  | inlined defined _ _ ih =>
    exact ih (brackets.guarded _ (mem_of_rule? defined) (by simpa [Rule.isGuarded] using guarded))
      separated
  | blank =>
    obtain ⟨k, member, -⟩ := separated
    cases member
  | sequence front back first next =>
    simp only [Rule.isGuarded, Bool.or_eq_true, Bool.and_eq_true] at guarded
    rw [occurs_append] at separated ⊢
    rcases guarded with ⟨guarded₁, guarded₂⟩ | bracketed
    · exact separated.imp (first guarded₁) (next guarded₂)
    · exact bracketed.imp (brackets.occurs_opening front) (brackets.occurs_opening back)
  | left _ ih =>
    simp only [Rule.isGuarded, Bool.and_eq_true] at guarded
    exact ih guarded.1 separated
  | right _ ih =>
    simp only [Rule.isGuarded, Bool.and_eq_true] at guarded
    exact ih guarded.2 separated
  | once _ ih =>
    rw [occurs_wrapped _ _ _ rfl] at separated ⊢
    exact ih guarded separated
  | again _ _ first next =>
    rw [occurs_wrapped _ _ _ rfl, ← List.singleton_append, occurs_append] at separated ⊢
    exact separated.imp (first guarded) (next guarded)
  | ranked _ ih => exact ih guarded separated

end Grammar

namespace Dialect

def hasBracket : Construct → Bool
  | .classBody | .destructuringPattern | .objectPattern | .arrayPattern => true
  | _ => false

def hasBareSeparator : Construct → Bool
  | .program | .statement | .declaration | .expressionStatement | .variableDeclaration
  | .lexicalDeclaration | .ifStatement | .elseClause | .switchCase | .switchDefault
  | .forInStatement | .whileStatement | .doStatement | .withStatement | .breakStatement
  | .continueStatement | .debuggerStatement | .returnStatement | .throwStatement | .emptyStatement
  | .labeledStatement | .statementEnd | .exportStatement | .importStatement | .importClause
  | .expressions | .sequenceExpression | .classHeritage | .importAlias | .ambientDeclaration
  | .interfaceDeclaration | .extendsTypeClause | .typeAliasDeclaration | .functionSignature
  | .extendsClause | .implementsClause => true
  | _ => false

theorem mem_definitions (d : Dialect) (e : Definition) (member : e ∈ d.grammar.definitions) :
    e ∈ Grammar.Plain.definitions ∨ e ∈ d.changes := by
  have overridden (definitions changes : List Definition)
      (member : e ∈ Grammar.override definitions changes) : e ∈ definitions ∨ e ∈ changes := by
    rcases List.mem_append.mp member with replaced | added
    · obtain ⟨old, here, rfl⟩ := List.mem_map.mp replaced
      cases found : changes.find? (·.construct = old.construct) with
      | none => exact .inl here
      | some new => exact .inr (List.mem_of_find?_eq_some found)
    · exact .inr (List.mem_filter.mp added).1
  cases d with
  | plain => exact .inl member
  | typed => exact overridden _ _ member
  | typedMarkup => exact overridden _ _ member

/-- Do the lists of constructs above fit to this definition? -/
def fits (e : Definition) : Bool :=
  (!hasBracket e.construct || e.rule.isBracketed hasBracket) &&
    (hasBareSeparator e.construct || e.rule.isGuarded hasBracket hasBareSeparator)

theorem fits_plain : ∀ e ∈ Grammar.Plain.definitions, fits e = true := by
  decide +kernel

theorem fits_changes : ∀ d : Dialect, ∀ e ∈ d.changes, fits e = true
  | .plain => by decide +kernel
  | .typed => by decide +kernel
  | .typedMarkup => by decide +kernel

theorem brackets (d : Dialect) : d.grammar.Brackets hasBracket hasBareSeparator := by
  have each (e : Definition) (member : e ∈ d.grammar.definitions) : fits e = true :=
    (d.mem_definitions e member).elim (fits_plain e) (fits_changes d e)
  constructor
  · intro e member sure
    simpa [sure] using (Bool.and_eq_true_iff.mp (each e member)).1
  · intro e member guarded
    simpa [guarded] using (Bool.and_eq_true_iff.mp (each e member)).2

end Dialect

end ImportUsage
