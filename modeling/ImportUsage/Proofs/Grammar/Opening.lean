import ImportUsage.Proofs.Grammar.Tokens

/-! How the trees of a grammar begin. A finite automaton tells an import that binds names and an
export from all else by their first tokens. The moves that a construct can make it take are listed,
and the list is checked rule by rule. -/

namespace ImportUsage

/-- What the tokens so far are the beginning of. -/
inductive Opening
  | nothing
  /-- The word `import`. -/
  | word
  /-- The word `import` and a name. -/
  | named
  | imports
  | exports
deriving DecidableEq

namespace Opening

def all : List Opening := [nothing, word, named, imports, exports]

theorem mem_all (q : Opening) : q ∈ all := by
  cases q <;> decide

/-- The end of a statement that needs no semicolon is not written, and so it changes nothing. -/
def step : Opening → Terminal → Option Opening
  | q, .lineEnd => some q
  | imports, _ => some imports
  | exports, _ => some exports
  | nothing, .literal s =>
    if s = "import" then some word else if s = "export" then some exports else none
  | word, .name => some named
  | word, .string => some imports
  | word, .literal s => if s = "\x7b" || s = "*" then some imports else none
  | named, .literal s => if s = "," || s = "from" then some imports else none
  | _, _ => none

def run : Opening → List Token → Option Opening
  | q, [] => some q
  | q, k :: ks => (q.step k.terminal).bind (run · ks)

theorem run_append (q : Opening) (ks ms : List Token) :
    q.run (ks ++ ms) = (q.run ks).bind (run · ms) := by
  induction ks generalizing q with
  | nil => rfl
  | cons k ks ih =>
    rw [List.cons_append, run, run]
    cases q.step k.terminal with
    | none => rfl
    | some next => exact ih next

abbrev Moves := List (Opening × Opening)

def Moves.compose (a b : Moves) : Moves :=
  (a.flatMap fun m => (b.filter (·.1 = m.2)).map fun n => (m.1, n.2)).eraseDups

theorem Moves.mem_compose {a b : Moves} {q r s : Opening} (first : (q, r) ∈ a)
    (next : (r, s) ∈ b) : (q, s) ∈ a.compose b := by
  rw [compose, List.mem_eraseDups, List.mem_flatMap]
  exact ⟨(q, r), first, List.mem_map.mpr ⟨(r, s), List.mem_filter.mpr ⟨next, by simp⟩, rfl⟩⟩

end Opening

open Opening (Moves)

namespace Rule

variable (leaves : Construct → Moves)

/-- The moves that trees of a rule can make the automaton take. -/
def moves : Rule → Moves
  | .terminal a => Opening.all.filterMap fun q => (q.step a).map (q, ·)
  | .construct c => leaves c
  | .blank => Opening.all.map fun q => (q, q)
  | .sequence a b => (moves a).compose (moves b)
  | .choice a b => (moves a ++ moves b).eraseDups
  | .repetition body | .ranked _ _ body => moves body

/-- Does no repetition in the rule make more moves than what it repeats? -/
def isSettled : Rule → Bool
  | .repetition body =>
    ((body.moves leaves).compose (body.moves leaves)).all (body.moves leaves).contains &&
      isSettled body
  | .sequence a b | .choice a b => isSettled a && isSettled b
  | .ranked _ _ body => isSettled body
  | _ => true

end Rule

namespace Grammar

variable {g : Grammar} {leaves : Construct → Moves}

/-- The moves of each construct are those of its rule, or more. -/
def Opens (g : Grammar) (leaves : Construct → Moves) : Prop :=
  ∀ d ∈ g.definitions, d.rule.moves leaves ⊆ leaves d.construct ∧ d.rule.isSettled leaves = true

theorem Opens.mem_moves (opens : g.Opens leaves) {r : Rule} {ts : List Tree}
    (derives : g.Derives r ts) (settled : r.isSettled leaves = true) {q s : Opening}
    (run : q.run (Tree.tokensOf ts) = some s) : (q, s) ∈ r.moves leaves := by
  induction derives generalizing q s with
  | terminal k =>
    rw [Tree.tokensOf_singleton, Tree.tokens, Opening.run, Option.bind_eq_some_iff] at run
    obtain ⟨next, step, rest⟩ := run
    cases rest
    exact List.mem_filterMap.mpr ⟨q, q.mem_all, by rw [step]; rfl⟩
  | construct defined _ _ ih =>
    obtain ⟨listed, inside⟩ := opens _ (mem_of_rule? defined)
    rw [Tree.tokensOf_singleton] at run
    exact listed (ih inside run)
  | inlined defined _ _ ih =>
    obtain ⟨listed, inside⟩ := opens _ (mem_of_rule? defined)
    exact listed (ih inside run)
  | blank =>
    cases run
    exact List.mem_map.mpr ⟨q, q.mem_all, rfl⟩
  | sequence _ _ first next =>
    obtain ⟨here, there⟩ := Bool.and_eq_true_iff.mp settled
    rw [Tree.tokensOf_append, Opening.run_append, Option.bind_eq_some_iff] at run
    obtain ⟨m, before, after⟩ := run
    exact Moves.mem_compose (first here before) (next there after)
  | left _ ih =>
    rw [Rule.moves, List.mem_eraseDups]
    exact List.mem_append_left _ (ih (Bool.and_eq_true_iff.mp settled).1 run)
  | right _ ih =>
    rw [Rule.moves, List.mem_eraseDups]
    exact List.mem_append_right _ (ih (Bool.and_eq_true_iff.mp settled).2 run)
  | once _ ih =>
    rw [Tree.tokensOf_singleton] at run
    exact ih (Bool.and_eq_true_iff.mp settled).2 run
  | again _ _ first next =>
    rw [Tree.tokensOf_singleton, Tree.tokens, ← List.singleton_append, Tree.tokensOf_append,
      Opening.run_append, Option.bind_eq_some_iff] at run
    obtain ⟨m, before, after⟩ := run
    have twice := Moves.mem_compose (first settled before) (next settled after)
    have closed := List.all_eq_true.mp (Bool.and_eq_true_iff.mp settled).1 _ twice
    simpa [Rule.moves] using closed
  | ranked _ ih => exact ih settled run

end Grammar

namespace Dialect

open Opening in
/-- Imports are statements of their own. An export may be an expression, but not a declaration. -/
def openings (c : Construct) : Moves :=
  (imports, imports) :: (exports, exports) ::
    match c with
    | .statementEnd => [(nothing, nothing), (word, word), (named, named)]
    | .importWord => [(nothing, word)]
    | .fromClause => [(named, imports)]
    | .importStatement => [(nothing, imports)]
    | .program | .statement =>
      [(nothing, imports), (nothing, exports), (word, named), (word, imports)]
    | .arguments | .typeArguments | .optionalChain | .importRequire | .decorator | .declaration
    | .functionDeclaration | .generatorDeclaration | .classDeclaration | .lexicalDeclaration
    | .variableDeclaration | .functionSignature | .abstractClassDeclaration | .moduleDeclaration
    | .namespaceDeclaration | .typeAliasDeclaration | .enumDeclaration | .interfaceDeclaration
    | .importAlias | .ambientDeclaration => []
    | _ => [(nothing, exports), (word, named), (word, imports)]

/-- Does the list of moves fit to this definition? -/
def opensAs (e : Definition) : Bool :=
  (e.rule.moves openings).all (openings e.construct).contains && e.rule.isSettled openings

theorem opensAs_plain : ∀ e ∈ Grammar.Plain.definitions, opensAs e = true := by
  decide +kernel

theorem opensAs_changes : ∀ d : Dialect, ∀ e ∈ d.changes, opensAs e = true
  | .plain => by decide +kernel
  | .typed => by decide +kernel
  | .typedMarkup => by decide +kernel

theorem opens (d : Dialect) : d.grammar.Opens openings := by
  intro e member
  have fits : opensAs e = true :=
    (d.mem_definitions e member).elim (opensAs_plain e) (opensAs_changes d e)
  obtain ⟨listed, settled⟩ := Bool.and_eq_true_iff.mp fits
  refine ⟨fun m here => ?_, settled⟩
  simpa using List.all_eq_true.mp listed m here

end Dialect

end ImportUsage
