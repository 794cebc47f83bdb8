import ImportUsage.Automaton.Reader
import ImportUsage.Proofs.Grammar.Moved

/-! Runs of the automaton on one text at two places. A run looks at the text that remains and
compares offsets, but never looks at a line: if its start is moved, all that it comes to is moved
alike. -/

namespace ImportUsage

variable (k n : Nat)

theorem Tree.ofSymbol_moved (symbol : Option Symbol) (parts : List Tree) :
    ofSymbol symbol (parts.map (moved k n)) = (ofSymbol symbol parts).moved k n := by
  unfold ofSymbol
  split <;> rw [moved, movedAll_eq_map]

/-! Tokens that are read. -/

namespace Expectation

variable (e : Expectation)

theorem condition?_moved (p : Place) (i : Nat) :
    e.condition? (p.moved k n) i = (e.condition? p i).map (Token.moved k n) := by
  simp only [condition?, Place.advance_moved, Option.map_map]
  rfl

theorem ending?_moved (p : Place) :
    e.ending? (p.moved k n) = (e.ending? p).map (Token.moved k n) := by
  simp only [ending?, condition?_moved]
  have rest : (p.moved k n).rest = p.rest := rfl
  rw [rest]
  split
  · rfl
  · split <;> rfl

theorem special?_moved (p : Place) :
    e.special? (p.moved k n) = (e.special? p).map (Token.moved k n) := by
  have token (t : Terminal) (i : Nat) :
      special?.token? (p.moved k n) t i = (special?.token? p t i).map (Token.moved k n) := by
    unfold special?.token?
    split <;> rfl
  have rest : (p.moved k n).rest = p.rest := rfl
  simp only [special?, token, ending?_moved, condition?_moved, rest]
  cases e.expects .templateText with
  | true => cases e.expects .lineEnd <;> rfl
  | false =>
    simp only [Bool.false_eq_true, if_false]
    have text : (if e.expects .markupText then
        (special?.token? p .markupText (markupTextSize p.rest)).map (Token.moved k n) else none) =
        (if e.expects .markupText then special?.token? p .markupText (markupTextSize p.rest)
          else none).map (Token.moved k n) := by
      split <;> rfl
    rw [text]
    cases if e.expects .markupText then special?.token? p .markupText (markupTextSize p.rest)
      else none with
    | some t => rfl
    | none =>
      simp only [Option.map_none]
      split
      · rfl
      · split <;> rfl

theorem readWithin_moved (bound : Bound) (p : Place) :
    e.readWithin bound (p.moved k n) =
      ((e.readWithin bound p).mapError (Place.moved k n)).map (Token.moved k n) := by
  induction bound generalizing p with
  | nil => rfl
  | cons c bound ih =>
    have rest : (p.moved k n).rest = p.rest := rfl
    simp only [readWithin, special?_moved, rest]
    cases e.special? p with
    | some t => rfl
    | none =>
      simp only [Option.map_none]
      generalize (if e.expects .escape then escapeSize p.rest else 0) = escape
      cases escape with
      | succ i => rfl
      | zero =>
        simp only [ne_eq, not_true_eq_false, if_false]
        cases nextComment e.takesMarkupComments p.rest with
        | succ i =>
          simp only [Place.advance_moved]
          exact ih _
        | zero =>
          simp only [Place.advance_moved]
          generalize p.advance (sizeWhile isBlank p.rest) = q
          have after : (q.moved k n).rest = q.rest := rfl
          rw [after]
          cases q.rest.isEmpty with
          | true => rfl
          | false => cases e.longest? q.rest <;> rfl

end Expectation

/-! What a run holds. -/

mutual

def Stack.moved : Stack → Stack
  | .mk id state links => .mk id state (Stack.movedLinks links)

def Stack.movedLinks : List (Stack × Tree) → List (Stack × Tree)
  | [] => []
  | (below, tree) :: more => (Stack.moved below, tree.moved k n) :: Stack.movedLinks more

end

namespace Stack

theorem movedLinks_eq_map (links : List (Stack × Tree)) :
    movedLinks k n links = links.map (Prod.map (moved k n) (Tree.moved k n)) := by
  induction links with
  | nil => rw [movedLinks, List.map_nil]
  | cons link links ih =>
    obtain ⟨below, tree⟩ := link
    rw [movedLinks, ih, List.map_cons, Prod.map_apply]

@[simp] theorem id_moved (s : Stack) : (s.moved k n).id = s.id := by
  cases s
  rw [moved, id, id]

@[simp] theorem state_moved (s : Stack) : (s.moved k n).state = s.state := by
  cases s
  rw [moved, state, state]

theorem links_moved (s : Stack) :
    (s.moved k n).links = s.links.map (Prod.map (moved k n) (Tree.moved k n)) := by
  cases s
  rw [moved, links, links, movedLinks_eq_map]

theorem pop_moved (i : Nat) (s : Stack) (trees : List Tree) :
    (s.moved k n).pop i (trees.map (Tree.moved k n)) =
      (s.pop i trees).map (Prod.map (moved k n) (List.map (Tree.moved k n))) := by
  induction i generalizing s trees with
  | zero => simp [pop]
  | succ i ih =>
    simp only [pop, links_moved, List.flatMap_map, List.map_flatMap, Prod.map_fst, Prod.map_snd,
      ← List.map_cons, ih]

end Stack

def Arrival.moved (a : Arrival) : Arrival :=
  ⟨a.state, a.token.map (Token.moved k n), a.below.moved k n, a.tree.moved k n⟩

def Cell.moved (c : Cell) : Cell :=
  { c with
    token := c.token.moved k n
    links := c.links.map (Prod.map (Stack.moved k n) (Tree.moved k n)) }

def Failure.moved (f : Failure) : Failure :=
  ⟨f.place.moved k n, f.state, f.below.moved k n, f.tree.moved k n⟩

def Level.moved (l : Level) : Level where
  cells := l.cells.map (Cell.moved k n)
  fresh := l.fresh
  result := l.result.map (Tree.moved k n)
  failures := l.failures.map (Failure.moved k n)

/-! Steps of a run, and whole runs. -/

namespace Machine

variable (m : Machine)

theorem readToken_moved (s : State) (p : Place) :
    m.readToken s (p.moved k n) =
      ((m.readToken s p).mapError (Place.moved k n)).map (Token.moved k n) :=
  Expectation.readWithin_moved k n _ _ p

theorem actions_moved (s : State) (t : Token) :
    m.actions s (t.moved k n) = ((m.actions s t).1.moved k n, (m.actions s t).2) := by
  have keyword : (t.moved k n).isKeyword = t.isKeyword := rfl
  simp only [actions, keyword, Token.terminal_moved]
  split <;> rfl

theorem complete_moved (place : Nat) (token : Option Token) (below : Stack) (tree : Tree) :
    m.complete place (token.map (Token.moved k n)) (below.moved k n) (tree.moved k n) =
      (m.complete place token below tree).map (Arrival.moved k n) := by
  have popped := Stack.pop_moved k n (m.tables.dot.getD place 0 - 1) below [tree]
  rw [List.map_singleton] at popped
  simp only [complete, popped, List.map_map]
  apply List.map_congr_left
  rintro ⟨base, parts⟩ -
  simp only [Function.comp_apply, Prod.map_apply, Arrival.moved, Stack.state_moved,
    Tree.ofSymbol_moved]

theorem followUps_moved (c : Cell) (below : Stack) (tree : Tree) :
    m.followUps (c.moved k n) (below.moved k n) (tree.moved k n) =
      (m.followUps c below tree).map (Arrival.moved k n) := by
  have each (places : List Nat) :
      followUps.go m (c.moved k n) (below.moved k n) (tree.moved k n) places =
        (followUps.go m c below tree places).map (Arrival.moved k n) := by
    induction places with
    | nil => rfl
    | cons place more ih =>
      cases more with
      | nil =>
        have passed : (if (c.moved k n).actions.take then none else some (c.moved k n).token) =
            (if c.actions.take then none else some c.token).map (Token.moved k n) := by
          have same : (c.moved k n).actions = c.actions := rfl
          rw [same]
          split <;> rfl
        rw [followUps.go, followUps.go, passed, complete_moved]
      | cons second more =>
        have first := m.complete_moved k n place none below tree
        have step (c : Cell) (below : Stack) (tree : Tree) :
            followUps.go m c below tree (place :: second :: more) =
              m.complete place none below tree ++ followUps.go m c below tree (second :: more) := rfl
        rw [step, step, ih, List.map_append, ← first]
        rfl
  exact each c.actions.complete

theorem tokenAt_moved (p : Place) (a : Arrival) :
    m.tokenAt (p.moved k n) (a.moved k n) =
      ((m.tokenAt p a).mapError (Place.moved k n)).map (Token.moved k n) := by
  obtain ⟨state, token, below, tree⟩ := a
  cases token with
  | some t => rfl
  | none => exact m.readToken_moved k n state p

theorem find?_moved (cells : List Cell) (t : Token) (s : State) :
    (cells.map (Cell.moved k n)).find? (fun c => c.token.same (t.moved k n) && c.state = s) =
      (cells.find? fun c => c.token.same t && c.state = s).map (Cell.moved k n) := by
  have alike : (fun c : Cell => c.token.same (t.moved k n) && c.state = s) ∘ Cell.moved k n =
      fun c => c.token.same t && c.state = s := by
    funext c
    change ((c.token.moved k n).same (t.moved k n) && _) = _
    rw [Token.same_moved]
    rfl
  rw [List.find?_map, alike]

theorem enter_moved (a : Arrival) (t : Token) (actions : Tables.Actions) (level : Level) :
    m.enter (a.moved k n) (t.moved k n) actions (level.moved k n) =
      (m.enter a t actions level).map (List.map (Arrival.moved k n)) (Level.moved k n) := by
  have cells : (level.moved k n).cells = level.cells.map (Cell.moved k n) := rfl
  have state : (a.moved k n).state = a.state := rfl
  rw [enter, enter, cells, state, find?_moved]
  cases level.cells.find? fun c => c.token.same t && c.state = a.state with
  | none =>
    have follow := m.followUps_moved k n ⟨level.fresh, a.state, t, actions, [(a.below, a.tree)]⟩
      a.below a.tree
    exact congrArg (Prod.mk · _) follow
  | some cell =>
    have known : (cell.moved k n).links.any (·.1.id = (a.moved k n).below.id) =
        cell.links.any (·.1.id = a.below.id) := by
      simp [Cell.moved, Arrival.moved, List.any_map, Function.comp_def]
    simp only [Option.map_some, known]
    split
    · rfl
    · have grown : { cell.moved k n with
          links := (cell.moved k n).links ++ [((a.moved k n).below, (a.moved k n).tree)] } =
            Cell.moved k n { cell with links := cell.links ++ [(a.below, a.tree)] } := by
        simp [Cell.moved, Arrival.moved]
      have others : (level.cells.map (Cell.moved k n)).map (fun c =>
          if c.id = (cell.moved k n).id then
            Cell.moved k n { cell with links := cell.links ++ [(a.below, a.tree)] } else c) =
          (level.cells.map fun c => if c.id = cell.id then
            { cell with links := cell.links ++ [(a.below, a.tree)] } else c).map (Cell.moved k n) := by
        simp only [List.map_map]
        apply List.map_congr_left
        intro c _
        simp only [Function.comp_apply, apply_ite (Cell.moved k n)]
        rfl
      rw [grown, others]
      exact congrArg (Prod.mk · _) (m.followUps_moved k n cell a.below a.tree)

theorem arrive_moved (p : Place) (a : Arrival) (level : Level) :
    m.arrive (p.moved k n) (a.moved k n) (level.moved k n) =
      (m.arrive p a level).map (List.map (Arrival.moved k n)) (Level.moved k n) := by
  rw [arrive, arrive, tokenAt_moved]
  cases m.tokenAt p a with
  | error place => rfl
  | ok token =>
    have state : (a.moved k n).state = a.state := rfl
    have read : ((Except.ok token).mapError (Place.moved k n)).map (Token.moved k n) =
        .ok (token.moved k n) := rfl
    simp only [read, state, actions_moved]
    generalize m.actions a.state token = before
    obtain ⟨t, actions⟩ := before
    dsimp only
    split
    · rfl
    · split
      · obtain ⟨cells, fresh, result, failures⟩ := level
        cases result <;> rfl
      · exact m.enter_moved k n a t actions level

theorem saturate_moved (p : Place) (fuel : Nat) (todo : List Arrival) (level : Level) :
    m.saturate (p.moved k n) fuel (todo.map (Arrival.moved k n)) (level.moved k n) =
      (m.saturate p fuel todo level).moved k n := by
  induction fuel generalizing todo level with
  | zero => rfl
  | succ fuel ih =>
    cases todo with
    | nil => rfl
    | cons a todo =>
      simp only [List.map_cons, saturate, arrive_moved, Prod.map_fst, Prod.map_snd,
        ← List.map_append, ih]

theorem taken_moved (cells : List Cell) :
    m.taken (cells.map (Cell.moved k n)) =
      (m.taken cells).map (Prod.map (Place.moved k n) (Arrival.moved k n)) := by
  have kept : ((·.actions.take) ∘ Cell.moved k n) = (·.actions.take) := rfl
  simp only [taken, List.filter_map, kept, List.map_map]
  apply List.map_congr_left
  intro c _
  simp only [Function.comp_apply, Prod.map_apply, Cell.moved, Token.stop_moved, Arrival.moved,
    Token.terminal_moved, Option.map_none, Tree.moved, Stack.moved, Stack.movedLinks_eq_map]

theorem foremost_moved (front : List (Place × Arrival)) :
    foremost (front.map (Prod.map (Place.moved k n) (Arrival.moved k n))) =
      (foremost front).map (Place.moved k n) := by
  induction front with
  | nil => rfl
  | cons first more ih =>
    obtain ⟨p, a⟩ := first
    rw [List.map_cons, Prod.map_apply, foremost, foremost, ih]
    cases foremost more with
    | none => rfl
    | some q =>
      simp only [Option.map_some, Place.moved, Nat.add_lt_add_iff_right]
      split <;> rfl

theorem follow_moved (steps fuel fresh : Nat) (failures : List Failure)
    (front : List (Place × Arrival)) :
    m.follow steps fuel fresh (failures.map (Failure.moved k n))
        (front.map (Prod.map (Place.moved k n) (Arrival.moved k n))) =
      ((m.follow steps fuel fresh failures front).mapError (List.map (Failure.moved k n))).map
        (Tree.moved k n) := by
  induction fuel generalizing fresh failures front with
  | zero => rfl
  | succ fuel ih =>
    rw [follow, follow, foremost_moved]
    cases foremost front with
    | none => rfl
    | some p =>
      have here : ((front.map (Prod.map (Place.moved k n) (Arrival.moved k n))).filter
          (·.1.offset = (p.moved k n).offset)).map (·.2) =
            ((front.filter (·.1.offset = p.offset)).map (·.2)).map (Arrival.moved k n) := by
        simp [List.filter_map, Function.comp_def, Place.moved]
      have later : (front.map (Prod.map (Place.moved k n) (Arrival.moved k n))).filter
          (·.1.offset ≠ (p.moved k n).offset) = (front.filter (·.1.offset ≠ p.offset)).map
            (Prod.map (Place.moved k n) (Arrival.moved k n)) := by
        simp [List.filter_map, Function.comp_def, Place.moved]
      have reached (arrivals : List Arrival) :
          m.saturate (p.moved k n) steps (arrivals.map (Arrival.moved k n)) ⟨[], fresh, none, []⟩ =
            (m.saturate p steps arrivals ⟨[], fresh, none, []⟩).moved k n :=
        m.saturate_moved k n p steps arrivals ⟨[], fresh, none, []⟩
      simp only [Option.map_some, here, later, reached]
      generalize m.saturate p steps ((front.filter (·.1.offset = p.offset)).map (·.2))
        ⟨[], fresh, none, []⟩ = level
      obtain ⟨cells, fresh, result, found⟩ := level
      cases result with
      | some tree => rfl
      | none =>
        simp only [Level.moved, Option.map_none, taken_moved, ← List.map_append]
        cases found with
        | nil => exact ih fresh failures _
        | cons f found => exact ih fresh (f :: found) _

/-- A run from a place that is moved comes to the same tree, moved alike. -/
theorem run_moved (p : Place) :
    m.run (p.moved k n) =
      ((m.run p).mapError (List.map (Failure.moved k n))).map (Tree.moved k n) := by
  have rest : (p.moved k n).rest = p.rest := rfl
  simp only [run, readToken_moved, rest]
  cases m.readToken m.tables.start p with
  | error q => rfl
  | ok token =>
    have read : ((Except.ok token).mapError (Place.moved k n)).map (Token.moved k n) =
        .ok (token.moved k n) := rfl
    simp only [read, actions_moved]
    generalize m.actions m.tables.start token = before
    obtain ⟨t, actions⟩ := before
    dsimp only
    split
    · have first := m.taken_moved k n [⟨0, m.tables.start, t, actions, []⟩]
      exact (congrArg _ first).trans (m.follow_moved k n _ _ 1 [] _)
    · rfl

end Machine

end ImportUsage
