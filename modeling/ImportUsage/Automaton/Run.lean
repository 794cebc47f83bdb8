import ImportUsage.Automaton.Action
import ImportUsage.Automaton.Tree
import ImportUsage.Grammar.Typed

/-! Runs of the automaton. All readings of a text are followed side by side. They share what they
have in common: a stack is a graph, and readings that come to the same state before the same token
are one from there on. -/

namespace ImportUsage

/-- A state that a run has come to, with the ways it came: for each the stack before, and the tree
of what was read since. -/
inductive Stack
  | mk (id : Nat) (state : State) (links : List (Stack × Tree))

namespace Stack

def id : Stack → Nat
  | mk id _ _ => id

def state : Stack → State
  | mk _ state _ => state

def links : Stack → List (Stack × Tree)
  | mk _ _ links => links

/-- The ways to take `n` trees off a stack. The trees are put in front of `trees`. -/
def pop : Nat → Stack → List Tree → List (Stack × List Tree)
  | 0, s, trees => [(s, trees)]
  | n + 1, s, trees => s.links.flatMap fun (below, tree) => pop n below (tree :: trees)

/-- The trees on a stack from the bottom on, by its first links, in front of `trees`. At most `n`
trees are taken. -/
def trees : Nat → Stack → List Tree → List Tree
  | 0, _, trees => trees
  | n + 1, s, trees =>
    match s.links with
    | [] => trees
    | (below, tree) :: _ => Stack.trees n below (tree :: trees)

end Stack

/-- A step to a state: from a stack, over a tree. The token before which the state stands is known
or has to be read there. -/
structure Arrival where
  state : State
  token : Option Token
  below : Stack
  tree : Tree

/-- A state before a token, with the ways to it found so far. -/
structure Cell where
  id : Nat
  state : State
  token : Token
  actions : Tables.Actions
  links : List (Stack × Tree)

structure Failure where
  /-- The place of the token that does not fit. -/
  place : Place
  state : State
  /-- The trees read so far are those on the stack and this one. -/
  below : Stack
  tree : Tree

structure Level where
  cells : List Cell
  fresh : Nat
  /-- The whole text, if it is read. -/
  result : Option Tree
  failures : List Failure

structure Machine where
  dialect : Dialect
  tables : Tables

namespace Machine

def number (m : Machine) (t : Terminal) : Nat :=
  m.tables.numbers.getD (.terminal t) m.tables.symbols.size

def readToken (m : Machine) (s : State) (p : Place) : Except Place Token :=
  Expectation.read ⟨m.dialect, m.tables.marks, m.tables.expects s⟩ p

/-- What to do before a token. A keyword that does not fit may be a name. -/
def actions (m : Machine) (s : State) (t : Token) : Token × Tables.Actions :=
  let first := m.tables.actions s (m.number t.terminal)
  if first.complete.isEmpty && !first.take && t.isKeyword then
    ({ t with terminal := .name }, m.tables.actions s (m.number .name))
  else (t, first)

/-- Completes the production that ends at `place`, for a state reached from `below` over `tree`.
The token is passed on if it is known to be the same after the completion. -/
def complete (m : Machine) (place : Nat) (token : Option Token) (below : Stack) (tree : Tree) :
    List Arrival :=
  let head := m.tables.head.getD place 0
  let size := m.tables.dot.getD place 0
  (below.pop (size - 1) [tree]).map fun (base, parts) =>
    ⟨m.tables.advance base.state head, token, base, .ofSymbol m.tables.symbols[head]? parts⟩

/-- The arrivals that follow from a new way to a cell. Of several completions only the last one
passes the token on, and none does where the token may be taken too. -/
def followUps (m : Machine) (c : Cell) (below : Stack) (tree : Tree) : List Arrival :=
  go c.actions.complete
where
  go : List Nat → List Arrival
    | [] => []
    | [place] =>
      m.complete place (if c.actions.take then none else some c.token) below tree
    | place :: more => m.complete place none below tree ++ go more

def isWhole (places : List Nat) : Bool := places.contains 1

def tokenAt (m : Machine) (p : Place) (a : Arrival) : Except Place Token :=
  match a.token with
  | some t => .ok t
  | none => m.readToken a.state p

/-- Adds an arrival before a token to the cells. What follows from it is new only if the way is. -/
def enter (m : Machine) (a : Arrival) (token : Token) (actions : Tables.Actions) (level : Level) :
    List Arrival × Level :=
  match level.cells.find? fun c => c.token.same token && c.state = a.state with
  | none =>
    let cell : Cell := ⟨level.fresh, a.state, token, actions, [(a.below, a.tree)]⟩
    (m.followUps cell a.below a.tree,
      { level with cells := cell :: level.cells, fresh := level.fresh + 1 })
  | some cell =>
    if cell.links.any (·.1.id = a.below.id) then ([], level)
    else
      let grown := { cell with links := cell.links ++ [(a.below, a.tree)] }
      (m.followUps cell a.below a.tree,
        { level with cells := level.cells.map fun c => if c.id = cell.id then grown else c })

/-- Handles an arrival at a place of the text: the arrivals that follow at this place, and what the
run has come to there. -/
def arrive (m : Machine) (p : Place) (a : Arrival) (level : Level) : List Arrival × Level :=
  match m.tokenAt p a with
  | .error place =>
    ([], { level with failures := ⟨place, a.state, a.below, a.tree⟩ :: level.failures })
  | .ok token =>
    let (token, actions) := m.actions a.state token
    if actions.complete.isEmpty && !actions.take then
      ([], { level with failures := ⟨token.start, a.state, a.below, a.tree⟩ :: level.failures })
    else if isWhole actions.complete then
      ([], { level with result := level.result <|> some a.tree })
    else m.enter a token actions level

/-- Handles arrivals at a place of the text until nothing new follows, within a number of steps. -/
def saturate (m : Machine) (p : Place) : Nat → List Arrival → Level → Level
  | 0, _, level => level
  | _ + 1, [], level => level
  | fuel + 1, a :: todo, level =>
    let (more, level) := m.arrive p a level
    m.saturate p fuel (more ++ todo) level

def taken (m : Machine) (cells : List Cell) : List (Place × Arrival) :=
  (cells.filter (·.actions.take)).map fun c =>
    (c.token.stop,
      ⟨m.tables.advance c.state (m.number c.token.terminal), none, .mk c.id c.state c.links,
        .leaf c.token⟩)

def foremost : List (Place × Arrival) → Option Place
  | [] => none
  | (p, _) :: more =>
    match foremost more with
    | none => some p
    | some q => if q.offset < p.offset then some q else some p

/-- Follows all readings place by place, within a number of places. The result is the tree of the
whole text, or where the readings that came farthest failed. -/
def follow (m : Machine) (steps : Nat) :
    Nat → Nat → List Failure → List (Place × Arrival) → Except (List Failure) Tree
  | 0, _, failures, _ => .error failures
  | fuel + 1, fresh, failures, front =>
    match foremost front with
    | none => .error failures
    | some p =>
      let here := (front.filter (·.1.offset = p.offset)).map (·.2)
      let later := front.filter (·.1.offset ≠ p.offset)
      let level := m.saturate p steps here ⟨[], fresh, none, []⟩
      match level.result with
      | some tree => .ok tree
      | none =>
        let failures := if level.failures.isEmpty then failures else level.failures
        m.follow steps fuel level.fresh failures (later ++ m.taken level.cells)

def run (m : Machine) (p : Place) : Except (List Failure) Tree :=
  let bottom := Stack.mk 0 m.tables.start []
  let size := p.rest.length + 10
  match m.readToken m.tables.start p with
  | .error q => .error [⟨q, m.tables.start, bottom, .group []⟩]
  | .ok token =>
    let (token, actions) := m.actions m.tables.start token
    if actions.take then
      let cell : Cell := ⟨0, m.tables.start, token, actions, []⟩
      m.follow (1000 * size) (4 * size) 1 [] (m.taken [cell])
    else .error [⟨token.start, m.tables.start, bottom, .group []⟩]

end Machine

/-- The tables of plain text, computed when they are first needed. -/
def plainTables : Thunk Tables := Thunk.mk fun _ => .ofGrammar Grammar.plain

def typedTables : Thunk Tables := Thunk.mk fun _ => .ofGrammar (Grammar.typed false)

def markedUpTables : Thunk Tables := Thunk.mk fun _ => .ofGrammar (Grammar.typed true)

def Dialect.machine (d : Dialect) : Machine :=
  ⟨d, match d with
    | .plain => plainTables.get
    | .typed => typedTables.get
    | .typedMarkup => markedUpTables.get⟩

end ImportUsage
