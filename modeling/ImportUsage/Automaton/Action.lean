import ImportUsage.Automaton.State

/-! What the automaton may do before a terminal: take it, or complete a production. Where both or
several are possible, ranks and sides decide, and what they leave open is tried in all ways. -/

namespace ImportUsage

namespace Tables

/-- Compares two ranks, each of a part of productions with the given heads. Numbers are compared as
such; otherwise the first order decides in which both stand. -/
def compareRanks (orders : List (List NumberedEntry)) (rank : Option Rank) (heads : List Nat)
    (otherRank : Option Rank) (otherHeads : List Nat) : Ordering :=
  let a := value rank
  let b := value otherRank
  match rank, otherRank with
  | some (.tier _), _ => byOrders
  | _, some (.tier _) => byOrders
  | _, _ => if a = 0 && b = 0 then byOrders else compare a b
where
  value : Option Rank → Int
    | some (.value n) => n
    | _ => 0
  stands (rank : Option Rank) (heads : List Nat) : NumberedEntry → Bool
    | .tier t => rank = some (.tier t)
    | .symbol n => heads.contains n
  byOrder (seen otherSeen : Bool) : List NumberedEntry → Ordering
    | [] => .eq
    | e :: order =>
      if stands rank heads e then
        if otherSeen then .lt else byOrder true otherSeen order
      else if stands otherRank otherHeads e then
        if seen then .gt else byOrder seen true order
      else byOrder seen otherSeen order
  byOrders : Ordering :=
    orders.foldl (fun found order => found.then (byOrder false false order)) .eq

/-- Productions that may be completed before a terminal, with what decides between them and taking
the terminal. -/
structure Completions where
  /-- The places at the ends of the productions. -/
  places : List Nat
  rank : Option Rank
  heads : List Nat
  hasLeft : Bool
  hasRight : Bool
  hasNeither : Bool

def Completions.none : Completions := ⟨[], Option.none, [], false, false, false⟩

/-- Adds a completion. One of lower rank is dropped, one of higher rank replaces the others. -/
def addCompletion (t : Tables) (c : Completions) (place : Nat) : Completions :=
  let rank := t.rank.getD place .none
  let head := t.head.getD place 0
  let order := if c.places.isEmpty then Ordering.eq
    else compareRanks t.orders rank [head] c.rank c.heads
  match order with
  | .lt => c
  | .gt => add rank head Completions.none
  | .eq => add rank head c
where
  add (rank : Option Rank) (head : Nat) (c : Completions) : Completions :=
    let side := t.side.getD place .none
    { places := c.places ++ [place]
      rank
      heads := if c.heads.contains head then c.heads else c.heads ++ [head]
      hasLeft := c.hasLeft || side = some .left
      hasRight := c.hasRight || side = some .right
      hasNeither := c.hasNeither || side = .none }

structure Actions where
  /-- Complete the productions that end at these places. -/
  complete : List Nat
  take : Bool

/-- The items in the middle of a production that may go on with a terminal. -/
def goingOn (t : Tables) (s : State) (terminal : Nat) : List Nat :=
  (s.items.filter fun i =>
    !t.isComplete i.place && 0 < t.dot.getD i.place 0 &&
      (t.first.getD (t.nextOf i.place) 0).testBit terminal).map (·.place)

/-- Decides between completing productions and taking a terminal. A repetition ends before the next
one begins; otherwise the rank decides, and between equal ranks the side. -/
def decide (t : Tables) (s : State) (terminal : Nat) (c : Completions) : Actions :=
  let going := t.goingOn s terminal
  let ending := (s.items.filter fun i =>
    t.isComplete i.place && i.follow.testBit terminal).map (·.place)
  let heads := (going ++ ending).map fun place => t.head.getD place 0
  if isRepetition heads then ⟨c.places, false⟩
  else
    let results := going.map fun place =>
      compareRanks t.orders (t.rank.getD place none) [t.head.getD place 0] c.rank c.heads
    match results.contains .gt, results.contains .lt with
    | true, false => ⟨[], true⟩
    | false, true => ⟨c.places, false⟩
    | true, true => ⟨c.places, true⟩
    | false, false =>
      if c.hasNeither || c.hasLeft = c.hasRight then ⟨c.places, true⟩
      else if c.hasLeft then ⟨c.places, false⟩ else ⟨[], true⟩
where
  isRepetition : List Nat → Bool
    | [] => false
    | h :: hs =>
      hs.all (· = h) && match t.symbols[h]? with
        | some (.repetition _) => true
        | _ => false

def actions (t : Tables) (s : State) (terminal : Nat) : Actions :=
  let completions := s.items.foldl (fun c i =>
    if t.isComplete i.place && i.follow.testBit terminal then t.addCompletion c i.place else c)
    Completions.none
  let takes := s.items.any fun i =>
    !t.isComplete i.place && (t.first.getD (t.nextOf i.place) 0).testBit terminal
  if completions.places.isEmpty then ⟨[], takes⟩
  else if takes then t.decide s terminal completions
  else ⟨completions.places, false⟩

end Tables

end ImportUsage
