import ImportUsage.Grammar.Tables

/-! States of the automaton. A state is a set of places in productions, each with the terminals that
may follow its production. States are not listed in advance: a state is made when a text leads to
it. -/

namespace ImportUsage

/-- A place in a production with the terminals that may follow the production. -/
structure Item where
  place : Nat
  follow : Terminals
deriving DecidableEq

structure State where
  /-- The items, by their places. -/
  items : List Item
  expected : Terminals
deriving DecidableEq

namespace Tables

def nextOf (t : Tables) (place : Nat) : Nat := t.next.getD place t.symbols.size

def isComplete (t : Tables) (place : Nat) : Bool := t.symbols.size ≤ t.nextOf place

def expectedBy (t : Tables) (i : Item) : Terminals :=
  if t.isComplete i.place then i.follow else t.first.getD (t.nextOf i.place) 0

def state (t : Tables) (items : List Item) : State :=
  ⟨items, items.foldl (fun expected i => expected ||| t.expectedBy i) 0⟩

def start (t : Tables) : State :=
  t.state [⟨0, single (t.numbers.getD (.terminal .endOfText) 0)⟩]

/-- A construct that may come next, with the terminals that may follow it. -/
structure Seed where
  corners : Array (Option Corner)
  follow : Terminals

def seeds (t : Tables) (items : List Item) : List Seed :=
  items.filterMap fun i =>
    let next := t.nextOf i.place
    if next < t.width || t.symbols.size ≤ next then none
    else some ⟨t.corners.getD next #[], t.expectedBy ⟨i.place + 1, i.follow⟩⟩

/-- The terminals that may follow a construct that begins where the seeds begin, if there is one. -/
def followOf (seeds : List Seed) (head : Nat) : Option Terminals :=
  seeds.foldl (fun found s =>
    match s.corners.getD head none with
    | none => found
    | some c => some (found.getD 0 ||| c.follow ||| if c.passes then s.follow else 0)) none

/-- Joins two lists of items ordered by their places. -/
def merge : List Item → List Item → List Item
  | [], js => js
  | is, [] => is
  | i :: is, j :: js =>
    if i.place ≤ j.place then i :: merge is (j :: js) else j :: merge (i :: is) js

def advance (t : Tables) (s : State) (symbol : Nat) : State :=
  let seeds := t.seeds s.items
  let moved := s.items.filterMap fun i =>
    if t.nextOf i.place = symbol then some ⟨i.place + 1, i.follow⟩ else none
  let opened := (t.openings.getD symbol []).foldl (fun items (head, places) =>
    match followOf seeds head with
    | none => items
    | some follow => merge items (places.map (⟨·, follow⟩))) []
  t.state (merge moved opened)

def expects (t : Tables) (s : State) (terminal : Terminal) : Bool :=
  match t.numbers.get? (.terminal terminal) with
  | some n => s.expected.testBit n
  | none => false

end Tables

end ImportUsage
