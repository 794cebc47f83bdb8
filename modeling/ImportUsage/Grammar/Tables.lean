import ImportUsage.Grammar.Production
import Std.Data.HashMap

/-! A grammar prepared for an automaton. Symbols, productions and places in productions are
numbered; the terminals come first. Sets of terminals are numbers, one bit for each terminal.

A place is a production with a dot in it; the places of one production are neighbours. -/

namespace ImportUsage

abbrev Terminals := Nat

/-- How a construct may begin with another: the terminals that may follow the other one then, and
whether what follows the construct may follow the other one too. -/
structure Corner where
  follow : Terminals
  passes : Bool

inductive NumberedEntry
  | tier (t : Tier)
  | symbol (n : Nat)

structure Tables where
  /-- The number of terminals. -/
  width : Nat
  numbers : Std.HashMap Symbol Nat
  symbols : Array Symbol
  /-- The terminals that a symbol may begin with. -/
  first : Array Terminals
  /-- How the construct of the first number may begin with that of the second. -/
  corners : Array (Array (Option Corner))
  /-- The places after the first symbol of productions, by that symbol and by head. -/
  openings : Array (List (Nat × List Nat))
  /-- The symbol after the dot; the number of symbols where there is none. -/
  next : Array Nat
  /-- The rank and the side of the symbol before the dot. -/
  rank : Array (Option Rank)
  side : Array (Option Side)
  /-- The head of a place's production. -/
  head : Array Nat
  /-- The number of symbols before the dot. -/
  dot : Array Nat
  orders : List (List NumberedEntry)
  /-- The punctuation marks, long ones first. -/
  marks : List (List Char)

namespace Tables

def single (n : Nat) : Terminals := 1 <<< n

/-- Numbers the symbols: terminals, with the end of the text at last, before the others. -/
def number (ps : List Production) : List Terminal × List Symbol :=
  let symbols := distinctOf (ps.flatMap fun p => p.head :: p.steps.map (·.symbol))
  let terminals := symbols.filterMap fun
    | .terminal t => some t
    | _ => none
  let others := symbols.filter fun
    | .terminal _ => false
    | _ => true
  (terminals ++ [.endOfText], others)

structure Numbered where
  head : Nat
  steps : List (Nat × Option Rank × Option Side)

/-- Adds to the first terminals of each head those of the symbol that its productions begin with. -/
def growFirst (ps : List Numbered) (first : Array Terminals) : Array Terminals :=
  ps.foldl (fun first p =>
    match p.steps with
    | [] => first
    | (s, _) :: _ => first.setIfInBounds p.head (first.getD p.head 0 ||| first.getD s 0)) first

/-- Repeats `f` until nothing changes, within a number of rounds. -/
def settle {α : Type} [BEq α] (f : α → α) : Nat → α → α
  | 0, a => a
  | rounds + 1, a =>
    let b := f a
    if a == b then a else settle f rounds b

/-- The symbols, other than terminals, that each head may begin with, and how. -/
def edges (count : Nat) (width : Nat) (first : Array Terminals) (ps : List Numbered) :
    Array (List (Nat × Corner)) :=
  ps.foldl (fun edges p =>
    match p.steps with
    | (s, _) :: rest =>
      if s < width then edges
      else
        let corner : Corner := match rest with
          | [] => ⟨0, true⟩
          | (t, _) :: _ => ⟨first.getD t 0, false⟩
        edges.modify p.head (add s corner)
    | [] => edges) (Array.replicate count [])
where
  add (s : Nat) (c : Corner) : List (Nat × Corner) → List (Nat × Corner)
    | [] => [(s, c)]
    | (t, d) :: more =>
      if s = t then (t, ⟨c.follow ||| d.follow, c.passes || d.passes⟩) :: more
      else (t, d) :: add s c more

/-- Follows the edges from the symbols of a list on, within a number of steps. -/
def spread (edges : Array (List (Nat × Corner))) :
    Nat → List Nat → Array (Option Corner) → Array (Option Corner)
  | 0, _, found => found
  | _ + 1, [], found => found
  | fuel + 1, s :: todo, found =>
    match found.getD s none with
    | none => spread edges fuel todo found
    | some c =>
      let (found, fresh) := (edges.getD s []).foldl (fun (found, fresh) (t, e) =>
        let follow := if e.passes then e.follow ||| c.follow else e.follow
        let passes := e.passes && c.passes
        match found.getD t none with
        | none => (found.setIfInBounds t (some ⟨follow, passes⟩), t :: fresh)
        | some d =>
          let grown := d.follow ||| follow
          if grown = d.follow && (d.passes || !passes) then (found, fresh)
          else (found.setIfInBounds t (some ⟨grown, d.passes || passes⟩), t :: fresh)) (found, [])
      spread edges fuel (todo ++ fresh) found

def grouped (head : Nat) (place : Nat) : List (Nat × List Nat) → List (Nat × List Nat)
  | [] => [(head, [place])]
  | (h, places) :: more =>
    if h = head then (h, place :: places) :: more else (h, places) :: grouped head place more

/-- Prepares a grammar. The first production, at place 0, is a whole text: a program. -/
def ofGrammar (g : Grammar) : Tables :=
  let ps := g.productions
  let (terminals, others) := number ps
  let width := terminals.length
  let symbols := (terminals.map Symbol.terminal ++ others).toArray
  let numbers := (symbols.toList.zipIdx).foldl (fun m (s, i) => m.insert s i)
    (∅ : Std.HashMap Symbol Nat)
  let count := symbols.size
  let numberOf (s : Symbol) : Nat := numbers.getD s count
  let numbered := ps.map fun p =>
    (⟨numberOf p.head, p.steps.map fun s => (numberOf s.symbol, s.rank, s.side)⟩ : Numbered)
  let first := settle (growFirst numbered) count
    ((List.range count).map fun i => if i < width then single i else 0).toArray
  let edges := edges count width first numbered
  let corners := (List.range count).map fun i =>
    if i < width then #[]
    else spread edges (count * count)
      [i] ((Array.replicate count none).setIfInBounds i (some ⟨0, true⟩))
  let whole : Numbered := ⟨count, [(numberOf (.construct .program), none, none)]⟩
  let places := (whole :: numbered).flatMap fun p =>
    p.steps.map (·.1) ++ [count]
  let before := (whole :: numbered).flatMap fun p =>
    (none, none) :: p.steps.map (·.2)
  let heads := (whole :: numbered).flatMap fun p =>
    List.replicate (p.steps.length + 1) p.head
  let dots := (whole :: numbered).flatMap fun p => List.range (p.steps.length + 1)
  let openings := (((whole :: numbered).foldl (fun (openings, place) p =>
    (match p.steps with
      | [] => openings
      | (s, _) :: _ => openings.modify s (grouped p.head (place + 1)),
      place + p.steps.length + 1))
    ((Array.replicate count [] : Array (List (Nat × List Nat))), 0)).1).map
      fun groups => groups.map fun (h, places) => (h, places.reverse)
  { width, numbers, symbols, first, openings
    corners := corners.toArray
    next := places.toArray
    rank := (before.map (·.1)).toArray
    side := (before.map (·.2)).toArray
    head := heads.toArray
    dot := dots.toArray
    orders := g.orders.map fun order => order.map fun
      | .tier t => .tier t
      | .construct c => .symbol (numberOf (.construct c))
    marks := (terminals.filterMap markOf).mergeSort fun a b => b.length ≤ a.length }
where
  markOf : Terminal → Option (List Char)
    | .literal s => if s.toList.any Char.isAlpha then none else some s.toList
    | _ => none

end Tables

end ImportUsage
