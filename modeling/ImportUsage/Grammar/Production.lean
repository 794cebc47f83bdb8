import ImportUsage.Grammar.Rule
import Std.Data.HashSet

/-! Rules spelled out as productions: each is one sequence of symbols that a construct may be. -/

namespace ImportUsage

/-- What a production consists of. A repetition is a symbol of its own. -/
inductive Symbol
  | terminal (t : Terminal)
  | construct (c : Construct)
  | repetition (body : Rule)
deriving DecidableEq, Hashable

structure Step where
  symbol : Symbol
  rank : Option Rank
  side : Option Side
deriving DecidableEq, Hashable

structure Production where
  head : Symbol
  steps : List Step
deriving DecidableEq

/-- The members of a list without repetitions, in the order in which they first occur. -/
def distinctOf {α : Type} [BEq α] [Hashable α] (as : List α) : List α :=
  (as.foldl (fun (seen, found) a =>
    if seen.contains a then (seen, found) else (seen.insert a, a :: found))
    ((∅ : Std.HashSet α), [])).2.reverse

def changeLast {α : Type} (f : α → α) : List α → List α
  | [] => []
  | [a] => [f a]
  | a :: as => a :: changeLast f as

namespace Rule

/-- The sequences of symbols that a rule stands for, inside a part of the given rank and side. The
last symbol of a ranked part has its rank only at the end of the whole rule; before other symbols it
has the rank of what surrounds it. -/
def expand (rank : Option Rank) (side : Option Side) (atEnd : Bool) : Rule → List (List Step)
  | terminal t => [[⟨.terminal t, rank, side⟩]]
  | construct c => [[⟨.construct c, rank, side⟩]]
  | repetition body => [[⟨.repetition body, rank, side⟩]]
  | blank => [[]]
  | sequence a b =>
    (a.expand rank side false).flatMap fun front =>
      (b.expand rank side atEnd).map (front ++ ·)
  | choice a b => a.expand rank side atEnd ++ b.expand rank side atEnd
  | ranked ownRank ownSide body =>
    let all := body.expand (ownRank <|> rank) (ownSide <|> side) atEnd
    if atEnd then all
    else all.map (changeLast fun s =>
      ⟨s.symbol, if ownRank.isSome then rank else s.rank, if ownSide.isSome then side else s.side⟩)

def sequences (r : Rule) : List (List Step) := distinctOf (r.expand none none true)

/-- The bodies of the repetitions in a rule, inner ones first. -/
def repetitions : Rule → List Rule
  | terminal _ | construct _ | blank => []
  | sequence a b | choice a b => a.repetitions ++ b.repetitions
  | repetition body => body.repetitions ++ [body]
  | ranked _ _ body => body.repetitions

def mentions : Rule → List Construct
  | terminal _ | blank => []
  | construct c => [c]
  | sequence a b | choice a b => a.mentions ++ b.mentions
  | repetition body | ranked _ _ body => body.mentions

end Rule

namespace Grammar

def rule? (g : Grammar) (c : Construct) : Option Rule :=
  (g.definitions.find? (·.construct = c)).map (·.rule)

/-- The constructs that can occur in a construct of `found`, within a number of rounds. -/
def reach (g : Grammar) : Nat → List Construct → List Construct → List Construct
  | 0, found, _ => found
  | _ + 1, found, [] => found
  | rounds + 1, found, fresh =>
    let next := (fresh.flatMap fun c => ((g.rule? c).map Rule.mentions).getD []).eraseDups
    let next := next.filter (!found.contains ·)
    g.reach rounds (found ++ next) next

/-- The definitions that a program can use. -/
def used (g : Grammar) : List Definition :=
  let found := g.reach g.definitions.length [.program] [.program]
  g.definitions.filter fun d => found.contains d.construct

/-- The sequences that a construct is replaced by, if it is inlined. -/
def substitutes (g : Grammar) : Symbol → Option (List (List Step))
  | .construct c => if g.inlined.contains c then (g.rule? c).map Rule.sequences else none
  | _ => none

/-- Replaces inlined constructs, within a number of steps. The last symbol of what replaces a
construct takes the rank and side of the construct unless it has its own. -/
def substitute (substitutes : Symbol → Option (List (List Step))) : Nat → List Step →
    List (List Step)
  | 0, steps => [steps]
  | _ + 1, [] => [[]]
  | fuel + 1, s :: steps =>
    match substitutes s.symbol with
    | none => (substitute substitutes fuel steps).map (s :: ·)
    | some sequences =>
      sequences.flatMap fun inner =>
        let inner := changeLast (fun l => ⟨l.symbol, l.rank <|> s.rank, l.side <|> s.side⟩) inner
        substitute substitutes fuel (inner ++ steps)

def productionsOf (g : Grammar) (head : Symbol) (sequences : List (List Step)) : List Production :=
  let all := sequences.flatMap (substitute g.substitutes 64)
  (distinctOf all).map (⟨head, ·⟩)

/-- The productions of a grammar. Two repetitions of one kind make one. -/
def productions (g : Grammar) : List Production :=
  let used := g.used
  let kept := used.filter fun d => !g.inlined.contains d.construct
  let bodies := (used.flatMap (·.rule.repetitions)).eraseDups
  kept.flatMap (fun d => g.productionsOf (.construct d.construct) d.rule.sequences) ++
    bodies.flatMap fun body =>
      let again : Step := ⟨.repetition body, none, none⟩
      g.productionsOf (.repetition body) ([again, again] :: body.sequences)

end Grammar

end ImportUsage
