import ImportUsage.Grammar.Construct

/-! Ranks decide between readings of a text: where one construct could end and another go on, the
one of higher rank wins. Ranks are named, and orders list names and constructs from the highest
rank down. Two ranks that stand in no common order are not comparable. -/

namespace ImportUsage

inductive Tier
  | member
  | templateCall
  | call
  | creation
  | unaryWord
  | power
  | product
  | sum
  | shift
  | relation
  | equality
  | bitAnd
  | bitXor
  | bitOr
  | logicalAnd
  | logicalOr
  | conditional
  | assign
  | declaration
  | literal
  | object
  | instantiation
  | unary
  | binary
  | heritage
  | conditionalType
  | union
  | intersection
deriving DecidableEq, Hashable

inductive Rank
  | value (n : Int)
  | tier (t : Tier)
deriving DecidableEq, Hashable

inductive Side
  | left
  | right
deriving DecidableEq, Hashable

inductive RankEntry
  | tier (t : Tier)
  | construct (c : Construct)

instance : Coe Tier RankEntry := ⟨.tier⟩
instance : Coe Construct RankEntry := ⟨.construct⟩

/-- An order of ranks, the highest first. -/
abbrev RankOrder := List RankEntry

end ImportUsage
