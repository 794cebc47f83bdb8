import ImportUsage.Automaton.Tree

/-! The reader of source texts. All that is known of a text is read off its tree; what builds the
tree is left open here. -/

namespace ImportUsage

/-- A place in a text: line and column from 1, columns in bytes. -/
structure Position where
  line : Nat
  column : Nat
deriving DecidableEq, Repr

/-- What builds the tree of a text, or tells where the text leaves the grammar. -/
class TreeReader where
  read : Dialect → Text → Except Position Tree

end ImportUsage
