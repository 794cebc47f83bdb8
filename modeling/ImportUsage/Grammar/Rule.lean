import ImportUsage.Grammar.Rank
import ImportUsage.Grammar.Terminal

/-! Rules of a grammar as data. -/

namespace ImportUsage

inductive Rule
  | terminal (t : Terminal)
  | construct (c : Construct)
  | blank
  | sequence (a b : Rule)
  | choice (a b : Rule)
  /-- One or more times. -/
  | repetition (body : Rule)
  /-- A part with a rank, a side, or both. -/
  | ranked (rank : Option Rank) (side : Option Side) (body : Rule)
deriving DecidableEq, Hashable

instance : Coe Terminal Rule := ⟨.terminal⟩
instance : Coe Construct Rule := ⟨.construct⟩
instance : Coe String Rule := ⟨fun s => .terminal (.literal s)⟩

namespace Rule

def seq : List Rule → Rule
  | [] => blank
  | [r] => r
  | r :: rs => sequence r (seq rs)

def oneOf : List Rule → Rule
  | [] => blank
  | [r] => r
  | r :: rs => choice r (oneOf rs)

def optional (r : Rule) : Rule := choice r blank

def many (r : Rule) : Rule := optional (repetition r)

/-- One or more, with `mark` between them. -/
def separated (mark r : Rule) : Rule := seq [r, many (seq [mark, r])]

def listed (r : Rule) : Rule := separated "," r

def list (r : Rule) : Rule := optional (listed r)

def tier (t : Tier) (r : Rule) : Rule := ranked (some (.tier t)) none r

def left (r : Rule) : Rule := ranked (some (.value 0)) (some .left) r

def right (r : Rule) : Rule := ranked (some (.value 0)) (some .right) r

def leftIn (t : Tier) (r : Rule) : Rule := ranked (some (.tier t)) (some .left) r

def rightIn (t : Tier) (r : Rule) : Rule := ranked (some (.tier t)) (some .right) r

/-! Marks with a brace or a backquote. -/

def openBrace : Rule := "\x7b"
def closeBrace : Rule := "\x7d"
def openExact : Rule := "\x7b|"
def closeExact : Rule := "|\x7d"
def openSubstitution : Rule := "$\x7b"
def backquote : Rule := "\x60"

end Rule

structure Definition where
  construct : Construct
  rule : Rule

/-- Rules for constructs, with what is needed to choose between their readings. -/
structure Grammar where
  definitions : List Definition
  /-- Constructs that are replaced by their rules wherever they occur. -/
  inlined : List Construct
  orders : List RankOrder

end ImportUsage
