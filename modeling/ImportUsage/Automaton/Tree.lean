import ImportUsage.Automaton.Token

/-! Trees of constructs. -/

namespace ImportUsage

inductive Tree
  | leaf (t : Token)
  | node (c : Construct) (parts : List Tree)
  /-- A repetition. -/
  | group (parts : List Tree)

namespace Tree

def ofSymbol : Option Symbol → List Tree → Tree
  | some (.construct c), parts => node c parts
  | _, parts => group parts

mutual

/-- Puts a tree in front of others; a repetition gives way to its parts. -/
def ungroup : Tree → List Tree → List Tree
  | leaf t, others => leaf t :: others
  | node c parts, others => node c parts :: others
  | group parts, others => ungroupAll parts others

def ungroupAll : List Tree → List Tree → List Tree
  | [], others => others
  | t :: more, others => ungroup t (ungroupAll more others)

end

def parts : Tree → List Tree
  | leaf _ => []
  | node _ parts | group parts => ungroupAll parts []

def firstToken? : Tree → Option Token
  | leaf t => some t
  | node _ parts | group parts => first parts
where
  first : List Tree → Option Token
    | [] => none
    | t :: more => (firstToken? t).orElse fun _ => first more

/-- The characters of a tree that is one token, or has one token in it. -/
def text (t : Tree) : String := (t.firstToken?.map (·.text)).getD ""

def isNode (c : Construct) : Tree → Bool
  | node d _ => c = d
  | _ => false

def isLeaf (terminal : Terminal) : Tree → Bool
  | leaf t => t.terminal = terminal
  | _ => false

def part? (c : Construct) (t : Tree) : Option Tree := t.parts.find? (·.isNode c)

end Tree

end ImportUsage
