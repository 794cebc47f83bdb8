import ImportUsage.Graph.Color
import ImportUsage.Usage.Index

/-! The graph of usages: declarations, the modules that import them, and an edge for every usage. -/

namespace ImportUsage

namespace Graph

/-- Declarations and modules are apart, so one of each may have the same name. -/
inductive Node
  | declaration (name : String)
  | importer (name : String)
deriving DecidableEq, Repr

namespace Node

def name : Node → String
  | .declaration name => name
  | .importer name => name

def declaration? : Node → Option String
  | .declaration name => some name
  | .importer _ => none

def importer? : Node → Option String
  | .declaration _ => none
  | .importer name => some name

end Node

/-- An edge between nodes given by their numbers: from a module to a declaration it imports. -/
structure Arc where
  importer : Nat
  declaration : Nat
  color : String
deriving DecidableEq, Repr

structure Edge where
  importer : String
  declaration : String
  color : String
deriving DecidableEq, Repr

end Graph

/-- Nodes and edges in the order of their creation. A node's number is its place among the nodes;
each class has a table of the numbers of its names. -/
structure Graph where
  nodes : List Graph.Node
  arcs : List Graph.Arc
  declarationNumbers : List (String × Nat)
  importerNumbers : List (String × Nat)
deriving DecidableEq, Repr

namespace Graph

def empty : Graph := ⟨[], [], [], []⟩

def number? (g : Graph) : Node → Option Nat
  | .declaration name => g.declarationNumbers.lookup name
  | .importer name => g.importerNumbers.lookup name

/-- Puts a node behind the others and its number into the table of its class. -/
def append (g : Graph) : Node → Graph
  | .declaration name =>
    { g with
      nodes := g.nodes ++ [.declaration name]
      declarationNumbers := g.declarationNumbers ++ [(name, g.nodes.length)] }
  | .importer name =>
    { g with
      nodes := g.nodes ++ [.importer name]
      importerNumbers := g.importerNumbers ++ [(name, g.nodes.length)] }

/-- Adds a node unless it is there already; returns its number. -/
def add (g : Graph) (node : Node) : Nat × Graph :=
  match g.number? node with
  | some number => (number, g)
  | none => (g.nodes.length, g.append node)

def addDeclaration (g : Graph) (name : String) : Nat × Graph := g.add (.declaration name)

def addImporter (g : Graph) (name : String) : Nat × Graph := g.add (.importer name)

/-- Adds a usage of a declaration, which is given by its number: the module, if it is new, and an
edge. -/
def addUsage (declaration : Nat) (g : Graph) (importer : String) : Graph :=
  let (number, h) := g.addImporter importer
  { h with arcs := h.arcs ++ [⟨number, declaration, edgeColor importer⟩] }

def addEntry (g : Graph) (entry : String × List String) : Graph :=
  let (number, h) := g.addDeclaration entry.1
  entry.2.foldl (addUsage number) h

/-- The graph of an index: a node for every declaration with an entry, a node for every module,
and an edge for every usage. -/
def ofIndex (index : UsageIndex) : Graph := index.entries.foldl addEntry empty

def declarations (g : Graph) : List String := g.nodes.filterMap Node.declaration?

def importers (g : Graph) : List String := g.nodes.filterMap Node.importer?

def declarationCount (g : Graph) : Nat := g.declarationNumbers.length

def importerCount (g : Graph) : Nat := g.importerNumbers.length

def edgeCount (g : Graph) : Nat := g.arcs.length

def hasDeclaration (g : Graph) (name : String) : Bool := (g.number? (.declaration name)).isSome

def hasImporter (g : Graph) (name : String) : Bool := (g.number? (.importer name)).isSome

def nameAt? (g : Graph) (number : Nat) : Option String := (g.nodes[number]?).map (·.name)

def edge? (g : Graph) (a : Arc) : Option Edge := do
  let importer ← g.nameAt? a.importer
  let declaration ← g.nameAt? a.declaration
  some ⟨importer, declaration, a.color⟩

def edges (g : Graph) : List Edge := g.arcs.filterMap g.edge?

/-- The edges to a node, each with its number, the newest first. -/
def incoming (g : Graph) (number : Nat) : List (Arc × Nat) :=
  (g.arcs.zipIdx.filter (·.1.declaration = number)).reverse

/-- The modules with an edge to a declaration, once for each edge and in the order of the edges. -/
def importersOf (g : Graph) (declaration : String) : List String :=
  match g.number? (.declaration declaration) with
  | none => []
  | some number =>
    let arrivals := (g.incoming number).mergeSort fun a b => a.2 ≤ b.2
    arrivals.filterMap fun a => g.nameAt? a.1.importer

end Graph

end ImportUsage
