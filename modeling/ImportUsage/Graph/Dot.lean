import ImportUsage.Graph.Basic

/-! The graph as a DOT text: one cluster for the modules inside one for the declarations, and a
coloured edge for every usage. -/

namespace ImportUsage

namespace Dot

/-- A name in quotes; quotes inside are escaped. -/
def quote (name : String) : String :=
  let inside := name.toList.flatMap fun c => if c = '"' then ['\\', '"'] else [c]
  String.ofList ('"' :: inside ++ ['"'])

def declarationColor : String := "orange"

def importerLine (name : String) : String := "      " ++ quote name ++ " [shape=box];\n"

def declarationLine (name : String) : String :=
  "    " ++ quote name ++ " [shape=box, style=filled, color=" ++ declarationColor ++ "];\n"

def edgeLine (e : Graph.Edge) : String :=
  "  " ++ quote e.importer ++ " -> " ++ quote e.declaration ++ " [color=" ++ quote e.color ++ "];\n"

end Dot

open Dot in
def Graph.dot (g : Graph) : String :=
  "digraph " ++ quote "G" ++ " \x7b\n" ++
  "  compound=true;\n" ++
  "  splines=polyline;\n" ++
  "  subgraph " ++ quote "cluster_0" ++ " \x7b\n" ++
  "    label=" ++ quote "events" ++ ";\n" ++
  "    subgraph " ++ quote "cluster" ++ " \x7b\n" ++
  "      label=" ++ quote "modules" ++ ";\n" ++
  String.join (g.importers.map importerLine) ++
  "    \x7d\n" ++
  String.join (g.declarations.map declarationLine) ++
  "  \x7d\n" ++
  String.join (g.edges.map edgeLine) ++
  "\x7d\n"

end ImportUsage
