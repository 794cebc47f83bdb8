import ImportUsage.FileTree.Path

/-! File trees: directories, files and symbolic links. The trees leave out permissions, so whatever
stands in one can be read, and hard links, so no two entries share a file. -/

namespace ImportUsage

/-- What a file holds: a text, or bytes that are none. -/
inductive Content
  | text (s : String)
  | binary (bytes : List UInt8)
deriving DecidableEq, Repr

inductive Node
  | file (content : Content) (executable : Bool)
  | link (target : String)
  | directory (entries : List (String × Node))

/-- A place in a tree: the names on the way from the root. -/
abbrev Location := List String

namespace Node

def child? : Node → String → Option Node
  | .directory entries, name => entries.lookup name
  | _, _ => none

/-- The node at a place. Links are not followed. -/
def at? : Node → Location → Option Node
  | node, [] => some node
  | node, name :: rest => (node.child? name).bind (at? · rest)

def setEntry (name : String) (new : Node) : List (String × Node) → List (String × Node)
  | [] => [(name, new)]
  | (other, node) :: rest =>
    if other = name then (name, new) :: rest else (other, node) :: setEntry name new rest

/-- Puts a node at a place. Where the way to the place is missing, nothing changes. -/
def put (new : Node) : Location → Node → Node
  | [], _ => new
  | [name], .directory entries => .directory (setEntry name new entries)
  | name :: rest, .directory entries =>
    match entries.lookup name with
    | some node => .directory (setEntry name (put new rest node) entries)
    | none => .directory entries
  | _ :: _, node => node

mutual

/-- The files at a node and below it, each with its place and what it holds. -/
def files (here : Location) : Node → List (Location × Content)
  | .file content _ => [(here, content)]
  | .link _ => []
  | .directory entries => entryFiles here entries

def entryFiles (here : Location) : List (String × Node) → List (Location × Content)
  | [] => []
  | (name, node) :: rest => files (here ++ [name]) node ++ entryFiles here rest

end

end Node

end ImportUsage
