import ImportUsage.FileTree.Lookup

/-! Building a file tree entry by entry. -/

namespace ImportUsage

namespace FileTree

def bare (workingDirectory : Location) : FileTree :=
  ⟨workingDirectory.foldr (fun name node => .directory [(name, node)]) (.directory []),
    workingDirectory⟩

/-- Goes to an entry of a directory, which is made if it is missing. -/
def enterOrMake (state : Location × FileTree) (name : String) : Location × FileTree :=
  let (here, t) := state
  match t.root.follow linkLimit here [name] with
  | .ok (there, _) => (there, t)
  | .error _ => (here ++ [name], t.put (here ++ [name]) (.directory []))

/-- Adds a node at a path; missing directories on the way are made. A directory that is there
already stays as it is. -/
def create (t : FileTree) (path : String) (node : Node) : FileTree :=
  let names := (Path.steps path).filter (· ≠ ".")
  let start := Path.startFrom t.workingDirectory path
  match names.getLast? with
  | none => t
  | some name =>
    let (here, t) := names.dropLast.foldl enterOrMake (start, t)
    match node, t.root.at? (here ++ [name]) with
    | .directory _, some (.directory _) => t
    | _, _ => t.put (here ++ [name]) node

end FileTree

end ImportUsage
