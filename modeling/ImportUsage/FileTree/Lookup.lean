import ImportUsage.FileTree.Fault
import ImportUsage.FileTree.Node

/-! Finding, reading and writing files by their paths. -/

namespace ImportUsage

structure FileTree where
  root : Node
  workingDirectory : Location

def linkLimit : Nat := 40

/-- The most bytes in the name of an entry. -/
def nameLimit : Nat := 255

/-- The most bytes in a path. -/
def pathLimit : Nat := 4095

namespace Path

/-- The names on a path, single dots included. -/
def names (path : String) : List String :=
  ((cutAt '/' path.toList).filter (· ≠ [])).map String.ofList

def endsWithSlash (path : String) : Bool := path.toList.getLast? = some '/'

/-- The steps of a path. A slash at the end asks for a directory, as a single dot does. -/
def steps (path : String) : List String :=
  if endsWithSlash path then names path ++ ["."] else names path

def startFrom (here : Location) (path : String) : Location := if isAbsolute path then [] else here

def fault? (path : String) : Option Fault :=
  if path.toList.any (·.toNat = 0) then some .nulInName
  else if path = "" then some .missing
  else if pathLimit < path.utf8ByteSize then some .nameTooLong
  else none

end Path

namespace Node

/-- Takes steps from a place where `left` more links may be followed; `jump` goes on with the steps
of a link's target. The result is the place, and how many links may still be followed. -/
def walkSteps (root : Node) (left : Nat)
    (jump : Location → List String → Except Fault (Location × Nat)) :
    Location → List String → Except Fault (Location × Nat)
  | here, [] => .ok (here, left)
  | here, name :: rest =>
    match root.at? here with
    | some (.directory entries) =>
      if name = "." then walkSteps root left jump here rest
      else if name = ".." then walkSteps root left jump here.dropLast rest
      else if nameLimit < name.utf8ByteSize then .error .nameTooLong
      else match entries.lookup name with
        | none => .error .missing
        | some (.link target) => jump (Path.startFrom here target) (Path.steps target ++ rest)
        | some _ => walkSteps root left jump (here ++ [name]) rest
    | _ => .error .notDirectory

/-- Takes steps from a place and follows links, at most as many as given. -/
def follow (root : Node) : Nat → Location → List String → Except Fault (Location × Nat)
  | 0 => walkSteps root 0 fun _ _ => .error .tooManyLinks
  | left + 1 => walkSteps root (left + 1) (follow root left)

/-- The place where a file is written that a path leads to from a directory; `jump` goes on with a
link's target, given how many links may be followed then. A path that ends with a slash, a dot or
two names no file. -/
def placeIn (root : Node) (left : Nat) (jump : Nat → Location → String → Except Fault Location)
    (here : Location) (path : String) : Except Fault Location :=
  match (Path.names path).getLast? with
  | none => .error .isDirectory
  | some name => do
    let (parent, left) ← root.follow left here (Path.names path).dropLast
    match root.at? parent with
    | some (.directory entries) =>
      if name = "." || name = ".." || Path.endsWithSlash path then .error .isDirectory
      else if nameLimit < name.utf8ByteSize then .error .nameTooLong
      else match entries.lookup name, left with
        | some (.directory _), _ => .error .isDirectory
        | some (.link _), 0 => .error .tooManyLinks
        | some (.link target), left + 1 => jump left (Path.startFrom parent target) target
        | _, _ => .ok (parent ++ [name])
    | _ => .error .notDirectory

/-- The place where a file is written that a path leads to. A link is written through, at most as
many times as given. -/
def place (root : Node) : (times left : Nat) → Location → String → Except Fault Location
  | 0, left => placeIn root left fun _ _ _ => .error .tooManyLinks
  | times + 1, left => placeIn root left (place root times)

end Node

namespace FileTree

def workingPath (t : FileTree) : String := t.workingDirectory.foldl Path.join "/"

def locate (t : FileTree) (path : String) : Except Fault Location :=
  match Path.fault? path with
  | some fault => .error fault
  | none =>
    (t.root.follow linkLimit (Path.startFrom t.workingDirectory path) (Path.steps path)).map (·.1)

def find (t : FileTree) (path : String) : Except Fault Node := do
  let place ← t.locate path
  match t.root.at? place with
  | some node => .ok node
  | none => .error .missing

def readText (t : FileTree) (path : String) : Except Fault String := do
  match ← t.find path with
  | .file (.text s) _ => .ok s
  | .file (.binary _) _ => .error .notText
  | _ => .error .isDirectory

def placeFor (t : FileTree) (path : String) : Except Fault Location :=
  match Path.fault? path with
  | some fault => .error fault
  | none => t.root.place linkLimit linkLimit (Path.startFrom t.workingDirectory path) path

def put (t : FileTree) (place : Location) (node : Node) : FileTree :=
  { t with root := Node.put node place t.root }

/-- Writes a text to a file, new or not. -/
def writeText (t : FileTree) (path text : String) : Except Fault FileTree :=
  (t.placeFor path).map fun place =>
    let executable := match t.root.at? place with
      | some (.file _ executable) => executable
      | _ => false
    t.put place (.file (.text text) executable)

/-- Can a program be started? It has to be given by a path to an executable file; there is no
list of directories to look for a bare name. -/
def canStart (t : FileTree) (program : String) : Bool :=
  program.toList.contains '/' &&
  match t.find program with
  | .ok (.file _ executable) => executable
  | _ => false

end FileTree

end ImportUsage
