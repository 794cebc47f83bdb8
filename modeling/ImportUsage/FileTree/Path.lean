/-! Paths as text. A path is cut at its slashes; what it names is decided by the pieces. -/

namespace ImportUsage

/-- Cuts a text at every `mark`. There is always at least one piece. -/
def cutAt {α : Type} [DecidableEq α] (mark : α) : List α → List (List α)
  | [] => [[]]
  | c :: cs =>
    if c = mark then [] :: cutAt mark cs
    else match cutAt mark cs with
      | [] => [[c]]
      | piece :: pieces => (c :: piece) :: pieces

namespace Path

/-- The pieces of a path that name something: empty pieces and single dots are dropped. -/
def pieces (path : String) : List String :=
  ((cutAt '/' path.toList).filter fun piece => piece ≠ [] && piece ≠ ['.']).map String.ofList

def isAbsolute (path : String) : Bool := path.toList.head? = some '/'

/-- The name of the file or directory, unless the path ends by going up or names nothing. -/
def fileName? (path : String) : Option String :=
  match (pieces path).getLast? with
  | some name => if name = ".." then none else some name
  | none => none

/-- Splits a file name at its last dot. A dot at the front does not count. -/
def splitName (name : String) : String × Option String :=
  let back := name.toList.reverse
  let last := back.takeWhile (· ≠ '.')
  match back.drop last.length with
  | _ :: front@(_ :: _) => (String.ofList front.reverse, some (String.ofList last.reverse))
  | _ => (name, none)

def extension? (path : String) : Option String :=
  (fileName? path).bind fun name => (splitName name).2

def stem? (path : String) : Option String :=
  (fileName? path).map fun name => (splitName name).1

def join (directory name : String) : String :=
  if directory = "" then name
  else if directory.toList.getLast? = some '/' then directory ++ name
  else directory ++ "/" ++ name

/-- The absolute form of a path. Empty pieces and single dots vanish, `..` and a slash at the end
stay, and so do exactly two slashes at the front. The empty path has none. -/
def absolute? (workingDirectory path : String) : Option String :=
  let chars := path.toList
  let start := if !isAbsolute path then workingDirectory
    else if ['/', '/'].isPrefixOf chars && !(['/', '/', '/'].isPrefixOf chars) then "//"
    else "/"
  let whole := (pieces path).foldl join start
  if path = "" then none
  else if chars.getLast? = some '/' then some (join whole "")
  else some whole

/-- Adds an extension to a path; one it has already stays. -/
def withExtension (base extension : String) : String := base ++ "." ++ extension

end Path

end ImportUsage
