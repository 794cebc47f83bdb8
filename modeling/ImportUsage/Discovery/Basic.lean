import ImportUsage.FileTree.Lookup

/-! Which files of a directory tree are looked at, and in what order. -/

namespace ImportUsage

/-- A directory tree, the extensions of the files looked at, and the names of the directories
that are passed over. -/
structure Discovery where
  root : String
  extensions : List String
  passedOver : List String
deriving DecidableEq, Repr

def mainExtension : String := "ts"

namespace Discovery

/-- Looks at all directories under `root` for files with the main extension. -/
def under (root : String) : Discovery := ⟨root, [mainExtension], []⟩

def bareExtension (extension : String) : String :=
  String.ofList (extension.toList.dropWhile (· = '.'))

/-- Replaces the extensions. Dots in front do not matter; if nothing is left, the extensions stay
as they are. -/
def withExtensions (d : Discovery) (extensions : List String) : Discovery :=
  let bare := (extensions.map bareExtension).filter (· ≠ "")
  if bare = [] then d else { d with extensions := bare }

def passingOver (d : Discovery) (names : List String) : Discovery := { d with passedOver := names }

/-- Does a file name end with a dot and one of the extensions? -/
def isEligible (d : Discovery) (name : String) : Bool :=
  d.extensions.any fun e => ('.' :: e.toList).isSuffixOf name.toList

end Discovery

structure WalkError where
  path : String
  fault : Fault
deriving DecidableEq, Repr

def WalkError.message (e : WalkError) : String :=
  "IO error for operation on " ++ e.path ++ ": " ++ e.fault.message

inductive DiscoveryError
  | rootMissing (path : String)
  | notDirectory (path : String)
  | unreadable (path : String) (fault : Fault)
  | walk (e : WalkError)
deriving DecidableEq, Repr

namespace DiscoveryError

def message : DiscoveryError → String
  | .rootMissing path => "Root directory not found: " ++ path
  | .notDirectory path => "Not a directory: " ++ path
  | .unreadable path fault => "Failed to read directory " ++ path ++ ": " ++ fault.message
  | .walk e => "Failed to walk directory tree: " ++ e.message

def causes : DiscoveryError → List String
  | .rootMissing _ => []
  | .notDirectory _ => []
  | .unreadable _ fault => [fault.message]
  | .walk e => [e.message, e.fault.message]

end DiscoveryError

end ImportUsage
