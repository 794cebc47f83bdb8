import ImportUsage.FileTree.Path

/-! Files whose imports are left out of account. -/

namespace ImportUsage

structure Exclusion where
  suffixes : List String
deriving DecidableEq, Repr

namespace Exclusion

def empty : Exclusion := ⟨[]⟩

/-- An empty suffix would exclude everything, so it is dropped. -/
def ofSuffixes (suffixes : List String) : Exclusion := ⟨suffixes.filter (· ≠ "")⟩

def isEmpty (x : Exclusion) : Bool := x.suffixes.isEmpty

/-- Is the path excluded? What counts is the end of its absolute form, as text. -/
def excludes (x : Exclusion) (workingDirectory path : String) : Bool :=
  let whole := (Path.absolute? workingDirectory path).getD path
  x.suffixes.any fun suffix => suffix.toList.isSuffixOf whole.toList

end Exclusion

end ImportUsage
