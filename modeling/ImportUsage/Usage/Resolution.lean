import ImportUsage.Source.Declaration
import ImportUsage.Source.Import
import ImportUsage.Usage.Exclusion
import ImportUsage.Usage.Index

/-! How one file uses the declarations searched for. A file uses a declaration through an import
statement that names it between braces; the name in the imported module counts, not the local
one. -/

namespace ImportUsage

/-- The module of a path: its file name. -/
def moduleOf (path : String) : String := (Path.fileName? path).getD path

structure Resolution where
  module : String
  /-- Usages recorded in the index. -/
  recorded : Nat
  /-- Usages found but left out, since the file is excluded. -/
  suppressed : Nat
  excluded : Bool
deriving DecidableEq, Repr

/-- The names used by the imports of a file: for each declaration its name once for every
statement that imports it. -/
def usedNames (ds : List Declaration) (imports : List Import) : List String :=
  ds.flatMap fun d => (imports.filter (·.importsName d.name)).map fun _ => d.name

/-- Records the usages of a file. An excluded file is looked at, but nothing is recorded. -/
def resolve (ds : List Declaration) (x : Exclusion) (workingDirectory path : String)
    (imports : List Import) (index : UsageIndex) : Resolution × UsageIndex :=
  let name := moduleOf path
  let used := usedNames ds imports
  if x.excludes workingDirectory path then (⟨name, 0, used.length, true⟩, index)
  else (⟨name, used.length, 0, false⟩, index.recordAll (used.map (·, name)))

end ImportUsage
