import ImportUsage.Source.Declaration
import ImportUsage.Usage.Index

/-! What a report tells: every declaration searched for with the modules that import it, used or
not, and what was left out. -/

namespace ImportUsage

structure Skipped where
  path : String
  reason : String
deriving DecidableEq, Repr

/-- A declaration with the modules that import it, once for every usage. -/
structure Usage where
  declaration : Declaration
  importers : List String
deriving DecidableEq, Repr

namespace Usage

def isUsed (u : Usage) : Bool := !u.importers.isEmpty

def tally : List (String × Nat) → String → List (String × Nat)
  | [], m => [(m, 1)]
  | (name, n) :: rest, m => if name = m then (name, n + 1) :: rest else (name, n) :: tally rest m

/-- The modules with the number of their usages, in the order of their first. -/
def counts (u : Usage) : List (String × Nat) := u.importers.foldl tally []

end Usage

structure Report where
  /-- The path of the file that holds the declarations. -/
  target : String
  usages : List Usage
  filesScanned : Nat
  filesExcluded : Nat
  skipped : List Skipped
deriving DecidableEq, Repr

namespace Report

def usagesOf (ds : List Declaration) (index : UsageIndex) : List Usage :=
  ds.map fun d => ⟨d, (index.importers? d.name).getD []⟩

def used (r : Report) : List Usage := r.usages.filter (·.isUsed)

def unused (r : Report) : List Declaration :=
  (r.usages.filter fun u => !u.isUsed).map (·.declaration)

def total (r : Report) : Nat := (r.usages.flatMap (·.importers)).length

def modules (r : Report) : List String := distinct (r.usages.flatMap (·.importers))

end Report

end ImportUsage
