import ImportUsage.Source.Language
import ImportUsage.Source.LocalExport
import ImportUsage.Source.Reader
import ImportUsage.Source.Statement

/-! The outline of a source text, what is known of it once it is read: its declarations and
imports. -/

namespace ImportUsage

structure Parsed where
  declarations : List Declaration
  imports : List Import
deriving DecidableEq, Repr

def Parsed.exported (p : Parsed) : List String :=
  (p.declarations.filter (·.exported)).map (·.name)

def importsIn (cs : List Contribution) : List Import :=
  cs.filterMap fun
    | .imports i => some i
    | _ => none

/-- The declarations among the contributions, before clauses apply. -/
def declarationsIn (cs : List Contribution) : List Declaration :=
  cs.flatMap fun
    | .declares ds => ds
    | _ => []

def exportsIn (cs : List Contribution) : List (String × String) :=
  cs.flatMap fun
    | .exports names => names
    | _ => []

def Parsed.ofContributions (cs : List Contribution) : Parsed where
  declarations := exportLocals (declarationsIn cs) (exportsIn cs)
  imports := importsIn cs

def parse [TreeReader] (d : Dialect) (source : Text) : Except Position Parsed :=
  (TreeReader.read d source).map fun tree => .ofContributions tree.contributions

end ImportUsage
