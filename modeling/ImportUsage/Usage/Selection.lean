import ImportUsage.Source.Declaration
import ImportUsage.Usage.Distinct

/-! The declarations of the target that are searched for. -/

namespace ImportUsage

inductive Scope
  | exported
  | all
deriving DecidableEq, Repr

def Scope.admits : Scope → Declaration → Bool
  | .exported, d => d.exported
  | .all, _ => true

/-- The declarations in scope, each name once: of several with one name, such as the signatures
of an overloaded function, the first stays. -/
def Scope.select (scope : Scope) (ds : List Declaration) : List Declaration :=
  distinctBy (·.name) (ds.filter scope.admits)

end ImportUsage
