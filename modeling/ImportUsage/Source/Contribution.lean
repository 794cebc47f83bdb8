import ImportUsage.Source.Declaration
import ImportUsage.Source.Import

/-! What single statements contribute to the outline of a text. -/

namespace ImportUsage

inductive Contribution
  | imports (i : Import)
  | declares (ds : List Declaration)
  /-- Names exported by a clause: each local name with the name it is exported under. -/
  | exports (names : List (String × String))
deriving DecidableEq, Repr

end ImportUsage
