import ImportUsage.Source.Declaration

/-! Declarations exported by a clause that stands apart from them. -/

namespace ImportUsage

/-- Exports the local name `pair.1` as `pair.2`. Under its own name every declaration of that name
becomes exported; under another name a copy of the first one is added, since that is the name
importers use. A name that is not declared here changes nothing. -/
def exportLocal (ds : List Declaration) (pair : String × String) : List Declaration :=
  match ds.find? (·.name = pair.1) with
  | none => ds
  | some d =>
    if pair.1 = pair.2 then
      ds.map fun d => if d.name = pair.1 then { d with exported := true } else d
    else ds ++ [{ d with name := pair.2, exported := true }]

def exportLocals (ds : List Declaration) (pairs : List (String × String)) : List Declaration :=
  pairs.foldl exportLocal ds

end ImportUsage
