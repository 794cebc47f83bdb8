import ImportUsage.Report.Basic

/-! The report as a table of comma-separated fields: a line for each declaration and each module
that imports it, with the number of usages. -/

namespace ImportUsage

namespace Csv

/-- A field: in quotes if it holds a comma, a quote or a line feed, with quotes doubled. -/
def field (s : String) : String :=
  let chars := s.toList
  if chars.any fun c => c = ',' || c = '"' || c = '\n' then
    String.ofList ('"' :: chars.flatMap (fun c => if c = '"' then ['"', '"'] else [c]) ++ ['"'])
  else s

def line (declaration : String) (importer : String × Nat) : String :=
  field declaration ++ "," ++ field importer.1 ++ "," ++ toString importer.2 ++ "\n"

end Csv

def Report.csv (r : Report) : String :=
  "declaration,module,count\n" ++
  String.join (r.usages.flatMap fun u => u.counts.map (Csv.line u.declaration.name))

end ImportUsage
