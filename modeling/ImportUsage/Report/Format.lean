import ImportUsage.Source.Language

/-! The formats of a report. -/

namespace ImportUsage

inductive ReportFormat
  | json
  | csv
  | markdown
deriving DecidableEq, Repr

namespace ReportFormat

def extension : ReportFormat → String
  | .json => "json"
  | .csv => "csv"
  | .markdown => "md"

def name : ReportFormat → String
  | .json => "json"
  | .csv => "csv"
  | .markdown => "markdown"

/-- The format called by a text, whatever its case. -/
def ofText? (text : String) : Option ReportFormat :=
  let word := lowerText text
  if word = "json" then some .json
  else if word = "csv" then some .csv
  else if word = "markdown" || word = "md" then some .markdown
  else none

def unknownMessage (text : String) : String :=
  "Unknown report format: '" ++ text ++ "'. Valid formats: json, csv, markdown"

end ReportFormat

end ImportUsage
