import ImportUsage.Report.Csv
import ImportUsage.Report.Format
import ImportUsage.Report.Json
import ImportUsage.Report.Markdown

/-! The text of a report in a chosen format. -/

namespace ImportUsage

def Report.text (r : Report) : ReportFormat → String
  | .json => r.json
  | .csv => r.csv
  | .markdown => r.markdown

end ImportUsage
