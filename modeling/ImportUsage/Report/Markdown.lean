import ImportUsage.Report.Basic

/-! The report as a Markdown text. -/

namespace ImportUsage

namespace Markdown

def code (s : String) : String := "\x60" ++ s ++ "\x60"

def row (name : String) (n : Nat) : String := "| " ++ name ++ " | " ++ toString n ++ " |\n"

def summary (r : Report) : String :=
  "## Summary\n\n" ++
  "| Metric | Count |\n" ++
  "|--------|-------|\n" ++
  row "Declarations" r.usages.length ++
  row "Used" r.used.length ++
  row "Unused" (r.usages.length - r.used.length) ++
  row "Consumer Modules" r.modules.length ++
  row "Total Usages" r.total ++
  row "Files Scanned" r.filesScanned ++
  (if 0 < r.filesExcluded then row "Files Excluded" r.filesExcluded else "") ++
  (if r.skipped = [] then "" else row "Files Skipped" r.skipped.length) ++
  "\n"

def usage (u : Usage) : String :=
  let n := u.counts.length
  "### " ++ code u.declaration.name ++ " (" ++ u.declaration.kind.word ++ ", " ++ toString n ++
    (if n = 1 then " module" else " modules") ++ ")\n\n" ++
  "| Module | Imports |\n" ++
  "|--------|---------|\n" ++
  String.join (u.counts.map fun (name, count) => row name count) ++
  "\n"

def usages (r : Report) : String :=
  if r.used = [] then "" else "## Usages\n\n" ++ String.join (r.used.map usage)

def unusedLine (d : Declaration) : String :=
  "- " ++ code d.name ++ " (" ++ d.kind.word ++ ", line " ++ toString d.line ++ ")\n"

def unused (r : Report) : String :=
  if r.unused = [] then ""
  else "## Unused Declarations (" ++ toString r.unused.length ++ ")\n\n" ++
    String.join (r.unused.map unusedLine) ++ "\n"

def skippedLine (s : Skipped) : String := "- " ++ code s.path ++ ": " ++ s.reason ++ "\n"

def skipped (r : Report) : String :=
  if r.skipped = [] then ""
  else "## Skipped Files (" ++ toString r.skipped.length ++ ")\n\n" ++
    String.join (r.skipped.map skippedLine) ++ "\n"

end Markdown

def Report.markdown (r : Report) : String :=
  "# Declaration Usage Report\n\n" ++
  "**Target:** " ++ Markdown.code r.target ++ "\n\n" ++
  Markdown.summary r ++ Markdown.usages r ++ Markdown.unused r ++ Markdown.skipped r

end ImportUsage
