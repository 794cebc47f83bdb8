import ImportUsage.Json.Value
import ImportUsage.Report.Basic

/-! The report as a JSON text. -/

namespace ImportUsage

def Declaration.Kind.tag : Declaration.Kind → String
  | .typeAlias => "type_alias"
  | kind => kind.word

namespace Report

def usageJson (u : Usage) : JsonValue :=
  .object [("name", .text u.declaration.name), ("kind", .text u.declaration.kind.tag),
    ("exported", .flag u.declaration.exported), ("line", .number u.declaration.line),
    ("consumers", .list (u.importers.map .text))]

def skippedJson (s : Skipped) : JsonValue :=
  .object [("path", .text s.path), ("reason", .text s.reason)]

def summaryJson (r : Report) : JsonValue :=
  .object [("declarations", .number r.usages.length), ("used_declarations", .number r.used.length),
    ("unused_declarations", .number (r.usages.length - r.used.length)),
    ("consumer_modules", .number r.modules.length), ("total_usages", .number r.total),
    ("files_scanned", .number r.filesScanned), ("files_excluded", .number r.filesExcluded),
    ("files_skipped", .number r.skipped.length)]

/-- The report as a JSON value. The list of skipped files is there only if it is not empty. -/
def jsonValue (r : Report) : JsonValue :=
  .object ([("target", .text r.target), ("summary", r.summaryJson),
    ("declarations", .list (r.usages.map usageJson))] ++
    if r.skipped = [] then [] else [("skipped", .list (r.skipped.map skippedJson))])

def json (r : Report) : String := r.jsonValue.render ++ "\n"

end Report

end ImportUsage
