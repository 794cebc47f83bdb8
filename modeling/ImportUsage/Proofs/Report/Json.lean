import Mathlib.Algebra.GroupWithZero.Nat
import ImportUsage.Proofs.Json.ReadBack
import ImportUsage.Proofs.Usage.Distinct
import ImportUsage.Report.Json

/-! The JSON text of a report read back: nothing is lost, and the figures of the summary are those
of the data beside it. -/

namespace ImportUsage

namespace JsonValue

def member? (name : String) : JsonValue → Option JsonValue
  | .object members => members.lookup name
  | _ => none

def text? : JsonValue → Option String
  | .text s => some s
  | _ => none

def number? : JsonValue → Option Nat
  | .number n => some n
  | _ => none

def flag? : JsonValue → Option Bool
  | .flag b => some b
  | _ => none

def listOf? {α : Type} (read : JsonValue → Option α) : JsonValue → Option (List α)
  | .list items => items.mapM read
  | _ => none

/-- The members of an object that has nothing but numbers. -/
def numbers? : JsonValue → Option (List (String × Nat))
  | .object members => members.mapM fun m => m.2.number?.map (m.1, ·)
  | _ => none

theorem listOf?_map {α : Type} {read : JsonValue → Option α} {write : α → JsonValue}
    (undoes : ∀ a, read (write a) = some a) (as : List α) :
    listOf? read (.list (as.map write)) = some as := by
  have each : read ∘ write = fun a => pure a := funext undoes
  unfold listOf?
  simp only
  rw [List.mapM_map, each, List.mapM_pure]
  simp

end JsonValue

def Declaration.Kind.ofTag? (tag : String) : Option Declaration.Kind :=
  [function, classType, interface, typeAlias, enumType, variableBinding, namespaceBlock].find?
    (·.tag = tag)

theorem Declaration.Kind.ofTag?_tag (kind : Declaration.Kind) : ofTag? kind.tag = some kind := by
  cases kind <;> decide

open JsonValue

def Usage.ofJson? (v : JsonValue) : Option Usage := do
  let name ← (← v.member? "name").text?
  let kind ← Declaration.Kind.ofTag? (← (← v.member? "kind").text?)
  let exported ← (← v.member? "exported").flag?
  let line ← (← v.member? "line").number?
  let importers ← (← v.member? "consumers").listOf? text?
  some ⟨⟨name, kind, exported, line⟩, importers⟩

def Skipped.ofJson? (v : JsonValue) : Option Skipped := do
  let path ← (← v.member? "path").text?
  let reason ← (← v.member? "reason").text?
  some ⟨path, reason⟩

namespace Report

/-- The report that a value tells. If no skipped files are mentioned there are none. -/
def ofJson? (v : JsonValue) : Option Report := do
  let target ← (← v.member? "target").text?
  let usages ← (← v.member? "declarations").listOf? Usage.ofJson?
  let summary ← v.member? "summary"
  let filesScanned ← (← summary.member? "files_scanned").number?
  let filesExcluded ← (← summary.member? "files_excluded").number?
  let skipped ← ((v.member? "skipped").getD (.list [])).listOf? Skipped.ofJson?
  some { target, usages, filesScanned, filesExcluded, skipped }

/-- The figures of a report, counted from its data. -/
def figures (r : Report) : List (String × Nat) :=
  [("declarations", r.usages.length),
    ("used_declarations", r.usages.countP (·.importers ≠ [])),
    ("unused_declarations", r.usages.countP (·.importers = [])),
    ("consumer_modules", (r.usages.flatMap (·.importers)).toFinset.card),
    ("total_usages", (r.usages.map (·.importers.length)).sum),
    ("files_scanned", r.filesScanned),
    ("files_excluded", r.filesExcluded),
    ("files_skipped", r.skipped.length)]

theorem ofJson?_usageJson (u : Usage) : Usage.ofJson? (usageJson u) = some u := by
  have undoes (s : String) : text? (.text s) = some s := rfl
  have importers := listOf?_map undoes u.importers
  have kind := Declaration.Kind.ofTag?_tag u.declaration.kind
  unfold Usage.ofJson? usageJson
  simp [member?, text?, flag?, number?, List.lookup_cons, importers, kind]

theorem ofJson?_skippedJson (s : Skipped) : Skipped.ofJson? (skippedJson s) = some s := by
  unfold Skipped.ofJson? skippedJson
  simp [member?, text?, List.lookup_cons]

theorem member?_skipped (r : Report) :
    (r.jsonValue.member? "skipped").getD (.list []) = .list (r.skipped.map skippedJson) := by
  unfold jsonValue
  by_cases none_skipped : r.skipped = []
  · simp [none_skipped, member?, List.lookup_cons]
  · simp [none_skipped, member?, List.lookup_cons]

theorem ofJson?_jsonValue (r : Report) : ofJson? r.jsonValue = some r := by
  have usages := listOf?_map ofJson?_usageJson r.usages
  have skipped := listOf?_map ofJson?_skippedJson r.skipped
  have target : r.jsonValue.member? "target" = some (.text r.target) := rfl
  have declarations :
      r.jsonValue.member? "declarations" = some (.list (r.usages.map usageJson)) := rfl
  have summary : r.jsonValue.member? "summary" = some r.summaryJson := rfl
  have scanned : r.summaryJson.member? "files_scanned" = some (.number r.filesScanned) := rfl
  have excluded : r.summaryJson.member? "files_excluded" = some (.number r.filesExcluded) := rfl
  unfold ofJson?
  simp only [Option.bind_eq_bind, Option.bind_some, target, declarations, summary, scanned,
    excluded, member?_skipped, usages, skipped, text?, number?]

theorem length_used (r : Report) : r.used.length = r.usages.countP (·.importers ≠ []) := by
  unfold used
  rw [List.countP_eq_length_filter]
  congr 1
  apply List.filter_congr
  intro u _
  cases importers : u.importers with
  | nil => simp [Usage.isUsed, importers]
  | cons m rest => simp [Usage.isUsed, importers]

theorem length_sub_used (r : Report) :
    r.usages.length - r.used.length = r.usages.countP (·.importers = []) := by
  have split : r.usages.length =
      r.usages.countP (·.importers = []) + r.usages.countP (·.importers ≠ []) := by
    simpa using List.length_eq_countP_add_countP (fun u : Usage => u.importers = [])
  rw [length_used]
  omega

theorem numbers?_summaryJson (r : Report) : r.summaryJson.numbers? = some r.figures := by
  unfold summaryJson figures
  rw [length_sub_used, length_used, modules, length_distinct, total, List.length_flatMap]
  rfl

end Report

/-- Reading the JSON text of a report gives the report back, and the summary in it holds what is
counted from the report. -/
theorem json_reads_back (r : Report) :
    ∃ v, Json.read? r.json = some v ∧ Report.ofJson? v = some r ∧
      (v.member? "summary").bind numbers? = some r.figures := by
  refine ⟨r.jsonValue, Json.read?_render r.jsonValue, r.ofJson?_jsonValue, ?_⟩
  exact r.numbers?_summaryJson

end ImportUsage
