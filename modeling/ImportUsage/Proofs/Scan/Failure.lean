import Mathlib.Data.List.Basic
import ImportUsage.Proofs.FileTree.Write
import ImportUsage.Proofs.Source.TextTree
import ImportUsage.Scan.Run

/-! What a failed run leaves behind: nothing, or the report if only the graph could not be
written. -/

namespace ImportUsage

theorem FileTree.write_error {t : FileTree} {path : String} {fault : Fault}
    (placed : t.placeFor path = .error fault) (text : String) :
    t.write path text = (.error ⟨path, fault⟩, t) := by
  rw [write, writeText_error placed]

theorem FileTree.write_writes {t : FileTree} {path : String} {place : Location}
    (placed : t.placeFor path = .ok place) (text : String) :
    ∃ t', t.write path text = (.ok (), t') ∧ t.Writes place text t' := by
  obtain ⟨t', done, writes⟩ := writeText_writes placed text
  exact ⟨t', by rw [write, done], writes⟩

inductive Reported (o : Options) (t : FileTree) (s : Scan) : FileTree → Prop
  | unasked (absent : o.report = none) : Reported o t s t
  | written (format : ReportFormat) (place : Location) (t' : FileTree)
      (asked : o.report = some format)
      (placed : t.placeFor (o.artifact format.extension) = .ok place)
      (writes : t.Writes place ((s.report o.target).text format) t') : Reported o t s t'

theorem writeReport_cases (o : Options) (t : FileTree) (s : Scan) :
    (∃ format fault, o.report = some format ∧
      t.placeFor (o.artifact format.extension) = .error fault ∧
      s.writeReport o t = (.error ⟨o.artifact format.extension, fault⟩, t)) ∨
    ∃ report t', s.writeReport o t = (.ok report, t') ∧ Reported o t s t' := by
  cases asked : o.report with
  | none => exact .inr ⟨none, t, by rw [Scan.writeReport, asked], .unasked asked⟩
  | some format =>
    cases placed : t.placeFor (o.artifact format.extension) with
    | error fault =>
      refine .inl ⟨format, fault, rfl, placed, ?_⟩
      simp only [Scan.writeReport, asked, FileTree.write_error placed]
    | ok place =>
      obtain ⟨t', done, writes⟩ :=
        FileTree.write_writes placed ((s.report o.target).text format)
      refine .inr ⟨some (o.artifact format.extension), t', ?_,
        .written format place t' asked placed writes⟩
      simp only [Scan.writeReport, asked, done]

theorem draw_error {g : Graph} {base : String} {t : FileTree} {fault : Fault}
    (placed : t.placeFor (Path.withExtension base "dot") = .error fault) (rendering : Rendering) :
    g.draw base rendering t = (.error ⟨Path.withExtension base "dot", fault⟩, t) := by
  simp only [Graph.draw, FileTree.write_error placed]

theorem draw_writes {g : Graph} {base : String} {t : FileTree} {place : Location}
    (placed : t.placeFor (Path.withExtension base "dot") = .ok place) (rendering : Rendering) :
    ∃ artifacts t', g.draw base rendering t = (.ok artifacts, t') ∧ t.Writes place g.dot t' := by
  obtain ⟨t', done, writes⟩ := FileTree.write_writes placed g.dot
  simp only [Graph.draw, done]
  exact ⟨_, t', rfl, writes⟩

section

variable [TreeReader]

/-- All ways that a run can take, with what it gives and the tree that it leaves. -/
inductive Course (o : Options) (t : FileTree) : Except RunError Outcome × FileTree → Prop
  | unscanned (e : ScanError) (scanned : scan o t = .error e) : Course o t (.error (.scan e), t)
  | unreported (s : Scan) (format : ReportFormat) (fault : Fault) (scanned : scan o t = .ok s)
      (asked : o.report = some format)
      (placed : t.placeFor (o.artifact format.extension) = .error fault) :
      Course o t (.error (.report ⟨o.artifact format.extension, fault⟩), t)
  | undrawn (s : Scan) (t' : FileTree) (fault : Fault) (scanned : scan o t = .ok s)
      (reported : Reported o t s t') (placed : t'.placeFor (o.artifact "dot") = .error fault) :
      Course o t (.error (.graph ⟨o.artifact "dot", fault⟩), t')
  | finished (s : Scan) (t' t'' : FileTree) (place : Location) (artifacts : Artifacts)
      (report : Option String) (scanned : scan o t = .ok s) (reported : Reported o t s t')
      (placed : t'.placeFor (o.artifact "dot") = .ok place)
      (writes : t'.Writes place (Graph.ofIndex s.index).dot t'') :
      Course o t (.ok ⟨s, Graph.ofIndex s.index, artifacts, report⟩, t'')

theorem run_course (o : Options) (t : FileTree) : Course o t (run o t) := by
  unfold run
  cases scanned : scan o t with
  | error e => exact .unscanned e scanned
  | ok s =>
    dsimp only
    obtain ⟨format, fault, asked, placed, failed⟩ | ⟨report, t', done, reported⟩ :=
      writeReport_cases o t s
    · simp only [failed]
      exact .unreported s format fault scanned asked placed
    · simp only [done]
      cases placed : t'.placeFor (o.artifact "dot") with
      | error fault =>
        rw [draw_error placed]
        exact .undrawn s t' fault scanned reported placed
      | ok place =>
        obtain ⟨artifacts, t'', drawn, writes⟩ := draw_writes placed o.rendering
        rw [drawn]
        exact .finished s t' t'' place artifacts report scanned reported placed writes

/-- The report can be written and the graph cannot. -/
structure StrandsReport (o : Options) (t : FileTree) (place : Location) (text : String) : Prop where
  written : ∃ s format, scan o t = .ok s ∧ o.report = some format ∧
    t.placeFor (o.artifact format.extension) = .ok place ∧ (s.report o.target).text format = text
  blocked : ∃ fault, t.placeFor (o.artifact "dot") = .error fault

theorem strandsReport_fails {o : Options} {t : FileTree} {place : Location} {text : String}
    (strands : StrandsReport o t place text) :
    (∃ w, (run o t).1 = .error (.graph w)) ∧
      ∀ p, (run o t).2.contentAt? p = if p = place then some (.text text) else t.contentAt? p := by
  obtain ⟨⟨s, format, scanned, asked, placed, rfl⟩, fault, blocked⟩ := strands
  have course := run_course o t
  generalize run o t = result at course ⊢
  cases course with
  | unscanned e failed => simp [scanned] at failed
  | unreported s' format' fault' scanned' asked' placed' =>
    cases asked.symm.trans asked'
    simp [placed] at placed'
  | undrawn s' t' fault' scanned' reported placed' =>
    cases scanned.symm.trans scanned'
    cases reported with
    | unasked absent => simp [asked] at absent
    | written format' place' _ asked' placed' writes =>
      cases asked.symm.trans asked'
      cases placed.symm.trans placed'
      exact ⟨⟨_, rfl⟩, writes.contents⟩
  | finished s' t' t'' place' artifacts report scanned' reported placed' writes =>
    -- Writing the report has not opened a way to the graph's file.
    cases reported with
    | unasked absent => simp [asked] at absent
    | written format' _ _ asked' _ before =>
      rw [before.places, blocked] at placed'
      cases placed'

theorem failed_run_eq {o : Options} {t : FileTree} {e : RunError}
    (failed : (run o t).1 = .error e) (clear : ∀ place text, ¬StrandsReport o t place text) :
    (run o t).2 = t := by
  have course := run_course o t
  generalize run o t = result at course failed ⊢
  cases course with
  | unscanned e' scanned => rfl
  | unreported s format fault scanned asked placed => rfl
  | undrawn s t' fault scanned reported placed =>
    cases reported with
    | unasked absent => rfl
    | written format place _ asked placed' writes =>
      cases blocked : t.placeFor (o.artifact "dot") with
      | error fault' =>
        exact absurd ⟨⟨s, format, scanned, asked, placed', rfl⟩, fault', blocked⟩ (clear place _)
      | ok place' =>
        rw [← writes.places, placed] at blocked
        cases blocked
  | finished s t' t'' place artifacts report scanned reported placed writes => cases failed

/-- A failed run leaves the tree as it was, unless the report can be written and the graph cannot.
Such a run always fails, and the file of its report then holds the report. -/
theorem failed_run_keeps_files_iff (o : Options) (t : FileTree) :
    (∀ e, (run o t).1 = .error e →
      ((∀ p, (run o t).2.contentAt? p = t.contentAt? p) ↔
        ∀ place text, StrandsReport o t place text → t.contentAt? place = some (.text text)) ∧
      ((∀ place text, ¬StrandsReport o t place text) → (run o t).2 = t)) ∧
    ∀ place text, StrandsReport o t place text →
      (∃ w, (run o t).1 = .error (.graph w)) ∧
      ∀ p, (run o t).2.contentAt? p =
        if p = place then some (.text text) else t.contentAt? p := by
  refine ⟨fun e failed => ⟨⟨?_, ?_⟩, failed_run_eq failed⟩, fun _ _ => strandsReport_fails⟩
  · intro kept place text strands
    rw [← kept, (strandsReport_fails strands).2, if_pos rfl]
  · intro held p
    by_cases clear : ∀ place text, ¬StrandsReport o t place text
    · rw [failed_run_eq failed clear]
    · simp only [not_forall, not_not] at clear
      obtain ⟨place, text, strands⟩ := clear
      rw [(strandsReport_fails strands).2]
      split
      case isTrue here => rw [here, held place text strands]
      case isFalse => rfl

end

/- A directory stands where the graph would be written. -/
def blockedGraph (others : List (String × Node)) : FileTree :=
  ⟨.directory (others ++ [("lib.ts", .file (.text "export const a = 0;\n") false),
    ("out.dot", .directory []), ("src", .directory [])]), []⟩

def tableOptions : Options :=
  { target := "lib.ts", root := "src", output := "out", report := some .csv }

/- The report goes through a link, so a file of another name is lost. -/
def linkedReport : FileTree :=
  blockedGraph [("notes.txt", .file (.text "kept\n") false), ("out.csv", .link "notes.txt")]

local instance exportReader : TreeReader := .knowing [[.exporting "a" []]]

theorem failed_run_replaces_linked_file :
    linkedReport.contentAt? ["notes.txt"] = some (.text "kept\n") ∧
    (∃ w, (run tableOptions linkedReport).1 = .error (.graph w)) ∧
    (run tableOptions linkedReport).2.contentAt? ["notes.txt"] =
      some (.text "declaration,module,count\n") ∧
    ¬∀ p, (run tableOptions linkedReport).2.contentAt? p = linkedReport.contentAt? p := by
  have scanned : scan tableOptions linkedReport =
      .ok ⟨[⟨"a", .variableBinding, true, 1⟩], ⟨[]⟩, 0, 0, []⟩ := by decide +kernel
  have strands : StrandsReport tableOptions linkedReport ["notes.txt"]
      "declaration,module,count\n" :=
    ⟨⟨_, .csv, scanned, rfl, by decide +kernel, by decide +kernel⟩, .isDirectory,
      by decide +kernel⟩
  have before : linkedReport.contentAt? ["notes.txt"] = some (.text "kept\n") := by decide
  obtain ⟨exact_when, fails⟩ := failed_run_keeps_files_iff tableOptions linkedReport
  obtain ⟨⟨w, failed⟩, contents⟩ := fails _ _ strands
  refine ⟨before, ⟨w, failed⟩, by rw [contents, if_pos rfl], ?_⟩
  rw [(exact_when _ failed).1]
  intro held
  have same := held _ _ strands
  rw [before] at same
  exact absurd same (by decide)

/- A failed run has made a file. -/
theorem failed_run_creates_report :
    (run tableOptions (blockedGraph [])).1 = .error (.graph ⟨"out.dot", .isDirectory⟩) ∧
    (blockedGraph []).contentAt? ["out.csv"] = none ∧
    (run tableOptions (blockedGraph [])).2.contentAt? ["out.csv"] =
      some (.text "declaration,module,count\n") := by
  decide +kernel

end ImportUsage
