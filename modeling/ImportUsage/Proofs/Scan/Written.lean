import ImportUsage.Proofs.Scan.Again

/-! What a run writes: its artifacts and nothing else, however it ends. Where it succeeds, the
artifacts show the scan that it returns; they have different names, so neither replaces the other. -/

namespace ImportUsage

attribute [local irreducible] FileTree.readSource Report.text Graph.dot

namespace FileTree

variable {t t' : FileTree} {outs : List (String × String)}

/-- Writing leaves the ways of the tree, and whatever stands where none of the paths leads. -/
theorem writeAll_elsewhere (wrote : t.writeAll outs = .ok t') :
    t'.workingDirectory = t.workingDirectory ∧
      (∀ p, t'.root.wayAt? p = t.root.wayAt? p) ∧
      ∀ p, (∀ out ∈ outs, t.placeFor out.1 ≠ .ok p) →
        t'.root.entryAt? p = t.root.entryAt? p := by
  -- a walk that looks for no extension overlooks every file
  have blind : ∀ out ∈ outs, t.Overlooked ⟨"", [], []⟩ out.1 := by
    intro out _ place placed
    obtain ⟨parent, name, whole, _⟩ := (placeFor_free placed).inDirectory
    exact ⟨parent, name, whole, rfl⟩
  have spares := writeAll_spares _ outs t t' blind wrote
  refine ⟨spares.working, spares.ways, fun p elsewhere => spares.others p ?_⟩
  rintro ⟨out, member, placed⟩
  exact elsewhere out member placed

theorem writeAll_read (wrote : t.writeAll outs = .ok t') {path text : String} {place : Location}
    (placed : t.placeFor path = .ok place) (plain : t.isLink path = false)
    (held : ∀ before, t.heldAfter place outs before = some (.text text)) :
    t'.readText path = .ok text := by
  obtain ⟨working, ways, _⟩ := writeAll_elsewhere wrote
  apply readText_of_placeFor placed plain working ways
  rw [writeAll_contents outs t t' wrote, held]

end FileTree

/-- However a run ends, it has written to the first of its artifacts, none, one or all. -/
theorem run_writes [TreeReader] (o : Options) (t : FileTree) :
    ∃ outs, outs.map (·.1) <+: o.artifacts ∧ t.writeAll outs = .ok (run o t).2 := by
  unfold run
  cases scan o t with
  | error e => exact ⟨[], List.nil_prefix, rfl⟩
  | ok s =>
    rw [← s.outputs_paths o]
    dsimp only
    obtain ⟨format, fault, _, _, failed⟩ | ⟨report, between, done, _⟩ := writeReport_cases o t s
    · rw [failed]
      exact ⟨[], List.nil_prefix, rfl⟩
    · have reported := (writeReport_finishes_iff s o t between).mp ⟨report, done⟩
      rw [done]
      dsimp only
      cases placed : between.placeFor (o.artifact "dot") with
      | error fault =>
        rw [draw_error placed]
        refine ⟨s.reports o, ?_, reported⟩
        rw [Scan.outputs, List.map_append]
        exact List.prefix_append _ _
      | ok place =>
        obtain ⟨artifacts, after, drawn, _⟩ := draw_writes placed o.rendering
        have finished := (draw_finishes_iff _ _ _ between after).mp ⟨artifacts, drawn⟩
        rw [drawn]
        refine ⟨s.outputs o, List.prefix_rfl, ?_⟩
        rw [Scan.outputs, FileTree.writeAll_append, reported]
        exact finished

theorem run_succeeds_iff [TreeReader] (o : Options) (t : FileTree) :
    (∃ outcome, (run o t).1 = .ok outcome) ↔
      (∃ s, scan o t = .ok s) ∧ ∀ path ∈ o.artifacts, ∃ place, t.placeFor path = .ok place := by
  have writable : ∀ s : Scan, (∃ t', t.writeAll (s.outputs o) = .ok t') ↔
      ∀ path ∈ o.artifacts, ∃ place, t.placeFor path = .ok place := by
    intro s
    rw [FileTree.writeAll_ok_iff, ← s.outputs_paths o, List.forall_mem_map]
  constructor
  · rintro ⟨outcome, done⟩
    obtain ⟨scanned, _⟩ := run_scanned done
    have wrote := (run_finishes_iff scanned).mp ⟨outcome, Prod.ext done rfl⟩
    exact ⟨⟨_, scanned⟩, (writable _).mp ⟨_, wrote⟩⟩
  · rintro ⟨⟨s, scanned⟩, placed⟩
    obtain ⟨t', wrote⟩ := (writable s).mpr placed
    obtain ⟨outcome, finished⟩ := (run_finishes_iff scanned).mpr wrote
    exact ⟨outcome, by rw [finished]⟩

/-- The report and the graph are written to different files, if neither path is a link. -/
theorem artifacts_differ {o : Options} {t : FileTree} {format : ReportFormat} {place : Location}
    (plain : t.isLink (o.artifact format.extension) = false)
    (plain' : t.isLink (o.artifact "dot") = false)
    (placed : t.placeFor (o.artifact format.extension) = .ok place) :
    t.placeFor (o.artifact "dot") ≠ .ok place := by
  intro placed'
  obtain ⟨parent, name, rfl, named⟩ := FileTree.placeFor_last placed plain
  obtain ⟨parent', name', same, named'⟩ := FileTree.placeFor_last placed' plain'
  obtain ⟨_, last⟩ := List.append_inj' same rfl
  cases last
  have ends := Path.fileName?_withExtension (by cases format <;> decide)
    (by cases format <;> decide) named
  have ends' := Path.fileName?_withExtension (by decide) (by decide) named'
  -- of two endings of one name, one ends with the other
  rcases List.suffix_or_suffix_of_suffix ends ends' with inner | inner
  · cases format <;> revert inner <;> decide
  · cases format <;> revert inner <;> decide

/-- A run writes its artifacts and nothing else, whatever it returns. It succeeds if the scan does and
the artifacts have a place; then both hold what the scan shows that it returns. -/
theorem run_writes_only_artifacts [TreeReader] (o : Options) (t : FileTree) :
    (∀ p, (∀ path ∈ o.artifacts, t.placeFor path ≠ .ok p) →
      (run o t).2.root.entryAt? p = t.root.entryAt? p) ∧
    ((∃ outcome, (run o t).1 = .ok outcome) ↔
      (∃ s, scan o t = .ok s) ∧ ∀ path ∈ o.artifacts, ∃ place, t.placeFor path = .ok place) ∧
    ∀ outcome, (run o t).1 = .ok outcome → (∀ path ∈ o.artifacts, t.isLink path = false) →
      scan o t = .ok outcome.scan ∧
      (run o t).2.readText (o.artifact "dot") = .ok (Graph.ofIndex outcome.scan.index).dot ∧
      ∀ format, o.report = some format →
        (run o t).2.readText (o.artifact format.extension) =
          .ok ((outcome.scan.report o.target).text format) := by
  refine ⟨?_, run_succeeds_iff o t, ?_⟩
  · intro p elsewhere
    obtain ⟨outs, first, wrote⟩ := run_writes o t
    refine (FileTree.writeAll_elsewhere wrote).2.2 p fun out member => ?_
    exact elsewhere out.1 (first.subset (List.mem_map_of_mem member))
  · intro outcome done plain
    obtain ⟨scanned, _⟩ := run_scanned done
    have wrote := (run_finishes_iff scanned).mp ⟨outcome, Prod.ext done rfl⟩
    have placed := ((run_succeeds_iff o t).mp ⟨outcome, done⟩).2
    have graph : o.artifact "dot" ∈ o.artifacts := by simp [Options.artifacts]
    refine ⟨scanned, ?_, ?_⟩
    · obtain ⟨place, there⟩ := placed _ graph
      apply FileTree.writeAll_read wrote there (plain _ graph)
      intro before
      rw [Scan.outputs, FileTree.heldAfter_concat, if_pos there]
    · intro format asked
      have report : o.artifact format.extension ∈ o.artifacts := by simp [Options.artifacts, asked]
      obtain ⟨place, there⟩ := placed _ report
      apply FileTree.writeAll_read wrote there (plain _ report)
      intro before
      have apart := artifacts_differ (plain _ report) (plain _ graph) there
      rw [Scan.outputs, FileTree.heldAfter_concat, if_neg apart, Scan.reports, asked]
      exact if_pos there

/- The artifacts go through a link to a directory, one of them to a file that is there, beside a file
of the name that is given. -/
def releaseEntries : List (String × Node) :=
  [("one.ts", .file (.text "import \x7b a \x7d from '../lib';\n") false)]

def releaseTree : FileTree :=
  ⟨.directory [("build", .directory [("out.v2", .file (.text "kept\n") false),
      ("out.v2.csv", .file (.text "old\n") false)]), ("latest", .link "build"),
    ("lib.ts", .file (.text "export const a = 0;\n") false), ("src", .directory releaseEntries)], []⟩

def releaseOptions : Options :=
  { target := "lib.ts", root := "src", output := "latest/out.v2", report := some .csv }

def releaseScan : Scan :=
  ⟨[⟨"a", .variableBinding, true, 1⟩], ⟨[("a", ["one.ts"])]⟩, 1, 0, []⟩

local instance releaseReader : TreeReader :=
  .knowing [[.exporting "a" []], [.importing ["a"] "../lib"]]

theorem run_writes_only_artifacts_release :
    ∃ outcome after, run releaseOptions releaseTree = (.ok outcome, after) ∧
      after.root.entryAt? ["build", "out.v2"] = some (.file (.text "kept\n") false) ∧
      after.readText "latest/out.v2.dot" = .ok (Graph.ofIndex releaseScan.index).dot ∧
      after.readText "latest/out.v2.csv" = .ok "declaration,module,count\na,one.ts,1\n" := by
  have scanned : scan releaseOptions releaseTree = .ok releaseScan := by
    have root : releaseTree.find "src" = .ok (.directory releaseEntries) := by
      with_unfolding_all rfl
    have walked : releaseOptions.discovery.walk releaseTree = .ok [.ok "src/one.ts"] :=
      Discovery.walk_of_sorted root (by decide +kernel) (by decide +kernel)
    rw [scan, walked]
    decide +kernel
  have table : releaseOptions.artifact ReportFormat.csv.extension = "latest/out.v2.csv" := by
    decide +kernel
  have graph : releaseOptions.artifact "dot" = "latest/out.v2.dot" := by decide +kernel
  have paths : releaseOptions.artifacts = ["latest/out.v2.csv", "latest/out.v2.dot"] := by
    decide +kernel
  have placed : releaseTree.placeFor "latest/out.v2.csv" = .ok ["build", "out.v2.csv"] := by
    decide +kernel
  have placed' : releaseTree.placeFor "latest/out.v2.dot" = .ok ["build", "out.v2.dot"] := by
    decide +kernel
  have text : (releaseScan.report "lib.ts").text .csv =
      "declaration,module,count\na,one.ts,1\n" := by decide +kernel
  obtain ⟨kept, succeeds, shows⟩ := run_writes_only_artifacts releaseOptions releaseTree
  obtain ⟨outcome, done⟩ := succeeds.mpr ⟨⟨_, scanned⟩, by rw [paths]; simp [placed, placed']⟩
  obtain ⟨returned, drawn, reported⟩ := shows outcome done (by decide +kernel)
  have same : outcome.scan = releaseScan := Except.ok.inj (returned.symm.trans scanned)
  refine ⟨outcome, _, Prod.ext done rfl, ?_, ?_, ?_⟩
  · rw [kept _ (by rw [paths]; simp [placed, placed'])]
    rfl
  · rw [← graph, drawn, same]
  · rw [← table, reported .csv rfl, same, ← text]
    rfl

end ImportUsage
