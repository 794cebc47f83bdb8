import ImportUsage.Proofs.Discovery.Unseen
import ImportUsage.Proofs.Scan.Summaries
import ImportUsage.Proofs.Source.Reading

/-! A run that is repeated. What the first run wrote stands where the second one does not look, so
it scans the same, and writes the same texts to the same places. -/

namespace ImportUsage

attribute [local irreducible] FileTree.readSource Report.text Graph.dot

namespace Options

/-- The paths that a run writes to. -/
def artifacts (o : Options) : List String :=
  (o.report.map fun format => o.artifact format.extension).toList ++ [o.artifact "dot"]

theorem artifacts_foreign (o : Options) (path : String) (member : path ∈ o.artifacts)
    (language : Language) : Language.ofPath path ≠ .ok language := by
  simp only [artifacts, List.mem_append, Option.mem_toList, Option.map_eq_some_iff,
    List.mem_singleton] at member
  obtain ⟨format, _, rfl⟩ | rfl := member
  · exact Language.ofPath_withExtension _ _ (by cases format <;> decide) language
  · exact Language.ofPath_withExtension _ _ (by decide) language

/-- Does a scan read the file of this path? -/
def Reads (o : Options) (t : FileTree) (path : String) : Prop :=
  (∃ language, Language.ofPath path = .ok language) ∧
    (path = o.target ∨ ∃ found, o.discovery.walk t = .ok found ∧ .ok path ∈ found)

end Options

/-- The report, if one is asked for, with its path. -/
def Scan.reports (s : Scan) (o : Options) : List (String × String) :=
  (o.report.map fun format =>
    (o.artifact format.extension, (s.report o.target).text format)).toList

/-- What a run writes, path by path. -/
def Scan.outputs (s : Scan) (o : Options) : List (String × String) :=
  s.reports o ++ [(o.artifact "dot", (Graph.ofIndex s.index).dot)]

theorem Scan.outputs_paths (s : Scan) (o : Options) : (s.outputs o).map (·.1) = o.artifacts := by
  unfold outputs reports Options.artifacts
  cases o.report with
  | none => rfl
  | some format => rfl

theorem Scan.path_mem_artifacts (s : Scan) {o : Options} {out : String × String}
    (member : out ∈ s.outputs o) : out.1 ∈ o.artifacts := by
  rw [← s.outputs_paths o]
  exact List.mem_map_of_mem member

theorem FileTree.write_of_ok {t t' : FileTree} {path text : String}
    (wrote : t.writeText path text = .ok t') : t.write path text = (.ok (), t') := by
  rw [write, wrote]

theorem FileTree.write_of_error {t : FileTree} {path text : String} {fault : Fault}
    (failed : t.writeText path text = .error fault) :
    t.write path text = (.error ⟨path, fault⟩, t) := by
  rw [write, failed]

theorem writeReport_finishes_iff (s : Scan) (o : Options) (t t' : FileTree) :
    (∃ report, s.writeReport o t = (.ok report, t')) ↔ t.writeAll (s.reports o) = .ok t' := by
  unfold Scan.writeReport Scan.reports
  cases o.report with
  | none => simp [FileTree.writeAll]
  | some format =>
    rw [Option.map_some, Option.toList_some, FileTree.writeAll]
    cases wrote : t.writeText (o.artifact format.extension) ((s.report o.target).text format) with
    | error fault => simp [FileTree.write_of_error wrote, Except.bind]
    | ok after => simp [FileTree.write_of_ok wrote, Except.bind, FileTree.writeAll]

theorem draw_finishes_iff (g : Graph) (base : String) (rendering : Rendering) (t t' : FileTree) :
    (∃ artifacts, g.draw base rendering t = (.ok artifacts, t')) ↔
      t.writeAll [(Path.withExtension base "dot", g.dot)] = .ok t' := by
  unfold Graph.draw
  rw [FileTree.writeAll]
  cases wrote : t.writeText (Path.withExtension base "dot") g.dot with
  | error fault => simp [FileTree.write_of_error wrote, Except.bind]
  | ok after => simp [FileTree.write_of_ok wrote, Except.bind, FileTree.writeAll]

/-- After its scan, a run succeeds just when all it has to write can be written. -/
theorem run_finishes_iff [TreeReader] {o : Options} {t t' : FileTree} {s : Scan}
    (scanned : scan o t = .ok s) :
    (∃ outcome, run o t = (.ok outcome, t')) ↔ t.writeAll (s.outputs o) = .ok t' := by
  rw [Scan.outputs, FileTree.writeAll_append, bind_eq_ok]
  constructor
  · rintro ⟨outcome, done⟩
    unfold run at done
    rw [scanned] at done
    dsimp only at done
    split at done
    · cases done
    · rename_i report between reported
      split at done
      · cases done
      · rename_i artifacts after drawn
        cases done
        exact ⟨between, (writeReport_finishes_iff s o t between).mp ⟨report, reported⟩,
          (draw_finishes_iff _ _ o.rendering between _).mp ⟨artifacts, drawn⟩⟩
  · rintro ⟨between, first, second⟩
    obtain ⟨report, reported⟩ := (writeReport_finishes_iff s o t between).mpr first
    obtain ⟨artifacts, drawn⟩ := (draw_finishes_iff _ _ o.rendering between t').mpr second
    unfold run
    rw [scanned]
    dsimp only
    rw [reported]
    dsimp only
    rw [drawn]
    exact ⟨_, rfl⟩

theorem Scan.ofPaths_congr [TreeReader] (o : Options) (ds : List Declaration) (t t' : FileTree)
    (paths : List String) (working : t'.workingDirectory = t.workingDirectory)
    (same : ∀ path ∈ paths, t'.readSource path = t.readSource path) :
    Scan.ofPaths o ds t' paths = Scan.ofPaths o ds t paths := by
  have here : t'.workingPath = t.workingPath := by
    rw [FileTree.workingPath, working, FileTree.workingPath]
  unfold ofPaths
  congr 1
  · congr 1
    apply List.flatMap_congr
    intro path member
    rw [FileTree.usagesAt, FileTree.usagesAt, same path member, here]
  · apply List.countP_congr
    intro path member
    rw [FileTree.isExcludedAt, FileTree.isExcludedAt, same path member, here]
  · apply List.filterMap_congr
    intro path member
    rw [FileTree.skippedAt?, FileTree.skippedAt?, FileTree.sourceError?, FileTree.sourceError?,
      same path member]

theorem scan_spared [TreeReader] {o : Options} {t t' : FileTree} {s : Scan}
    {written : Location → Prop} (spares : t.Spares o.discovery written t') (scanned : scan o t = .ok s)
    (apart : ∀ path text place, o.Reads t path → t.readText path = .ok text →
      t.locate path = .ok place → ¬written place) : scan o t' = .ok s := by
  obtain ⟨parsed, paths, target, walked, harmless, rfl⟩ := (scan_eq_ok_iff o t s).mp scanned
  have same : ∀ path, (path = o.target ∨ ∃ found, o.discovery.walk t = .ok found ∧
        .ok path ∈ found) →
      (∀ fault, t.readSource path ≠ .error (.unreadable path fault)) →
      t'.readSource path = t.readSource path := by
    intro path looked readable
    apply FileTree.readSource_kept spares.keeps spares.working readable
    intro language text place spoken read located
    exact spares.others place (apart path text place ⟨⟨language, spoken⟩, looked⟩ read located)
  have candidates : ∀ path ∈ paths, t'.readSource path = t.readSource path :=
    fun path member => same path (.inr ⟨_, walked, List.mem_map_of_mem member⟩)
      (not_unreadable_of_harmless (harmless path member))
  refine (scan_eq_ok_iff o t' _).mpr ⟨parsed, paths, ?_, spares.walks _ walked, ?_, ?_⟩
  · rw [same o.target (.inl rfl) (by simp [target]), target]
  · intro path member
    rw [candidates path member]
    exact harmless path member
  · exact (Scan.ofPaths_congr o _ t t' paths spares.working candidates).symm

/-- No artifact's path is a link, and no artifact's name is one that a walk looks for. -/
structure Options.WritesAside (o : Options) (t : FileTree) : Prop where
  plain : ∀ path ∈ o.artifacts, t.isLink path = false
  unseen : ∀ path ∈ o.artifacts, (Path.fileName? path).any o.discovery.isEligible = false

theorem Options.WritesAside.overlooked {o : Options} {t : FileTree} (aside : o.WritesAside t)
    {path : String} (member : path ∈ o.artifacts) : t.Overlooked o.discovery path := by
  intro place placed
  obtain ⟨parent, name, whole, named⟩ := FileTree.placeFor_last placed (aside.plain path member)
  have unseen := aside.unseen path member
  rw [named] at unseen
  exact ⟨parent, name, whole, unseen⟩

/-- Without links, no source is an artifact: they have different extensions. -/
theorem Options.WritesAside.apart {o : Options} {t : FileTree} (aside : o.WritesAside t)
    {path text : String} {place : Location} {language : Language}
    (spoken : Language.ofPath path = .ok language) (plain : t.isLink path = false)
    (read : t.readText path = .ok text) (located : t.locate path = .ok place) {artifact : String}
    (member : artifact ∈ o.artifacts) : t.placeFor artifact ≠ .ok place := by
  intro placed
  obtain ⟨name, named⟩ := Language.fileName?_of_ofPath spoken
  obtain ⟨parent, rfl⟩ := FileTree.locate_last located read named plain
  obtain ⟨parent', name', same, named'⟩ :=
    FileTree.placeFor_last placed (aside.plain artifact member)
  obtain ⟨_, last⟩ := List.append_inj' same rfl
  cases last
  have one_language := Language.ofPath_of_fileName? (named.trans named'.symm)
  exact o.artifacts_foreign artifact member language (one_language.symm.trans spoken)

/-- A second run gives the same scan and graph as the first, and all files hold what they held. -/
def Repeats [TreeReader] (o : Options) (t : FileTree) (first : Outcome) : Prop :=
  ∃ second, (run o (run o t).2).1 = .ok second ∧ second.scan = first.scan ∧
    second.graph = first.graph ∧
    ∀ p, (run o (run o t).2).2.contentAt? p = (run o t).2.contentAt? p

/-- A run that succeeds can be repeated, if its artifacts are set aside and no source that is a link
leads to one of them. -/
theorem second_run_changes_nothing [TreeReader] (o : Options) (t : FileTree)
    (aside : o.WritesAside t)
    (links : ∀ path place, o.Reads t path → t.isLink path = true → t.locate path = .ok place →
      ∀ artifact ∈ o.artifacts, t.placeFor artifact ≠ .ok place)
    (outcome : Outcome) (done : (run o t).1 = .ok outcome) : Repeats o t outcome := by
  obtain ⟨scanned, drawn⟩ := run_scanned done
  have finished : run o t = (.ok outcome, (run o t).2) := Prod.ext done rfl
  have wrote := (run_finishes_iff scanned).mp ⟨outcome, finished⟩
  have spares := FileTree.writeAll_spares o.discovery _ t _
    (fun out member => aside.overlooked (outcome.scan.path_mem_artifacts member)) wrote
  have rescanned : scan o (run o t).2 = .ok outcome.scan := by
    apply scan_spared spares scanned
    rintro path text place reads read located ⟨out, member, placed⟩
    have artifact := outcome.scan.path_mem_artifacts member
    cases linked : t.isLink path with
    | true => exact links path place reads linked located out.1 artifact placed
    | false =>
      obtain ⟨⟨language, spoken⟩, _⟩ := reads
      exact aside.apart spoken linked read located artifact placed
  obtain ⟨after, rewrote, same⟩ :=
    FileTree.writeAll_twice _ t _ wrote spares.working spares.ways
  obtain ⟨second, refinished⟩ := (run_finishes_iff rescanned).mpr rewrote
  have redone : (run o (run o t).2).1 = .ok second := by rw [refinished]
  obtain ⟨scanned', drawn'⟩ := run_scanned redone
  have same_scan : second.scan = outcome.scan :=
    Except.ok.inj (scanned'.symm.trans rescanned)
  refine ⟨second, redone, same_scan, ?_, ?_⟩
  · rw [drawn', drawn, same_scan]
  · rw [refinished]
    exact same

/- The artifacts come to stand among the files that are looked at, one in the place of an older
file, and one of those files is a link. -/
def inhabitedEntries : List (String × Node) :=
  [("one.ts", .file (.text "import \x7b a \x7d from '../lib';\n") false),
    ("out.csv", .file (.text "old\n") false), ("two.ts", .link "one.ts")]

def inhabitedTree : FileTree :=
  ⟨.directory [("lib.ts", .file (.text "export const a = 0, b = 0;\n") false),
    ("src", .directory inhabitedEntries)], []⟩

def inhabitedOptions : Options :=
  { target := "lib.ts", root := "src", output := "src/out", report := some .csv }

def inhabitedScan : Scan where
  declarations := ["a", "b"].map (⟨·, .variableBinding, true, 1⟩)
  index := ⟨[("a", ["one.ts", "two.ts"])]⟩
  filesScanned := 2
  filesExcluded := 0
  skipped := []

theorem walk_inhabitedTree : inhabitedOptions.discovery.walk inhabitedTree =
    .ok [.ok "src/one.ts", .ok "src/two.ts"] := by
  have root : inhabitedTree.find "src" = .ok (.directory inhabitedEntries) := by
    with_unfolding_all rfl
  exact Discovery.walk_of_sorted root (by decide +kernel) (by decide +kernel)

local instance inhabitedReader : TreeReader :=
  .knowing [[.exporting "a" ["b"]], [.importing ["a"] "../lib"]]

theorem scan_inhabitedTree : scan inhabitedOptions inhabitedTree = .ok inhabitedScan := by
  rw [scan, walk_inhabitedTree]
  decide +kernel

theorem second_run_inhabitedTree :
    inhabitedOptions.WritesAside inhabitedTree ∧ inhabitedTree.isLink "src/two.ts" = true ∧
    ∃ outcome, (run inhabitedOptions inhabitedTree).1 = .ok outcome ∧
      outcome.scan = inhabitedScan ∧ Repeats inhabitedOptions inhabitedTree outcome := by
  have aside : inhabitedOptions.WritesAside inhabitedTree := ⟨by decide +kernel, by decide +kernel⟩
  have apart : ∀ path ∈ ["lib.ts", "src/one.ts", "src/two.ts"],
      ∀ artifact ∈ inhabitedOptions.artifacts,
        inhabitedTree.placeFor artifact ≠ inhabitedTree.locate path := by decide +kernel
  obtain ⟨after, wrote⟩ : ∃ after, inhabitedTree.writeAll
      (inhabitedScan.outputs inhabitedOptions) = .ok after := by
    have places : ∀ path ∈ inhabitedOptions.artifacts,
        (inhabitedTree.placeFor path).toOption.isSome = true := by decide +kernel
    rw [FileTree.writeAll_ok_iff]
    intro out member
    have placed := places out.1 (inhabitedScan.path_mem_artifacts member)
    cases found : inhabitedTree.placeFor out.1 with
    | error fault =>
      rw [found] at placed
      cases placed
    | ok place => exact ⟨place, rfl⟩
  obtain ⟨outcome, finished⟩ := (run_finishes_iff scan_inhabitedTree).mpr wrote
  have done : (run inhabitedOptions inhabitedTree).1 = .ok outcome := by rw [finished]
  refine ⟨aside, by decide +kernel, outcome, done, ?_, ?_⟩
  · exact Except.ok.inj ((run_scanned done).1.symm.trans scan_inhabitedTree)
  · apply second_run_changes_nothing inhabitedOptions inhabitedTree aside _ outcome done
    rintro path place ⟨_, looked⟩ _ located artifact member
    rw [← located]
    apply apart path _ artifact member
    rcases looked with rfl | ⟨found, walked, inside⟩
    · exact List.mem_cons_self
    · cases walk_inhabitedTree.symm.trans walked
      apply List.mem_cons_of_mem
      simpa using inside

/- The target is a link to the file that the report is written to. -/
def linkedTarget (text : String) : FileTree :=
  ⟨.directory [("out.csv", .file (.text text) false), ("src", .directory []),
    ("t.js", .link "out.csv")], []⟩

def linkedOptions : Options :=
  { target := "t.js", root := "src", output := "out", report := some .csv }

def linkedScan (name : String) : Scan :=
  ⟨[⟨name, .variableBinding, true, 1⟩], ⟨[]⟩, 0, 0, []⟩

def overwrittenTarget (report dot : String) : FileTree :=
  ⟨.directory [("out.csv", .file (.text report) false), ("src", .directory []),
    ("t.js", .link "out.csv"), ("out.dot", .file (.text dot) false)], []⟩

theorem writeAll_linkedTarget (text report dot : String) :
    (linkedTarget text).writeAll [("out.csv", report), ("out.dot", dot)] =
      .ok (overwrittenTarget report dot) := by
  have first : (linkedTarget text).placeFor "out.csv" = .ok ["out.csv"] := by
    with_unfolding_all rfl
  have second : (linkedTarget report).placeFor "out.dot" = .ok ["out.dot"] := by
    with_unfolding_all rfl
  have reported : (linkedTarget text).writeText "out.csv" report = .ok (linkedTarget report) := by
    rw [FileTree.writeText, first]
    rfl
  have drawn : (linkedTarget report).writeText "out.dot" dot =
      .ok (overwrittenTarget report dot) := by
    rw [FileTree.writeText, second]
    rfl
  simp only [FileTree.writeAll, reported, drawn, Except.bind]

/-- The tree that a run leaves, whatever the target declared. -/
theorem run_linkedTarget [TreeReader] {text name : String}
    (scanned : scan linkedOptions (linkedTarget text) = .ok (linkedScan name))
    (report : ((linkedScan name).report "t.js").text .csv = "declaration,module,count\n") :
    ∃ outcome, outcome.scan = linkedScan name ∧
      run linkedOptions (linkedTarget text) =
        (.ok outcome, overwrittenTarget "declaration,module,count\n" (Graph.ofIndex ⟨[]⟩).dot) := by
  have outputs : (linkedScan name).outputs linkedOptions =
      [("out.csv", ((linkedScan name).report "t.js").text .csv),
        ("out.dot", (Graph.ofIndex ⟨[]⟩).dot)] := rfl
  have wrote := writeAll_linkedTarget text (((linkedScan name).report "t.js").text .csv)
    (Graph.ofIndex ⟨[]⟩).dot
  rw [← outputs, report] at wrote
  obtain ⟨outcome, finished⟩ := (run_finishes_iff scanned).mpr wrote
  have done : (run linkedOptions (linkedTarget text)).1 = .ok outcome := by rw [finished]
  exact ⟨outcome, Except.ok.inj ((run_scanned done).1.symm.trans scanned), finished⟩

theorem linkedTarget_aside (text : String) : linkedOptions.WritesAside (linkedTarget text) := by
  have artifacts : linkedOptions.artifacts = ["out.csv", "out.dot"] := by decide +kernel
  refine ⟨?_, by decide +kernel⟩
  have report : (linkedTarget text).isLink "out.csv" = false := by with_unfolding_all rfl
  have graph : (linkedTarget text).isLink "out.dot" = false := by with_unfolding_all rfl
  rw [artifacts]
  simp [report, graph]

theorem scan_linkedTarget [TreeReader] {text name : String}
    (reads : parse .plain text.toList = .ok ⟨[⟨name, .variableBinding, true, 1⟩], []⟩) :
    scan linkedOptions (linkedTarget text) = .ok (linkedScan name) := by
  have spoken : Language.ofPath "t.js" = .ok .javascript := by decide
  have content : (linkedTarget text).readText "t.js" = .ok text := by with_unfolding_all rfl
  have target : (linkedTarget text).readSource "t.js" =
      .ok ⟨[⟨name, .variableBinding, true, 1⟩], []⟩ := by
    rw [FileTree.readSource_of_ok spoken, content]
    exact congrArg (Except.mapError _) reads
  have walked : linkedOptions.discovery.walk (linkedTarget text) = .ok [] := by
    with_unfolding_all rfl
  rw [scan_eq linkedOptions _ _ _ target walked]
  rfl

/-- Setting the artifacts aside is not enough: two targets that declare different names leave the
same tree, and one run on it cannot give both scans. -/
theorem not_always_repeats [TreeReader]
    (reads : ∀ name ∈ ["a", "b"], parse .plain ("export const " ++ name ++ " = 0;\n").toList =
      .ok ⟨[⟨name, .variableBinding, true, 1⟩], []⟩) :
    ¬∀ (o : Options) (t : FileTree) (outcome : Outcome), o.WritesAside t →
      (run o t).1 = .ok outcome → Repeats o t outcome := by
  intro always
  have report : ∀ name ∈ ["a", "b"],
      ((linkedScan name).report "t.js").text .csv = "declaration,module,count\n" := by
    decide +kernel
  have repeats : ∀ name ∈ ["a", "b"],
      scan linkedOptions (overwrittenTarget "declaration,module,count\n"
        (Graph.ofIndex ⟨[]⟩).dot) = .ok (linkedScan name) := by
    intro name member
    have scanned := scan_linkedTarget (reads name member)
    obtain ⟨outcome, first, finished⟩ := run_linkedTarget scanned (report name member)
    obtain ⟨second, redone, same, _⟩ := always _ _ outcome (linkedTarget_aside _) (by rw [finished])
    rw [finished] at redone
    rw [(run_scanned redone).1, same, first]
  have one := repeats "a" (by simp)
  have two := repeats "b" (by simp)
  have same : linkedScan "a" = linkedScan "b" := Except.ok.inj (one.symm.trans two)
  exact absurd same (by decide)

local instance linkedReader : TreeReader := .knowing [[.exporting "a" []], [.exporting "b" []]]

theorem second_run_differs_through_link :
    ¬∀ (o : Options) (t : FileTree) (outcome : Outcome), o.WritesAside t →
      (run o t).1 = .ok outcome → Repeats o t outcome :=
  not_always_repeats (by decide +kernel)

end ImportUsage
