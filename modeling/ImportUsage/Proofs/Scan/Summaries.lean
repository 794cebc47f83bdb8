import Mathlib.Data.List.Nodup
import ImportUsage.Proofs.Graph.Numbers
import ImportUsage.Proofs.Scan.Failure
import ImportUsage.Proofs.Scan.Importers

/-! The figures of one run. The index, the graph and the report each count for themselves. They come
to the same because no name is declared twice and every entry of the index belongs to a declaration
that somebody imports. -/

namespace ImportUsage

attribute [local irreducible] FileTree.readSource

structure Scan.Coherent (s : Scan) : Prop where
  declared : (s.declarations.map (·.name)).Nodup
  indexed : s.index.names.Nodup
  known : s.index.names ⊆ s.declarations.map (·.name)
  filled : ∀ n, s.index.importers? n ≠ some []

theorem ofPaths_coherent [TreeReader] (o : Options) (ds : List Declaration) (t : FileTree)
    (paths : List String) (different : (ds.map (·.name)).Nodup) :
    (Scan.ofPaths o ds t paths).Coherent := by
  constructor
  · exact different
  · unfold Scan.ofPaths
    rw [UsageIndex.names_ofUsages]
    exact distinct_nodup _
  · intro n member
    unfold Scan.ofPaths at member
    rw [UsageIndex.names_ofUsages, mem_distinct, List.map_flatMap] at member
    obtain ⟨path, _, used⟩ := List.mem_flatMap.mp member
    exact t.declared_of_usagesAt o.exclusion ds path n used
  · intro n empty
    unfold Scan.ofPaths at empty
    rw [UsageIndex.importers?_ofUsages] at empty
    split at empty
    · contradiction
    · rename_i some_here
      exact some_here (Option.some.inj empty)

theorem scan_coherent [TreeReader] {o : Options} {t : FileTree} {s : Scan}
    (accepted : scan o t = .ok s) : s.Coherent := by
  obtain ⟨parsed, paths, _, _, _, rfl⟩ := (scan_eq_ok_iff o t s).mp accepted
  exact ofPaths_coherent o _ t paths (select_names_nodup o.scope parsed.declarations)

/-- What is counted name by name does not depend on the order of the names, nor on names with
nothing to count. -/
theorem flatMap_perm_of_subset {α β : Type} [DecidableEq α] {f : α → List β} {as bs : List α}
    (different_as : as.Nodup) (different_bs : bs.Nodup) (inside : bs ⊆ as)
    (outside : ∀ a ∉ bs, f a = []) : (as.flatMap f).Perm (bs.flatMap f) := by
  have kept : (as.filter (· ∈ bs)).Perm bs := by
    rw [List.perm_ext_iff_of_nodup (different_as.filter _) different_bs]
    intro a
    simp only [List.mem_filter, decide_eq_true_eq]
    constructor
    · exact And.right
    · intro member
      exact ⟨inside member, member⟩
  have dropped : as.flatMap f = (as.filter (· ∈ bs)).flatMap f := by
    clear kept inside different_as
    induction as with
    | nil => rfl
    | cons a rest ih =>
      by_cases member : a ∈ bs
      · rw [List.filter_cons_of_pos (by simpa using member), List.flatMap_cons, List.flatMap_cons, ih]
      · rw [List.filter_cons_of_neg (by simpa using member), List.flatMap_cons, outside a member, ih,
          List.nil_append]
  rw [dropped]
  exact kept.flatMap_right f

theorem distinct_perm {α : Type} [DecidableEq α] {as bs : List α} (same : as.Perm bs) :
    (distinct as).Perm (distinct bs) := by
  rw [List.perm_ext_iff_of_nodup (distinct_nodup as) (distinct_nodup bs)]
  intro a
  rw [mem_distinct, mem_distinct, same.mem_iff]

namespace Scan.Coherent

variable {s : Scan} (coherent : s.Coherent) (target : String)
include coherent

theorem isUsed_eq (d : Declaration) :
    Usage.isUsed ⟨d, (s.index.importers? d.name).getD []⟩ = s.index.contains d.name := by
  have filled := coherent.filled d.name
  unfold Usage.isUsed UsageIndex.contains
  cases found : s.index.importers? d.name with
  | none => rfl
  | some importers =>
    rw [found, ne_eq, Option.some.injEq] at filled
    simpa using filled

theorem used_eq :
    (s.report target).used.map (·.declaration) =
      s.declarations.filter fun d => s.index.contains d.name := by
  simp only [Report.used, Scan.report, Report.usagesOf, List.filter_map, List.map_map,
    Function.comp_def, coherent.isUsed_eq]
  exact List.map_id _

theorem unused_eq : (s.report target).unused = s.unused := by
  simp only [Report.unused, Scan.report, Report.usagesOf, List.filter_map, List.map_map,
    Function.comp_def, coherent.isUsed_eq]
  exact List.map_id _

theorem used_perm : ((s.report target).used.map (·.declaration.name)).Perm s.index.names := by
  have named : (s.report target).used.map (·.declaration.name) =
      (s.declarations.filter fun d => s.index.contains d.name).map (·.name) := by
    rw [← coherent.used_eq target, List.map_map]
    rfl
  have different : ((s.declarations.filter fun d => s.index.contains d.name).map (·.name)).Nodup :=
    coherent.declared.sublist (List.filter_sublist.map _)
  rw [named, List.perm_ext_iff_of_nodup different coherent.indexed]
  intro n
  simp only [List.mem_map, List.mem_filter, UsageIndex.contains_iff]
  constructor
  · rintro ⟨d, ⟨_, member⟩, rfl⟩
    exact member
  · intro member
    obtain ⟨d, declared, rfl⟩ := List.mem_map.mp (coherent.known member)
    exact ⟨d, ⟨declared, member⟩, rfl⟩

theorem importers_perm :
    ((s.report target).usages.flatMap (·.importers)).Perm (s.index.entries.flatMap (·.2)) := by
  have by_name : (s.report target).usages.flatMap (·.importers) =
      (s.declarations.map (·.name)).flatMap fun n => (s.index.importers? n).getD [] := by
    unfold Scan.report Report.usagesOf
    rw [List.flatMap_map, List.flatMap_map]
  rw [by_name, s.index.flatMap_entries coherent.indexed]
  apply flatMap_perm_of_subset coherent.declared coherent.indexed coherent.known
  intro n absent
  rw [(s.index.importers?_eq_none n).mpr absent]
  rfl

theorem used_length : (s.report target).used.length = s.index.size := by
  have same := (coherent.used_perm target).length_eq
  unfold UsageIndex.names at same
  rwa [List.length_map, List.length_map] at same

theorem used_add_unused :
    (s.report target).used.length + (s.report target).unused.length = s.declarations.length := by
  have split := List.length_eq_length_filter_add (l := s.declarations)
    fun d => s.index.contains d.name
  have used := congrArg List.length (coherent.used_eq target)
  rw [List.length_map] at used
  rw [used, coherent.unused_eq, Scan.unused, split]

end Scan.Coherent

theorem edges_length (index : UsageIndex) : (Graph.ofIndex index).edges.length = index.total := by
  rw [(Graph.ofIndex_shows index).edges, UsageIndex.total, List.length_flatMap, List.length_flatMap]
  simp [edgesOf]

theorem Graph.Sound.edges_length {g : Graph} (sound : g.Sound) :
    g.edges.length = g.arcs.length := by
  have joined := sound.joined
  unfold Graph.edges
  generalize g.arcs = arcs at joined ⊢
  induction arcs with
  | nil => rfl
  | cons a rest ih =>
    obtain ⟨importer, declaration, joins⟩ := joined a List.mem_cons_self
    rw [List.filterMap_cons_some joins.edge?, List.length_cons, List.length_cons,
      ih fun b member => joined b (List.mem_cons_of_mem a member)]

theorem run_scanned [TreeReader] {o : Options} {t : FileTree} {out : Outcome}
    (done : (run o t).1 = .ok out) :
    scan o t = .ok out.scan ∧ out.graph = Graph.ofIndex out.scan.index := by
  have course := run_course o t
  generalize run o t = result at course done
  cases course with
  | unscanned e scanned => cases done
  | unreported s format fault scanned asked placed => cases done
  | undrawn s t' fault scanned reported placed => cases done
  | finished s t' t'' place artifacts report scanned reported placed writes =>
    cases done
    exact ⟨scanned, rfl⟩

/-- The graph, the index and the report of a run that succeeds agree on every figure. -/
theorem run_figures_agree [TreeReader] (o : Options) (t : FileTree) (out : Outcome)
    (done : (run o t).1 = .ok out) :
    let s := out.scan
    let g := out.graph
    let r := s.report o.target
    (g.declarationCount = s.index.size ∧ g.declarations.length = s.index.size ∧
      r.used.length = s.index.size) ∧
    (g.importerCount = s.index.modules.length ∧ g.importers.length = s.index.modules.length ∧
      r.modules.length = s.index.modules.length) ∧
    (g.edgeCount = s.index.total ∧ g.edges.length = s.index.total ∧ r.total = s.index.total) ∧
    r.unused = s.unused ∧ r.used.length + r.unused.length = s.declarations.length := by
  intro s g r
  obtain ⟨scanned, drawn⟩ := run_scanned done
  have coherent : s.Coherent := scan_coherent scanned
  have shows := Graph.ofIndex_shows s.index
  have same : g = Graph.ofIndex s.index := drawn
  have sound : g.Sound := same ▸ shows.sound
  have declarations : g.declarations.length = s.index.size := by
    rw [same, shows.declarations]
    change (distinct s.index.names).length = _
    rw [distinct_of_nodup coherent.indexed]
    exact List.length_map _
  have importers : g.importers.length = s.index.modules.length := by
    rw [same, shows.importers]
    rfl
  have edges : g.edges.length = s.index.total := by rw [same, edges_length]
  refine ⟨⟨?_, declarations, coherent.used_length o.target⟩, ⟨?_, importers, ?_⟩, ⟨?_, edges, ?_⟩,
    coherent.unused_eq o.target, coherent.used_add_unused o.target⟩
  · rw [sound.declarationCount_eq, declarations]
  · rw [sound.importerCount_eq, importers]
  · exact (distinct_perm (coherent.importers_perm o.target)).length_eq
  · rw [← edges, sound.edges_length, Graph.edgeCount]
  · exact (coherent.importers_perm o.target).length_eq

/- One of three declarations is imported in excluded files only. -/
def quietOptions : Options :=
  { importingOptions with exclusion := ⟨[".spec.ts", "two.ts"]⟩, report := some .csv }

def quietScan : Scan :=
  { importingScan with
    index := ⟨[("b", ["one.ts", "one.ts"]), ("c", ["one.ts"])]⟩
    filesExcluded := 2 }

local instance quietReader : TreeReader := importingReader

theorem scan_quietOptions : scan quietOptions importingTree = .ok quietScan := by
  have root : importingTree.find "src" = .ok (.directory importingEntries) := by
    with_unfolding_all rfl
  have walked : quietOptions.discovery.walk importingTree =
      .ok [.ok "src/bad.md", .ok "src/one.spec.ts", .ok "src/one.ts", .ok "src/two.ts"] := by
    rw [Discovery.walk_eq_ok_iff]
    refine ⟨_, root, ?_⟩
    rw [Discovery.inNameOrder_of_sorted _ (by decide +kernel)]
    decide +kernel
  rw [scan, walked]
  decide +kernel

theorem run_figures_agree_sample :
    ∃ out, (run quietOptions importingTree).1 = .ok out ∧ out.scan = quietScan ∧
      out.graph.declarationCount = 2 ∧ (quietScan.report "lib.ts").used.length = 2 ∧
      out.graph.importerCount = 1 ∧ (quietScan.report "lib.ts").modules.length = 1 ∧
      out.graph.edgeCount = 3 ∧ (quietScan.report "lib.ts").total = 3 ∧
      (quietScan.report "lib.ts").unused = [⟨"a", .variableBinding, true, 1⟩] := by
  have done : (run quietOptions importingTree).1 =
      .ok ⟨quietScan, Graph.ofIndex quietScan.index, ⟨"out.dot", none⟩, some "out.csv"⟩ := by
    unfold run
    simp only [scan_quietOptions]
    decide +kernel
  have size : quietScan.index.size = 2 := rfl
  have sources : quietScan.index.modules.length = 1 := by decide +kernel
  have usages : quietScan.index.total = 3 := rfl
  have quiet : quietScan.unused = [⟨"a", .variableBinding, true, 1⟩] := by decide +kernel
  obtain ⟨⟨declarations, _, used⟩, ⟨importers, _, modules⟩, ⟨edges, _, total⟩, unused, _⟩ :=
    run_figures_agree quietOptions importingTree _ done
  exact ⟨_, done, rfl, declarations.trans size, used.trans size, importers.trans sources,
    modules.trans sources, edges.trans usages, total.trans usages, unused.trans quiet⟩

end ImportUsage
