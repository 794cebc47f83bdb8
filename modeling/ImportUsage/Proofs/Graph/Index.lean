import ImportUsage.Proofs.Graph.Sound
import ImportUsage.Proofs.Usage.Index

/-! The graph of an index shows the index: its declarations, its modules and its usages, each in the
order of the index. -/

namespace ImportUsage

def edgesOf (entry : String × List String) : List Graph.Edge :=
  entry.2.map fun importer => ⟨importer, entry.1, edgeColor importer⟩

def nodesOf (entry : String × List String) : List Graph.Node :=
  .declaration entry.1 :: entry.2.map .importer

namespace Graph

/-- The graph shows these entries and nothing else. -/
structure Shows (g : Graph) (entries : List (String × List String)) : Prop where
  sound : g.Sound
  nodes : g.nodes = distinct (entries.flatMap nodesOf)
  declarations : g.declarations = distinct (entries.map (·.1))
  importers : g.importers = distinct (entries.flatMap (·.2))
  edges : g.edges = entries.flatMap edgesOf

theorem empty_shows : empty.Shows [] where
  sound := ⟨List.nodup_nil, rfl, rfl, fun _ member => absurd member List.not_mem_nil⟩
  nodes := rfl
  declarations := rfl
  importers := rfl
  edges := rfl

namespace Shows

variable {g : Graph} {entries : List (String × List String)}

theorem addDeclaration (shows : g.Shows entries) (declaration : String) :
    (g.addDeclaration declaration).2.Shows (entries ++ [(declaration, [])]) where
  sound := shows.sound.add _
  nodes := by
    rw [Graph.addDeclaration, shows.sound.nodes_add, shows.nodes, ← distinct_concat]
    simp [nodesOf]
  declarations := by
    rw [Graph.addDeclaration, shows.sound.declarations_add, shows.declarations, List.map_append,
      List.map_singleton, distinct_concat]
  importers := by
    rw [Graph.addDeclaration, shows.sound.importers_add_declaration, shows.importers]
    simp
  edges := by
    rw [Graph.addDeclaration, shows.sound.edges_add, shows.edges]
    simp [edgesOf]

/-- A usage goes to the entry that was added last. -/
theorem addUsage {declaration : String} {importers : List String} {number : Nat}
    (shows : g.Shows (entries ++ [(declaration, importers)]))
    (declared : g.nodes[number]? = some (.declaration declaration)) (importer : String) :
    (addUsage number g importer).Shows (entries ++ [(declaration, importers ++ [importer])]) where
  sound := shows.sound.addUsage importer declared
  nodes := by
    change (g.add (.importer importer)).2.nodes = _
    rw [shows.sound.nodes_add, shows.nodes, ← distinct_concat]
    simp [nodesOf]
  declarations := by
    change (g.add (.importer importer)).2.declarations = _
    rw [shows.sound.declarations_add_importer, shows.declarations]
    simp
  importers := by
    change (g.add (.importer importer)).2.importers = _
    rw [shows.sound.importers_add, shows.importers, ← distinct_concat]
    simp
  edges := by
    rw [shows.sound.edges_addUsage importer declared, shows.edges]
    simp [edgesOf]

theorem addUsages {declaration : String} {importers : List String} {number : Nat}
    (shows : g.Shows (entries ++ [(declaration, importers)]))
    (declared : g.nodes[number]? = some (.declaration declaration)) (more : List String) :
    (more.foldl (Graph.addUsage number) g).Shows (entries ++ [(declaration, importers ++ more)]) := by
  induction more generalizing g importers with
  | nil => simpa using shows
  | cons importer rest ih =>
    have kept : (Graph.addUsage number g importer).nodes[number]? = some (.declaration declaration) :=
      getElem?_grow (g.prefix_add (.importer importer)) declared
    simpa using ih (shows.addUsage declared importer) kept

theorem addEntry (shows : g.Shows entries) (entry : String × List String) :
    (g.addEntry entry).Shows (entries ++ [entry]) := by
  have numbered := shows.sound.getElem?_add (.declaration entry.1)
  exact (shows.addDeclaration entry.1).addUsages numbered entry.2

theorem addEntries (shows : g.Shows entries) (more : List (String × List String)) :
    (more.foldl Graph.addEntry g).Shows (entries ++ more) := by
  induction more generalizing g entries with
  | nil => simpa using shows
  | cons entry rest ih => simpa using ih (shows.addEntry entry)

end Shows

theorem ofIndex_shows (index : UsageIndex) : (ofIndex index).Shows index.entries :=
  empty_shows.addEntries index.entries

/-- Graphs made from an index, with nodes added to them afterwards. -/
inductive Built : Graph → Prop
  | ofIndex (index : UsageIndex) : Built (ofIndex index)
  | addDeclaration {g : Graph} (built : Built g) (name : String) : Built (g.addDeclaration name).2
  | addImporter {g : Graph} (built : Built g) (name : String) : Built (g.addImporter name).2

theorem Built.sound {g : Graph} (built : g.Built) : g.Sound := by
  induction built with
  | ofIndex index => exact (ofIndex_shows index).sound
  | addDeclaration _ name ih => exact ih.add (.declaration name)
  | addImporter _ name ih => exact ih.add (.importer name)

theorem importers_edgesOf (entries : List (String × List String))
    (different : (entries.map (·.1)).Nodup) (declaration : String) :
    ((entries.flatMap edgesOf).filter (·.declaration = declaration)).map (·.importer) =
      (entries.lookup declaration).getD [] := by
  induction entries with
  | nil => rfl
  | cons entry rest ih =>
    obtain ⟨name, importers⟩ := entry
    obtain ⟨new, different⟩ := List.nodup_cons.mp different
    have tail := ih different
    rw [List.flatMap_cons, List.filter_append, List.map_append, tail]
    by_cases same : name = declaration
    · subst same
      have absent : rest.lookup name = none := (UsageIndex.lookup_eq_none rest name).mpr new
      have all_here : (edgesOf (name, importers)).filter (·.declaration = name) =
          edgesOf (name, importers) := by
        rw [List.filter_eq_self]
        simp [edgesOf]
      rw [all_here, absent]
      simp [edgesOf, Function.comp_def]
    · have apart : (declaration == name) = false := beq_false_of_ne (Ne.symm same)
      simp [edgesOf, List.lookup_cons, same, apart]

/-- The graph of recorded usages is a faithful image of their index. -/
theorem ofIndex_reflects_index (usages : List (String × String)) :
    let index := UsageIndex.ofUsages usages
    let g := ofIndex index
    g.declarations = index.names ∧ g.importers = index.modules ∧
      g.edges = index.entries.flatMap (fun entry =>
        entry.2.map fun importer => ⟨importer, entry.1, edgeColor importer⟩) ∧
      ∀ declaration, if declaration ∈ index.names
        then index.importers? declaration = some (g.importersOf declaration)
        else g.importersOf declaration = [] := by
  intro index g
  have shows := ofIndex_shows index
  have different : index.names.Nodup := by
    rw [UsageIndex.names_ofUsages]
    exact distinct_nodup _
  refine ⟨?_, shows.importers, shows.edges, ?_⟩
  · rw [shows.declarations]
    exact distinct_of_nodup different
  · intro declaration
    have read := shows.sound.importersOf_eq declaration
    rw [shows.edges, importers_edgesOf index.entries different] at read
    change g.importersOf declaration = (index.importers? declaration).getD [] at read
    cases found : index.importers? declaration with
    | none =>
      rw [if_neg ((index.importers?_eq_none declaration).mp found), read, found]
      rfl
    | some importers =>
      have known : declaration ∈ index.names := by
        by_contra unknown
        rw [(index.importers?_eq_none declaration).mpr unknown] at found
        contradiction
      rw [if_pos known, read, found]
      rfl

end Graph

end ImportUsage
