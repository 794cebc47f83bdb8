import ImportUsage.Proofs.Graph.Index

/-! The numbers of nodes. Nodes of both classes are numbered from zero in the order in which they
are first asked for, whether an index asks or a later call; a number once given stays, and nothing
that is added touches an edge. -/

namespace ImportUsage.Graph

/-- Adds declarations and modules one after the other. -/
def addAll (g : Graph) : List Node → Graph
  | [] => g
  | .declaration name :: rest => (g.addDeclaration name).2.addAll rest
  | .importer name :: rest => (g.addImporter name).2.addAll rest

@[simp] theorem addAll_nil (g : Graph) : g.addAll [] = g := rfl

theorem addAll_cons (g : Graph) (node : Node) (rest : List Node) :
    g.addAll (node :: rest) = (g.add node).2.addAll rest := by
  cases node <;> rfl

theorem prefix_addAll (g : Graph) (more : List Node) : g.nodes <+: (g.addAll more).nodes := by
  induction more generalizing g with
  | nil => exact List.prefix_refl _
  | cons node rest ih =>
    rw [addAll_cons]
    exact (g.prefix_add node).trans (ih _)

theorem map_tableOf (view : Node → Option String) (nodes : List Node) :
    (tableOf view nodes).map (·.1) = nodes.filterMap view := by
  induction nodes using List.reverseRecOn with
  | nil => rfl
  | append_singleton nodes last ih =>
    rw [tableOf_concat, List.map_append, ih, List.filterMap_append]
    cases shown : view last <;> simp [shown]

theorem length_nodes (g : Graph) : g.nodes.length = g.declarations.length + g.importers.length := by
  unfold declarations importers
  induction g.nodes with
  | nil => rfl
  | cons node rest ih =>
    cases node with
    | declaration name =>
      simp only [List.length_cons, List.filterMap_cons, Node.declaration?, Node.importer?, ih]
      omega
    | importer name =>
      simp only [List.length_cons, List.filterMap_cons, Node.declaration?, Node.importer?, ih]
      omega

namespace Sound

variable {g : Graph} (sound : g.Sound)
include sound

theorem addAll (more : List Node) : (g.addAll more).Sound := by
  induction more generalizing g with
  | nil => exact sound
  | cons node rest ih =>
    rw [addAll_cons]
    exact ih (sound.add node)

theorem nodes_addAll {asked : List Node} (known : g.nodes = ImportUsage.distinct asked)
    (more : List Node) : (g.addAll more).nodes = ImportUsage.distinct (asked ++ more) := by
  induction more generalizing g asked with
  | nil => simpa using known
  | cons node rest ih =>
    have next : (g.add node).2.nodes = ImportUsage.distinct (asked ++ [node]) := by
      rw [sound.nodes_add, distinct_concat, known]
    rw [addAll_cons, ih (sound.add node) next, List.append_assoc, List.singleton_append]

theorem declarationCount_eq : g.declarationCount = g.declarations.length := by
  unfold declarationCount declarations
  rw [sound.declared, ← map_tableOf, List.length_map]

theorem importerCount_eq : g.importerCount = g.importers.length := by
  unfold importerCount importers
  rw [sound.imported, ← map_tableOf, List.length_map]

/-- Numbers and nodes correspond one to one. -/
theorem number?_eq_some_iff (node : Node) (number : Nat) :
    g.number? node = some number ↔ g.nodes[number]? = some node := by
  rw [sound.number?_eq, List.idxOf?_eq_some_iff, List.getElem?_eq_some_iff]
  constructor
  · rintro ⟨bound, here, _⟩
    exact ⟨bound, here⟩
  · rintro ⟨bound, here⟩
    refine ⟨bound, here, fun earlier before same => ?_⟩
    have place := sound.distinct.getElem_inj_iff.mp (same.trans here.symm)
    omega

theorem isSome_number? (node : Node) : (g.number? node).isSome = true ↔ node ∈ g.nodes := by
  rw [sound.number?_eq, List.isSome_idxOf?]

theorem hasDeclaration_iff (name : String) :
    g.hasDeclaration name = true ↔ name ∈ g.declarations := by
  unfold hasDeclaration
  rw [sound.isSome_number?, mem_declarations]

theorem hasImporter_iff (name : String) : g.hasImporter name = true ↔ name ∈ g.importers := by
  unfold hasImporter
  rw [sound.isSome_number?, mem_importers]

theorem number?_grow {h : Graph} (other : h.Sound) (grown : g.nodes <+: h.nodes) {node : Node}
    (known : node ∈ g.nodes) : h.number? node = g.number? node := by
  obtain ⟨number, here⟩ := List.mem_iff_getElem?.mp known
  have first := (sound.number?_eq_some_iff node number).mpr here
  have second := (other.number?_eq_some_iff node number).mpr (getElem?_grow grown here)
  rw [first, second]

theorem number?_add (node : Node) : (g.add node).2.number? node = some (g.add node).1 :=
  ((sound.add node).number?_eq_some_iff node _).mpr (sound.getElem?_add node)

/-- Whatever is added in between, a node that is added again has the number it got first, and the
graph stays as it is. -/
theorem add_again (node : Node) (more : List Node) :
    ((g.add node).2.addAll more).add node = ((g.add node).1, (g.add node).2.addAll more) := by
  have here : node ∈ (g.add node).2.nodes := List.mem_of_getElem? (sound.getElem?_add node)
  have kept := (sound.add node).number?_grow ((sound.add node).addAll more)
    ((g.add node).2.prefix_addAll more) here
  rw [sound.number?_add] at kept
  rw [Graph.add, kept]

theorem importersOf_add (node : Node) (declaration : String) :
    (g.add node).2.importersOf declaration = g.importersOf declaration := by
  rw [(sound.add node).importersOf_eq, sound.edges_add, sound.importersOf_eq]

theorem add_new {node : Node} (new : node ∉ g.nodes) :
    (g.add node).1 = g.declarationCount + g.importerCount ∧
      (g.add node).2.nodes = g.nodes ++ [node] := by
  obtain ⟨known, _⟩ | ⟨_, added⟩ := sound.add_cases node
  · exact absurd known new
  · rw [added, sound.declarationCount_eq, sound.importerCount_eq]
    exact ⟨g.length_nodes, g.nodes_append node⟩

end Sound

/-- The nodes of a graph, the tables of their numbers and the edges agree, however often and in
whatever order nodes of either class are added to the graph of an index. -/
theorem numbers_follow_creation (index : UsageIndex) (calls : List Node) :
    let g := (ofIndex index).addAll calls
    let created := distinct (index.entries.flatMap nodesOf ++ calls)
    (g.declarations.Nodup ∧ g.declarationCount = g.declarations.length ∧
      ∀ name, g.hasDeclaration name = true ↔ name ∈ g.declarations) ∧
    (g.importers.Nodup ∧ g.importerCount = g.importers.length ∧
      ∀ name, g.hasImporter name = true ↔ name ∈ g.importers) ∧
    (g.declarations = created.filterMap Node.declaration? ∧
      g.importers = created.filterMap Node.importer? ∧
      ∀ node number, g.number? node = some number ↔ created[number]? = some node) ∧
    (∀ node number, created[number]? = some node → g.add node = (number, g)) ∧
    (∀ node more, ((g.add node).2.addAll more).add node =
      ((g.add node).1, (g.add node).2.addAll more)) ∧
    (∀ node ∉ created, (g.add node).1 = g.declarationCount + g.importerCount ∧
      (g.add node).2.nodes = created ++ [node] ∧
      (∀ other ∈ created, (g.add node).2.number? other = g.number? other) ∧
      (g.add node).2.edges = g.edges ∧
      ∀ declaration, (g.add node).2.importersOf declaration = g.importersOf declaration) ∧
    ∀ a ∈ g.arcs, ∃ importer declaration, g.number? (.importer importer) = some a.importer ∧
      g.number? (.declaration declaration) = some a.declaration ∧
      g.edge? a = some ⟨importer, declaration, edgeColor importer⟩ := by
  intro g created
  have shows := ofIndex_shows index
  have sound : g.Sound := shows.sound.addAll calls
  have nodes : g.nodes = created := shows.sound.nodes_addAll shows.nodes calls
  refine ⟨⟨sound.declarations_nodup, sound.declarationCount_eq, sound.hasDeclaration_iff⟩,
    ⟨sound.importers_nodup, sound.importerCount_eq, sound.hasImporter_iff⟩,
    ⟨by rw [← nodes]; rfl, by rw [← nodes]; rfl, ?_⟩, ?_, sound.add_again, ?_, ?_⟩
  · rw [← nodes]
    exact sound.number?_eq_some_iff
  · intro node number here
    rw [← nodes] at here
    rw [Graph.add, (sound.number?_eq_some_iff node number).mpr here]
  · intro node new
    rw [← nodes] at new ⊢
    obtain ⟨number, placed⟩ := sound.add_new new
    exact ⟨number, placed, fun other known => sound.number?_grow (sound.add node)
      (g.prefix_add node) known, sound.edges_add node, sound.importersOf_add node⟩
  · intro a member
    obtain ⟨importer, declaration, joins⟩ := sound.joined a member
    exact ⟨importer, declaration, (sound.number?_eq_some_iff _ _).mpr joins.1,
      (sound.number?_eq_some_iff _ _).mpr joins.2.1, joins.edge?⟩

/- Both classes have an `a.ts` and a `b.ts`, and one of the calls asks for a node that is there. -/
theorem numbers_follow_creation_shared :
    let g := (ofIndex ⟨[("a.ts", ["b.ts", "a.ts"])]⟩).addAll
      [.importer "c.ts", .declaration "a.ts", .declaration "b.ts"]
    g.number? (.declaration "a.ts") = some 0 ∧ g.number? (.importer "a.ts") = some 2 ∧
      g.add (.declaration "b.ts") = (4, g) ∧ (g.add (.importer "d.ts")).1 = 5 ∧
      (g.add (.importer "d.ts")).2.number? (.importer "b.ts") = some 1 ∧
      (g.add (.importer "d.ts")).2.importersOf "a.ts" = g.importersOf "a.ts" := by
  intro g
  obtain ⟨_, _, ⟨_, _, numbered⟩, known, _, new, _⟩ :=
    numbers_follow_creation ⟨[("a.ts", ["b.ts", "a.ts"])]⟩
      [.importer "c.ts", .declaration "a.ts", .declaration "b.ts"]
  obtain ⟨number, _, kept, _, importers⟩ := new (.importer "d.ts") (by decide)
  have second : g.number? (.importer "b.ts") = some 1 := (numbered _ 1).mpr (by decide)
  exact ⟨(numbered _ 0).mpr (by decide), (numbered _ 2).mpr (by decide), known _ 4 (by decide),
    number, (kept _ (by decide)).trans second, importers "a.ts"⟩

end ImportUsage.Graph
