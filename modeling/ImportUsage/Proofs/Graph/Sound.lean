import Mathlib.Data.List.Induction
import Mathlib.Data.List.Nodup
import ImportUsage.Graph.Basic

/-! Graphs as they are built. No node occurs twice, the tables hold the places of the nodes, and every
edge leads from a module to a declaration and has the colour of its module; a node that is added
changes no number. -/

namespace ImportUsage.Graph

/-- The arc leads from a module to a declaration, and its colour is that of the module. -/
def Arc.Joins (a : Arc) (nodes : List Node) (importer declaration : String) : Prop :=
  nodes[a.importer]? = some (.importer importer) ∧
    nodes[a.declaration]? = some (.declaration declaration) ∧ a.color = edgeColor importer

/-- The names of one class with the places of their nodes. -/
def tableOf (view : Node → Option String) (nodes : List Node) : List (String × Nat) :=
  nodes.zipIdx.filterMap fun (node, place) => (view node).map (·, place)

structure Sound (g : Graph) : Prop where
  distinct : g.nodes.Nodup
  declared : g.declarationNumbers = tableOf Node.declaration? g.nodes
  imported : g.importerNumbers = tableOf Node.importer? g.nodes
  joined : ∀ a ∈ g.arcs, ∃ importer declaration, a.Joins g.nodes importer declaration

theorem getElem?_grow {nodes more : List Node} {number : Nat} {node : Node}
    (grown : nodes <+: more) (found : nodes[number]? = some node) : more[number]? = some node := by
  obtain ⟨added, rfl⟩ := grown
  have bound : number < nodes.length := (List.getElem?_eq_some_iff.mp found).1
  rw [List.getElem?_append_left bound, found]

theorem Arc.Joins.grow {a : Arc} {nodes more : List Node} {importer declaration : String}
    (joins : a.Joins nodes importer declaration) (grown : nodes <+: more) :
    a.Joins more importer declaration :=
  ⟨getElem?_grow grown joins.1, getElem?_grow grown joins.2.1, joins.2.2⟩

theorem Arc.Joins.edge? {g : Graph} {a : Arc} {importer declaration : String}
    (joins : a.Joins g.nodes importer declaration) :
    g.edge? a = some ⟨importer, declaration, edgeColor importer⟩ := by
  simp [Graph.edge?, nameAt?, joins.1, joins.2.1, joins.2.2, Node.name]

theorem Node.declaration?_eq_some (node : Node) (name : String) :
    node.declaration? = some name ↔ node = .declaration name := by
  cases node <;> simp [declaration?]

theorem Node.importer?_eq_some (node : Node) (name : String) :
    node.importer? = some name ↔ node = .importer name := by
  cases node <;> simp [importer?]

theorem mem_declarations (g : Graph) (name : String) :
    name ∈ g.declarations ↔ Node.declaration name ∈ g.nodes := by
  simp [declarations, Node.declaration?_eq_some]

theorem mem_importers (g : Graph) (name : String) :
    name ∈ g.importers ↔ Node.importer name ∈ g.nodes := by
  simp [importers, Node.importer?_eq_some]

theorem tableOf_concat (view : Node → Option String) (nodes : List Node) (node : Node) :
    tableOf view (nodes ++ [node]) =
      tableOf view nodes ++ ((view node).map (·, nodes.length)).toList := by
  unfold tableOf
  rw [List.zipIdx_append, List.filterMap_append]
  cases shown : view node <;> simp [shown]

/-- A table finds the first place of the node that has a name. -/
theorem lookup_tableOf {view : Node → Option String} {node : Node} {name : String}
    (named : ∀ other, view other = some name ↔ other = node) (nodes : List Node) :
    (tableOf view nodes).lookup name = nodes.idxOf? node := by
  induction nodes using List.reverseRecOn with
  | nil => rfl
  | append_singleton nodes last ih =>
    rw [tableOf_concat, List.lookup_append, ih, List.idxOf?, List.findIdx?_append]
    congr 1
    by_cases here : last = node
    · simp [here, (named node).mpr rfl]
    · have other := mt (named last).mp here
      cases shown : view last with
      | none => simp [here]
      | some word =>
        have apart : (name == word) = false := beq_false_of_ne fun same => other (same ▸ shown)
        simp [here, List.lookup_cons, apart]

theorem Sound.number?_eq {g : Graph} (sound : g.Sound) (node : Node) :
    g.number? node = g.nodes.idxOf? node := by
  cases node with
  | declaration name =>
    rw [number?, sound.declared]
    exact lookup_tableOf (Node.declaration?_eq_some · name) g.nodes
  | importer name =>
    rw [number?, sound.imported]
    exact lookup_tableOf (Node.importer?_eq_some · name) g.nodes

@[simp] theorem nodes_append (g : Graph) (node : Node) :
    (g.append node).nodes = g.nodes ++ [node] := by
  cases node <;> rfl

@[simp] theorem arcs_append (g : Graph) (node : Node) : (g.append node).arcs = g.arcs := by
  cases node <;> rfl

theorem declarationNumbers_append (g : Graph) (node : Node) :
    (g.append node).declarationNumbers =
      g.declarationNumbers ++ (node.declaration?.map (·, g.nodes.length)).toList := by
  cases node <;> simp [append, Node.declaration?]

theorem importerNumbers_append (g : Graph) (node : Node) :
    (g.append node).importerNumbers =
      g.importerNumbers ++ (node.importer?.map (·, g.nodes.length)).toList := by
  cases node <;> simp [append, Node.importer?]

section Add

variable {g : Graph} (sound : g.Sound) (node : Node)

theorem arcs_add (g : Graph) (node : Node) : (g.add node).2.arcs = g.arcs := by
  unfold add
  split <;> simp

theorem prefix_add (g : Graph) (node : Node) : g.nodes <+: (g.add node).2.nodes := by
  unfold add
  split
  · exact List.prefix_refl _
  · simp

include sound

/-- A node that is there is found, and any other one is put at the end. -/
theorem Sound.add_cases :
    (node ∈ g.nodes ∧ (g.add node).2 = g ∧ g.nodes[(g.add node).1]? = some node) ∨
      (node ∉ g.nodes ∧ g.add node = (g.nodes.length, g.append node)) := by
  unfold add
  rw [sound.number?_eq]
  cases found : g.nodes.idxOf? node with
  | none => exact .inr ⟨List.idxOf?_eq_none_iff.mp found, rfl⟩
  | some number =>
    obtain ⟨bound, here, _⟩ := List.idxOf?_eq_some_iff.mp found
    exact .inl ⟨here ▸ List.getElem_mem bound, rfl, List.getElem?_eq_some_iff.mpr ⟨bound, here⟩⟩

theorem Sound.nodes_add :
    (g.add node).2.nodes = if node ∈ g.nodes then g.nodes else g.nodes ++ [node] := by
  obtain ⟨known, same, _⟩ | ⟨new, added⟩ := sound.add_cases node
  · rw [same, if_pos known]
  · rw [added, if_neg new, nodes_append]

theorem Sound.getElem?_add : (g.add node).2.nodes[(g.add node).1]? = some node := by
  obtain ⟨_, same, found⟩ | ⟨_, added⟩ := sound.add_cases node
  · rw [same, found]
  · simp [added]

theorem Sound.append (new : node ∉ g.nodes) : (g.append node).Sound where
  distinct := by
    rw [nodes_append]
    exact List.nodup_append.mpr ⟨sound.distinct, List.nodup_singleton node, fun a known b here =>
      ne_of_mem_of_not_mem known (List.mem_singleton.mp here ▸ new)⟩
  declared := by rw [declarationNumbers_append, nodes_append, tableOf_concat, sound.declared]
  imported := by rw [importerNumbers_append, nodes_append, tableOf_concat, sound.imported]
  joined := by
    rw [arcs_append, nodes_append]
    intro a member
    obtain ⟨importer, declaration, joins⟩ := sound.joined a member
    exact ⟨importer, declaration, joins.grow (List.prefix_append _ _)⟩

theorem Sound.add : (g.add node).2.Sound := by
  obtain ⟨_, same, _⟩ | ⟨new, added⟩ := sound.add_cases node
  · rw [same]
    exact sound
  · rw [added]
    exact sound.append node new

end Add

theorem Sound.edges_grow {g : Graph} (sound : g.Sound) (h : Graph) (grown : g.nodes <+: h.nodes) :
    g.arcs.filterMap h.edge? = g.edges := by
  apply List.filterMap_congr
  intro a member
  obtain ⟨importer, declaration, joins⟩ := sound.joined a member
  rw [joins.edge?, (joins.grow grown).edge?]

theorem Sound.edges_add {g : Graph} (sound : g.Sound) (node : Node) :
    (g.add node).2.edges = g.edges := by
  rw [edges, arcs_add]
  exact sound.edges_grow _ (g.prefix_add node)

section Views

variable {g : Graph} (sound : g.Sound) (name : String)
include sound

theorem Sound.filterMap_add (node : Node) (view : Node → Option String) :
    (g.add node).2.nodes.filterMap view =
      if node ∈ g.nodes then g.nodes.filterMap view
      else g.nodes.filterMap view ++ (view node).toList := by
  rw [sound.nodes_add]
  split
  · rfl
  · rw [List.filterMap_append]
    cases shown : view node <;> simp [shown]

theorem Sound.declarations_add :
    (g.add (.declaration name)).2.declarations =
      if name ∈ g.declarations then g.declarations else g.declarations ++ [name] := by
  simp only [mem_declarations]
  exact sound.filterMap_add (.declaration name) Node.declaration?

theorem Sound.importers_add :
    (g.add (.importer name)).2.importers =
      if name ∈ g.importers then g.importers else g.importers ++ [name] := by
  simp only [mem_importers]
  exact sound.filterMap_add (.importer name) Node.importer?

theorem Sound.declarations_add_importer :
    (g.add (.importer name)).2.declarations = g.declarations := by
  simpa [declarations, Node.declaration?] using
    sound.filterMap_add (.importer name) Node.declaration?

theorem Sound.importers_add_declaration :
    (g.add (.declaration name)).2.importers = g.importers := by
  simpa [importers, Node.importer?] using sound.filterMap_add (.declaration name) Node.importer?

end Views

theorem Sound.declarations_nodup {g : Graph} (sound : g.Sound) : g.declarations.Nodup := by
  refine sound.distinct.filterMap fun a b name first second => ?_
  rw [Option.mem_def, Node.declaration?_eq_some] at first second
  rw [first, second]

theorem Sound.importers_nodup {g : Graph} (sound : g.Sound) : g.importers.Nodup := by
  refine sound.distinct.filterMap fun a b name first second => ?_
  rw [Option.mem_def, Node.importer?_eq_some] at first second
  rw [first, second]

section Usage

variable {g : Graph} {number : Nat} {declaration : String} (importer : String)

theorem Sound.addUsage (sound : g.Sound)
    (declared : g.nodes[number]? = some (.declaration declaration)) :
    (addUsage number g importer).Sound where
  distinct := (sound.add (.importer importer)).distinct
  declared := (sound.add (.importer importer)).declared
  imported := (sound.add (.importer importer)).imported
  joined := by
    intro a member
    rcases List.mem_append.mp member with old | new
    · exact (sound.add (.importer importer)).joined a old
    · rw [List.mem_singleton.mp new]
      exact ⟨importer, declaration, sound.getElem?_add (.importer importer),
        getElem?_grow (g.prefix_add (.importer importer)) declared, rfl⟩

theorem Sound.edges_addUsage (sound : g.Sound)
    (declared : g.nodes[number]? = some (.declaration declaration)) :
    (Graph.addUsage number g importer).edges =
      g.edges ++ [⟨importer, declaration, edgeColor importer⟩] := by
  have grown : g.nodes <+: (Graph.addUsage number g importer).nodes :=
    g.prefix_add (.importer importer)
  have joins : Arc.Joins ⟨(g.addImporter importer).1, number, edgeColor importer⟩
      (Graph.addUsage number g importer).nodes importer declaration :=
    ⟨sound.getElem?_add (.importer importer), getElem?_grow grown declared, rfl⟩
  have arcs : (Graph.addUsage number g importer).arcs =
      g.arcs ++ [⟨(g.addImporter importer).1, number, edgeColor importer⟩] :=
    congrArg (· ++ _) (g.arcs_add (.importer importer))
  rw [edges, arcs, List.filterMap_append, sound.edges_grow _ grown]
  simp [joins.edge?]

end Usage

theorem Arc.Joins.declaration_eq_iff {a : Arc} {nodes : List Node} {importer declaration : String}
    (joins : a.Joins nodes importer declaration) (distinct : nodes.Nodup) {number : Nat}
    {other : String} (found : nodes[number]? = some (.declaration other)) :
    a.declaration = number ↔ declaration = other := by
  have bound : a.declaration < nodes.length := (List.getElem?_eq_some_iff.mp joins.2.1).1
  rw [← List.getElem?_inj bound distinct, joins.2.1, found]
  simp

theorem Sound.of_mem_edges {g : Graph} (sound : g.Sound) {e : Edge} (member : e ∈ g.edges) :
    Node.importer e.importer ∈ g.nodes ∧ Node.declaration e.declaration ∈ g.nodes ∧
      e.color = edgeColor e.importer := by
  obtain ⟨a, arc, seen⟩ := List.mem_filterMap.mp member
  obtain ⟨importer, declaration, joins⟩ := sound.joined a arc
  rw [joins.edge?, Option.some.injEq] at seen
  subst seen
  exact ⟨List.mem_of_getElem? joins.1, List.mem_of_getElem? joins.2.1, rfl⟩

theorem zipIdx_increasing {α : Type} (as : List α) :
    as.zipIdx.Pairwise fun a b => a.2 < b.2 := by
  have numbers : (as.zipIdx.map (·.2)).Pairwise (· < ·) := by
    rw [List.zipIdx_map_snd]
    exact List.pairwise_lt_range' 1
  exact List.pairwise_map.mp numbers

theorem eq_of_mem_zipIdx {α : Type} {as : List α} {a b : α × Nat} (first : a ∈ as.zipIdx)
    (second : b ∈ as.zipIdx) (same : a.2 = b.2) : a = b := by
  rw [List.mem_zipIdx_iff_getElem?] at first second
  rw [same, second, Option.some.injEq] at first
  exact Prod.ext first.symm same

/-- Putting the edges to a node in order undoes that the newest come first. -/
theorem mergeSort_incoming (g : Graph) (number : Nat) :
    ((g.incoming number).mergeSort fun a b => a.2 ≤ b.2) =
      g.arcs.zipIdx.filter (·.1.declaration = number) := by
  have sorted : (g.arcs.zipIdx.filter (·.1.declaration = number)).Pairwise fun a b =>
      decide (a.2 ≤ b.2) = true :=
    ((zipIdx_increasing g.arcs).filter _).imp fun less => decide_eq_true (Nat.le_of_lt less)
  have reordered : ((g.incoming number).mergeSort fun a b => a.2 ≤ b.2).Perm
      (g.arcs.zipIdx.filter (·.1.declaration = number)) :=
    (List.mergeSort_perm _ _).trans (List.reverse_perm _)
  refine reordered.eq_of_pairwise ?_ (List.pairwise_mergeSort ?_ ?_ _) sorted
  · intro a b first second less more
    have known := List.mem_of_mem_filter (reordered.mem_iff.mp first)
    simp only [decide_eq_true_eq] at less more
    exact eq_of_mem_zipIdx known (List.mem_of_mem_filter second) (Nat.le_antisymm less more)
  · intro a b c less more
    simp only [decide_eq_true_eq] at less more ⊢
    exact Nat.le_trans less more
  · intro a b
    simpa using Nat.le_total a.2 b.2

theorem importersOf_known {g : Graph} {declaration : String} {number : Nat}
    (found : g.number? (.declaration declaration) = some number) :
    g.importersOf declaration =
      (g.arcs.filter (·.declaration = number)).filterMap (g.nameAt? ·.importer) := by
  have numbered : g.arcs.filter (·.declaration = number) =
      (g.arcs.zipIdx.filter (·.1.declaration = number)).map (·.1) := by
    conv_lhs => rw [← List.zipIdx_map_fst 0 g.arcs]
    rw [List.filter_map]
    rfl
  unfold importersOf
  rw [found]
  simp only [mergeSort_incoming, numbered, List.filterMap_map]
  rfl

/-- In a sound graph the modules of a declaration are read off the edges. -/
theorem Sound.importersOf_eq {g : Graph} (sound : g.Sound) (declaration : String) :
    g.importersOf declaration =
      (g.edges.filter (·.declaration = declaration)).map (·.importer) := by
  cases found : g.nodes.idxOf? (.declaration declaration) with
  | none =>
    have unknown := List.idxOf?_eq_none_iff.mp found
    have unused : g.edges.filter (·.declaration = declaration) = [] := by
      rw [List.filter_eq_nil_iff]
      intro e member
      obtain ⟨_, known, _⟩ := sound.of_mem_edges member
      simpa using ne_of_mem_of_not_mem known unknown
    rw [unused, importersOf, sound.number?_eq, found]
    rfl
  | some number =>
    obtain ⟨bound, here, _⟩ := List.idxOf?_eq_some_iff.mp found
    have numbered : g.nodes[number]? = some (.declaration declaration) :=
      List.getElem?_eq_some_iff.mpr ⟨bound, here⟩
    rw [importersOf_known ((sound.number?_eq _).trans found), edges]
    -- The arcs to this number are those whose edge has the declaration's name.
    have joined := sound.joined
    generalize g.arcs = arcs at joined ⊢
    induction arcs with
    | nil => rfl
    | cons a rest ih =>
      obtain ⟨importer, other, joins⟩ := joined a List.mem_cons_self
      have tail := ih fun b member => joined b (List.mem_cons_of_mem a member)
      have named : g.nameAt? a.importer = some importer := by simp [nameAt?, joins.1, Node.name]
      rw [List.filterMap_cons_some joins.edge?]
      by_cases same : other = declaration
      · have arrives := (joins.declaration_eq_iff sound.distinct numbered).mpr same
        simpa [arrives, same, named] using tail
      · have passes := mt (joins.declaration_eq_iff sound.distinct numbered).mp same
        simpa [passes, same] using tail

end ImportUsage.Graph
