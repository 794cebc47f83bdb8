import ImportUsage.Proofs.Dot.ReadBack

/-! The identifiers of nodes in the DOT text. They are the names, so nodes of one class never share
one, but a declaration and a module of one name do. -/

namespace ImportUsage

namespace Graph

/-- The names that a declaration and a module have in common. -/
def shared (g : Graph) : List String := g.declarations.filter (· ∈ g.importers)

theorem mem_shared (g : Graph) (name : String) :
    name ∈ g.shared ↔ Node.declaration name ∈ g.nodes ∧ Node.importer name ∈ g.nodes := by
  simp [shared, mem_declarations, mem_importers]

theorem names_toFinset (g : Graph) :
    (g.nodes.map (·.name)).toFinset = (g.importers ++ g.declarations).toFinset := by
  ext name
  simp only [List.mem_toFinset, List.mem_map, List.mem_append, mem_declarations, mem_importers]
  constructor
  · rintro ⟨node, member, rfl⟩
    cases node with
    | declaration name => exact .inr member
    | importer name => exact .inl member
  · rintro (member | member)
    · exact ⟨_, member, rfl⟩
    · exact ⟨_, member, rfl⟩

namespace Sound

variable {g : Graph} (sound : g.Sound)
include sound

theorem card_names :
    (g.importers ++ g.declarations).toFinset.card + g.shared.length =
      g.declarations.length + g.importers.length := by
  have both : g.shared.toFinset = g.declarations.toFinset ∩ g.importers.toFinset := by
    ext name
    simp [shared]
  have once : g.shared.Nodup := sound.declarations_nodup.filter _
  -- A shared name is counted in both classes but is one identifier.
  have counted := Finset.card_union_add_card_inter g.declarations.toFinset g.importers.toFinset
  rw [← both, List.toFinset_card_of_nodup once,
    List.toFinset_card_of_nodup sound.declarations_nodup,
    List.toFinset_card_of_nodup sound.importers_nodup, Finset.union_comm] at counted
  rw [List.toFinset_append, counted]

theorem edge_shared {e : Edge} (member : e ∈ g.edges) (same : e.importer = e.declaration) :
    e.importer ∈ g.shared := by
  obtain ⟨imported, declared, _⟩ := sound.of_mem_edges member
  rw [← same] at declared
  exact (g.mem_shared e.importer).mpr ⟨declared, imported⟩

end Sound

end Graph

namespace Dot

theorem Mode.Holds.unique {m : Mode} {read other : List Char} (first : m.Holds read)
    (second : m.Holds other) : read = other := by
  cases first <;> cases second <;> rfl

theorem escaped_injective : Function.Injective escaped := by
  intro a b same
  obtain ⟨m, holds_a, run_a⟩ := (Mode.Holds.inQuotes []).transduce_escaped a
  obtain ⟨n, holds_b, run_b⟩ := (Mode.Holds.inQuotes []).transduce_escaped b
  rw [same, run_b] at run_a
  cases run_a
  simpa using holds_a.unique holds_b

theorem quote_injective : Function.Injective quote := by
  intro a b same
  have chars := congrArg String.toList same
  rw [toList_quote, toList_quote, List.cons_inj_right, List.append_left_inj] at chars
  exact String.toList_inj.mp (escaped_injective chars)

/-- The identifier under which a node is written, in its own statement and in those of edges. -/
def identifier (node : Graph.Node) : String := quote node.name

theorem card_identifiers (g : Graph) :
    (g.nodes.map identifier).toFinset.card = (g.importers ++ g.declarations).toFinset.card := by
  have image : (g.nodes.map identifier).toFinset = (g.nodes.map (·.name)).toFinset.image quote := by
    ext id
    simp [identifier]
  rw [image, Finset.card_image_of_injective _ quote_injective, g.names_toFinset]

def nodeIds (found : List Placed) : List String :=
  found.filterMap fun p =>
    match p.statement with
    | .node id _ => some id
    | _ => none

theorem nodeIds_statementsOf (g : Graph) :
    nodeIds (statementsOf g) = g.importers ++ g.declarations := by
  simp [nodeIds, statementsOf, nodeStatements, scaffold, List.filterMap_map]

theorem identifiers_differ_iff (g : Graph) :
    (∀ a ∈ g.nodes, ∀ b ∈ g.nodes, a ≠ b → identifier a ≠ identifier b) ↔ g.shared = [] := by
  rw [List.eq_nil_iff_forall_not_mem]
  constructor
  · intro differ name member
    obtain ⟨declared, imported⟩ := (g.mem_shared name).mp member
    exact differ _ declared _ imported (by simp) rfl
  · intro apart a known_a b known_b different same
    have names : a.name = b.name := quote_injective same
    cases a with
    | declaration name =>
      cases b with
      | declaration other => exact different (congrArg Graph.Node.declaration names)
      | importer other =>
        cases names
        exact apart name ((g.mem_shared name).mpr ⟨known_a, known_b⟩)
    | importer name =>
      cases b with
      | declaration other =>
        cases names
        exact apart name ((g.mem_shared name).mpr ⟨known_b, known_a⟩)
      | importer other => exact different (congrArg Graph.Node.importer names)

/-- The text tells all nodes apart if and only if no declaration has the name of a module. Each name
that they share makes one identifier out of two nodes, and only such a name can be joined to itself.
A reader finds as many different nodes as there are identifiers. -/
theorem dot_identity_iff (index : UsageIndex) :
    let g := Graph.ofIndex index
    ((∀ a ∈ g.nodes, ∀ b ∈ g.nodes, a ≠ b → identifier a ≠ identifier b) ↔ g.shared = []) ∧
    (distinct (g.nodes.map identifier)).length + g.shared.length =
      g.declarations.length + g.importers.length ∧
    (∀ e ∈ g.edges, quote e.importer = quote e.declaration →
      e.importer = e.declaration ∧ e.importer ∈ g.shared) ∧
    ((∀ node ∈ g.nodes, ¬EndsWithBackslash node.name) →
      ∃ found, read? g.dot = some found ∧
        (distinct (nodeIds found)).length = (distinct (g.nodes.map identifier)).length ∧
        ∀ source target color, (source, target, color) ∈ edgesIn found → source = target →
          source ∈ g.shared) := by
  intro g
  have sound : g.Sound := (Graph.ofIndex_shows index).sound
  refine ⟨identifiers_differ_iff g, ?_, ?_, ?_⟩
  · rw [length_distinct, card_identifiers, sound.card_names]
  · intro e member same
    have names := quote_injective same
    exact ⟨names, sound.edge_shared member names⟩
  · intro readable
    refine ⟨statementsOf g, read?_dot_of_readable sound readable, ?_, ?_⟩
    · rw [length_distinct, length_distinct, nodeIds_statementsOf, card_identifiers]
    · intro source target color member same
      rw [edgesIn_edges] at member
      obtain ⟨e, known, seen⟩ := List.mem_map.mp member
      cases seen
      exact sound.edge_shared known same

/- Two declarations and two modules, but only three identifiers. -/
def sharedUsages : List (String × String) := [("a.ts", "b.ts"), ("Foo", "a.ts"), ("a.ts", "a.ts")]

theorem dot_identity_sample :
    (Graph.ofIndex (.ofUsages sharedUsages)).shared = ["a.ts"] ∧
    ∃ found, read? (Graph.ofIndex (.ofUsages sharedUsages)).dot = some found ∧
      (distinct (nodeIds found)).length = 3 := by
  obtain ⟨_, counted, _, reads⟩ := dot_identity_iff (.ofUsages sharedUsages)
  obtain ⟨found, read, same, _⟩ := reads (by decide)
  have shared : (Graph.ofIndex (.ofUsages sharedUsages)).shared = ["a.ts"] := by decide
  have nodes : (Graph.ofIndex (.ofUsages sharedUsages)).declarations.length +
      (Graph.ofIndex (.ofUsages sharedUsages)).importers.length = 4 := by decide
  rw [shared, nodes, List.length_singleton] at counted
  exact ⟨shared, found, read, by omega⟩

/- The declaration and the module are two nodes, but one identifier, and the edge between them joins
it to itself. -/
theorem dot_merges_shared_name :
    let g := Graph.ofIndex (.ofUsages [("events.ts", "events.ts")])
    g.nodes = [.declaration "events.ts", .importer "events.ts"] ∧
      identifier (.declaration "events.ts") = identifier (.importer "events.ts") ∧
      (distinct (g.nodes.map identifier)).length ≠ g.declarations.length + g.importers.length ∧
      ∃ e ∈ g.edges, quote e.importer = quote e.declaration := by
  decide

end Dot

end ImportUsage
