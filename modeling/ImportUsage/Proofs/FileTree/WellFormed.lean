import Mathlib.Data.List.Nodup
import ImportUsage.FileTree.Lookup

/-! File trees as a file system keeps them: no directory has two entries of one name, and no name is
empty or holds a slash. -/

namespace ImportUsage

namespace Node

/-- Induction over a tree: a directory comes after all its entries. -/
theorem treeInduction {P : Node → Prop} (file : ∀ content executable, P (.file content executable))
    (link : ∀ target, P (.link target))
    (directory : ∀ entries : List (String × Node), (∀ entry ∈ entries, P entry.2) →
      P (.directory entries)) (node : Node) : P node :=
  @Node.rec P (fun entries => ∀ entry ∈ entries, P entry.2) (fun entry => P entry.2)
    file link directory
    (fun _ member => absurd member List.not_mem_nil)
    (fun _ _ first others _ member =>
      (List.mem_cons.mp member).elim (fun same => same ▸ first) (others _))
    (fun _ _ below => below) node

/-- A name that an entry of a directory may have. -/
def IsName (name : String) : Prop := name ≠ "" ∧ '/' ∉ name.toList

mutual

/-- Have all directories entries of different names, and are these names? -/
def WellFormed : Node → Prop
  | .file _ _ => True
  | .link _ => True
  | .directory entries => (entries.map (·.1)).Nodup ∧ EntriesWellFormed entries

/-- The same below the entries of a directory. -/
def EntriesWellFormed : List (String × Node) → Prop
  | [] => True
  | (name, node) :: rest => IsName name ∧ node.WellFormed ∧ EntriesWellFormed rest

end

instance (name : String) : Decidable (IsName name) :=
  inferInstanceAs (Decidable (name ≠ "" ∧ '/' ∉ name.toList))

mutual

def decideWellFormed : (node : Node) → Decidable node.WellFormed
  | .file _ _ => .isTrue trivial
  | .link _ => .isTrue trivial
  | .directory entries =>
    have := decideEntriesWellFormed entries
    inferInstanceAs (Decidable ((entries.map (·.1)).Nodup ∧ EntriesWellFormed entries))

def decideEntriesWellFormed : (entries : List (String × Node)) →
    Decidable (EntriesWellFormed entries)
  | [] => .isTrue trivial
  | (name, node) :: rest =>
    have := decideWellFormed node
    have := decideEntriesWellFormed rest
    inferInstanceAs (Decidable (IsName name ∧ node.WellFormed ∧ EntriesWellFormed rest))

end

instance (node : Node) : Decidable node.WellFormed := decideWellFormed node

theorem entriesWellFormed_iff (entries : List (String × Node)) :
    EntriesWellFormed entries ↔ ∀ entry ∈ entries, IsName entry.1 ∧ entry.2.WellFormed := by
  induction entries with
  | nil => simp [EntriesWellFormed]
  | cons entry rest ih =>
    obtain ⟨name, node⟩ := entry
    simp [EntriesWellFormed, ih, and_assoc]

theorem directory_wellFormed_iff (entries : List (String × Node)) :
    (directory entries).WellFormed ↔
      (entries.map (·.1)).Nodup ∧ ∀ entry ∈ entries, IsName entry.1 ∧ entry.2.WellFormed := by
  rw [WellFormed, entriesWellFormed_iff]

theorem mem_of_lookup (entries : List (String × Node)) (name : String) (node : Node)
    (found : entries.lookup name = some node) : (name, node) ∈ entries := by
  obtain ⟨before, after, rfl, _⟩ := List.lookup_eq_some_iff.mp found
  simp

theorem lookup_of_mem (entries : List (String × Node)) (different : (entries.map (·.1)).Nodup)
    (name : String) (node : Node) (member : (name, node) ∈ entries) :
    entries.lookup name = some node := by
  obtain ⟨before, after, rfl⟩ := List.append_of_mem member
  rw [List.map_append, List.map_cons, List.nodup_middle, List.nodup_cons] at different
  refine List.lookup_eq_some_iff.mpr ⟨before, after, rfl, ?_⟩
  intro other earlier
  have apart : name ≠ other.1 := by
    intro same
    apply different.1
    rw [same]
    exact List.mem_append_left _ (List.mem_map.mpr ⟨other, earlier, rfl⟩)
  simpa using apart

theorem WellFormed.of_at? {root node : Node} {place : Location} (valid : root.WellFormed)
    (found : root.at? place = some node) : node.WellFormed ∧ ∀ name ∈ place, IsName name := by
  induction place generalizing root with
  | nil =>
    cases found
    exact ⟨valid, by simp⟩
  | cons first rest ih =>
    cases root with
    | file content executable => simp [Node.at?, child?] at found
    | link target => simp [Node.at?, child?] at found
    | directory entries =>
      simp only [Node.at?, child?, Option.bind_eq_some_iff] at found
      obtain ⟨below, here, further⟩ := found
      have entry := mem_of_lookup entries first below here
      obtain ⟨named, valid_below⟩ := ((directory_wellFormed_iff entries).mp valid).2 _ entry
      obtain ⟨valid_node, names⟩ := ih valid_below further
      exact ⟨valid_node, List.forall_mem_cons.mpr ⟨named, names⟩⟩

end Node

theorem at?_of_find {t : FileTree} {path : String} {node : Node} (found : t.find path = .ok node) :
    ∃ place, t.root.at? place = some node := by
  unfold FileTree.find at found
  cases located : t.locate path with
  | error fault => simp [located, bind, Except.bind] at found
  | ok place =>
    simp only [located, bind, Except.bind] at found
    cases here : t.root.at? place with
    | none => simp [here] at found
    | some other =>
      simp only [here, Except.ok.injEq] at found
      exact ⟨place, found ▸ here⟩

theorem wellFormed_of_find {t : FileTree} {path : String} {node : Node}
    (valid : t.root.WellFormed) (found : t.find path = .ok node) : node.WellFormed := by
  obtain ⟨place, here⟩ := at?_of_find found
  exact (valid.of_at? here).1

end ImportUsage
