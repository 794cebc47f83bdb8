import ImportUsage.Discovery.Walk
import ImportUsage.Proofs.Discovery.ByteOrder
import ImportUsage.Proofs.FileTree.Below

/-! What a walk finds: every file below the root that is eligible and not in a directory passed
over, once, in the order of the names on the way to it. -/

namespace ImportUsage

def Node.isDirectory : Node → Bool
  | .directory _ => true
  | _ => false

/-- The order of places: name by name, and names by their bytes. -/
def Precedes (p q : Location) : Prop := p.map utf8 < q.map utf8

theorem precedes_irrefl (p : Location) : ¬ Precedes p p := List.lt_irrefl _

namespace Discovery

/-- Does a walk find a file at this place below a node? The entry there is no directory and its name
is eligible, and no directory on the way is passed over. -/
def Finds (d : Discovery) (root : Node) (place : Location) : Prop :=
  ∃ above name node, place = above ++ [name] ∧ (∀ directory ∈ above, directory ∉ d.passedOver) ∧
    d.isEligible name = true ∧ root.at? place = some node ∧ node.isDirectory = false

/-- The same from an entry on, whose own name counts too. -/
def FindsFrom (d : Discovery) (name : String) : Node → Location → Prop
  | .directory entries, place => name ∉ d.passedOver ∧ d.Finds (.directory entries) place
  | _, place => place = [] ∧ d.isEligible name = true

theorem not_finds_nil (d : Discovery) (root : Node) : ¬ d.Finds root [] := by
  rintro ⟨above, name, node, whole, _⟩
  simp at whole

theorem not_finds_below (d : Discovery) (node : Node) (leaf : node.isDirectory = false)
    (place : Location) : ¬ d.Finds node place := by
  rintro ⟨above, name, found, rfl, _, _, here, _⟩
  cases node with
  | directory entries => simp [Node.isDirectory] at leaf
  | file content executable => cases above <;> simp [Node.at?, Node.child?] at here
  | link target => cases above <;> simp [Node.at?, Node.child?] at here

theorem finds_cons (d : Discovery) (entries : List (String × Node)) (name : String)
    (rest : Location) :
    d.Finds (.directory entries) (name :: rest) ↔
      ∃ node, entries.lookup name = some node ∧ d.FindsFrom name node rest := by
  constructor
  · rintro ⟨above, last, found, whole, kept, eligible, here, leaf⟩
    simp only [Node.at?, Node.child?, Option.bind_eq_some_iff] at here
    obtain ⟨node, entry, further⟩ := here
    refine ⟨node, entry, ?_⟩
    cases above with
    | nil =>
      cases whole
      cases further
      cases found with
      | directory below => simp [Node.isDirectory] at leaf
      | file content executable => exact ⟨rfl, eligible⟩
      | link target => exact ⟨rfl, eligible⟩
    | cons first higher =>
      cases whole
      have below : d.Finds node (higher ++ [last]) :=
        ⟨higher, last, found, rfl, fun other member => kept other (List.mem_cons_of_mem _ member),
          eligible, further, leaf⟩
      cases node with
      | directory inner => exact ⟨kept _ List.mem_cons_self, below⟩
      | file content executable => exact absurd below (not_finds_below d _ rfl _)
      | link target => exact absurd below (not_finds_below d _ rfl _)
  · rintro ⟨node, entry, found⟩
    have step : ∀ place, (Node.directory entries).at? (name :: place) = node.at? place := by
      intro place
      simp [Node.at?, Node.child?, entry]
    cases node with
    | directory below =>
      obtain ⟨kept, above, last, inner, rfl, others, eligible, here, leaf⟩ := found
      refine ⟨name :: above, last, inner, rfl, ?_, eligible, (step _).trans here, leaf⟩
      exact List.forall_mem_cons.mpr ⟨kept, others⟩
    | file content executable =>
      obtain ⟨rfl, eligible⟩ := found
      exact ⟨[], name, _, rfl, by simp, eligible, step [], rfl⟩
    | link target =>
      obtain ⟨rfl, eligible⟩ := found
      exact ⟨[], name, _, rfl, by simp, eligible, step [], rfl⟩

/-- The finds are the paths of exactly these places, in order. -/
def Enumerates (directory : String) (P : Location → Prop) (found : List Found) : Prop :=
  ∃ places : List Location, found = places.map (fun place => .ok (Path.below directory place)) ∧
    (∀ place, place ∈ places ↔ P place) ∧ places.Pairwise Precedes

theorem walkEntries_eq_map (d : Discovery) (path : String) (entries : List (String × Node)) :
    d.walkEntries path entries =
      entries.map fun entry =>
        (entry.1, d.walkEntry (Path.join path entry.1) entry.1 entry.2) := by
  induction entries with
  | nil => simp [walkEntries]
  | cons entry rest ih =>
    obtain ⟨name, node⟩ := entry
    simp [walkEntries, ih]

/-- The entries of a directory in the order of their names. -/
def inOrder (entries : List (String × Node)) : List (String × Node) :=
  entries.mergeSort fun a b => a.1 ≤ b.1

theorem inNameOrder_eq (d : Discovery) (path : String) (entries : List (String × Node)) :
    inNameOrder (d.walkEntries path entries) =
      (inOrder entries).flatMap fun entry =>
        d.walkEntry (Path.join path entry.1) entry.1 entry.2 := by
  have sorted : (d.walkEntries path entries).mergeSort (fun a b => a.1 ≤ b.1) =
      (inOrder entries).map fun entry =>
        (entry.1, d.walkEntry (Path.join path entry.1) entry.1 entry.2) := by
    rw [walkEntries_eq_map, inOrder, List.map_mergeSort]
    intro a _ b _
    rfl
  rw [inNameOrder, sorted, List.flatMap_map]

theorem mem_inOrder (entries : List (String × Node)) (entry : String × Node) :
    entry ∈ inOrder entries ↔ entry ∈ entries := List.mem_mergeSort

theorem inOrder_increasing (entries : List (String × Node))
    (different : (entries.map (·.1)).Nodup) :
    (inOrder entries).Pairwise fun a b => a.1 < b.1 := by
  have sorted : (inOrder entries).Pairwise fun a b => decide (a.1 ≤ b.1) = true := by
    apply List.pairwise_mergeSort
    · intro a b c first second
      simp only [decide_eq_true_eq] at first second ⊢
      exact String.le_trans first second
    · intro a b
      simpa using String.le_total a.1 b.1
  have apart : ((inOrder entries).map (·.1)).Nodup :=
    ((List.mergeSort_perm entries _).map _).nodup_iff.mpr different
  have distinct : (inOrder entries).Pairwise fun a b => a.1 ≠ b.1 := List.pairwise_map.mp apart
  refine (sorted.and distinct).imp ?_
  rintro a b ⟨below, differs⟩
  rw [← String.not_le]
  intro above
  exact differs (String.le_antisymm (of_decide_eq_true below) above)

theorem entries_enumerate (d : Discovery) (path : String) (entries : List (String × Node))
    (different : (entries.map (·.1)).Nodup)
    (each : ∀ entry ∈ entries, Enumerates (Path.join path entry.1) (d.FindsFrom entry.1 entry.2)
      (d.walkEntry (Path.join path entry.1) entry.1 entry.2)) :
    Enumerates path (d.Finds (.directory entries)) (inNameOrder (d.walkEntries path entries)) := by
  have chosen : ∀ entry : String × Node, ∃ places : List Location, entry ∈ entries →
      d.walkEntry (Path.join path entry.1) entry.1 entry.2 =
        places.map (fun place => .ok (Path.below (Path.join path entry.1) place)) ∧
      (∀ place, place ∈ places ↔ d.FindsFrom entry.1 entry.2 place) ∧
      places.Pairwise Precedes := by
    intro entry
    by_cases member : entry ∈ entries
    · obtain ⟨places, listed⟩ := each entry member
      exact ⟨places, fun _ => listed⟩
    · exact ⟨[], fun present => absurd present member⟩
  choose places listed using chosen
  -- the places below the directory, with the name of the entry in front of each
  refine ⟨(inOrder entries).flatMap fun entry => (places entry).map (entry.1 :: ·), ?_, ?_, ?_⟩
  · rw [inNameOrder_eq, List.map_flatMap]
    apply List.flatMap_congr
    intro entry member
    rw [(listed entry ((mem_inOrder entries entry).mp member)).1, List.map_map]
    rfl
  · intro place
    cases place with
    | nil => simpa using not_finds_nil d _
    | cons name rest =>
      rw [finds_cons, List.mem_flatMap]
      constructor
      · rintro ⟨⟨other, node⟩, member, inside⟩
        have entry := (mem_inOrder entries _).mp member
        simp only [List.mem_map, List.cons.injEq] at inside
        obtain ⟨tail, found, rfl, rfl⟩ := inside
        exact ⟨node, Node.lookup_of_mem entries different other node entry,
          ((listed _ entry).2.1 tail).mp found⟩
      · rintro ⟨node, entry, found⟩
        have member := Node.mem_of_lookup entries name node entry
        refine ⟨(name, node), (mem_inOrder entries _).mpr member, ?_⟩
        exact List.mem_map.mpr ⟨rest, ((listed _ member).2.1 rest).mpr found, rfl⟩
  · rw [List.pairwise_flatMap]
    constructor
    · intro entry member
      rw [List.pairwise_map]
      refine (listed entry ((mem_inOrder entries entry).mp member)).2.2.imp ?_
      intro p q before
      exact .cons before
    · refine (inOrder_increasing entries different).imp ?_
      intro a b before p in_a q in_b
      obtain ⟨rest, _, rfl⟩ := List.mem_map.mp in_a
      obtain ⟨more, _, rfl⟩ := List.mem_map.mp in_b
      exact .rel (utf8_lt a.1 b.1 before)

theorem inNameOrder_of_sorted (finds : List (String × List Found))
    (sorted : finds.Pairwise fun a b => a.1 ≤ b.1) : inNameOrder finds = finds.flatMap (·.2) := by
  rw [inNameOrder, List.mergeSort_of_pairwise]
  simpa using sorted

theorem mem_inNameOrder (d : Discovery) (path : String) (entries : List (String × Node))
    (find : Found) :
    find ∈ inNameOrder (d.walkEntries path entries) ↔
      ∃ entry ∈ entries, find ∈ d.walkEntry (Path.join path entry.1) entry.1 entry.2 := by
  rw [inNameOrder_eq, List.mem_flatMap]
  simp only [mem_inOrder]

theorem enumerates_nothing (path : String) (P : Location → Prop) (never : ∀ place, ¬ P place) :
    Enumerates path P [] :=
  ⟨[], rfl, fun place => by simpa using never place, .nil⟩

theorem leaf_enumerates (d : Discovery) (path name : String) :
    Enumerates path (fun place => place = [] ∧ d.isEligible name = true)
      (if d.isEligible name then [.ok path] else []) := by
  by_cases eligible : d.isEligible name = true
  · rw [if_pos eligible]
    exact ⟨[[]], rfl, fun place => by simp [eligible], List.pairwise_singleton _ _⟩
  · rw [if_neg eligible]
    exact enumerates_nothing path _ (fun place found => eligible found.2)

/-- From every entry on, a walk without errors finds what there is to find. -/
theorem walkEntry_enumerates (d : Discovery) (node : Node) (valid : node.WellFormed)
    (path name : String) (sound : ∀ e, .error e ∉ d.walkEntry path name node) :
    Enumerates path (d.FindsFrom name node) (d.walkEntry path name node) := by
  induction node using Node.treeInduction generalizing path name with
  | file content executable =>
    rw [walkEntry]
    · exact leaf_enumerates d path name
    · simp
  | link target =>
    rw [walkEntry]
    · exact leaf_enumerates d path name
    · simp
  | directory entries ih =>
    obtain ⟨different, each⟩ := (Node.directory_wellFormed_iff entries).mp valid
    rw [walkEntry] at sound ⊢
    by_cases barred : name ∈ d.passedOver
    · rw [if_pos (List.contains_iff_mem.mpr barred)]
      exact enumerates_nothing path _ (fun place found => found.1 barred)
    · rw [if_neg (by simpa using barred)] at sound ⊢
      cases broken : Path.fault? path with
      | some fault =>
        rw [broken] at sound
        exact absurd List.mem_cons_self (sound ⟨path, fault⟩)
      | none =>
        simp only [broken] at sound ⊢
        have whole := entries_enumerate d path entries different fun entry member =>
          ih entry member (each entry member).2 _ _ fun e wrong =>
            sound e ((mem_inNameOrder d path entries _).mpr ⟨entry, member, wrong⟩)
        obtain ⟨places, listed, exact_places, ordered⟩ := whole
        refine ⟨places, listed, fun place => ?_, ordered⟩
        rw [exact_places]
        exact ⟨fun found => ⟨barred, found⟩, fun found => found.2⟩

theorem names_of_finds (d : Discovery) (root : Node) (valid : root.WellFormed) (place : Location)
    (found : d.Finds root place) : place ≠ [] ∧ ∀ name ∈ place, Node.IsName name := by
  obtain ⟨above, last, node, rfl, _, _, here, _⟩ := found
  exact ⟨by simp, (valid.of_at? here).2⟩

/-- A name that ends with a dot and an extension is no step in place or upwards. -/
theorem ne_dots_of_ends {extension name : String} (filled : extension ≠ "")
    (bare : extension.toList.head? ≠ some '.') (ends : '.' :: extension.toList <:+ name.toList) :
    name ≠ "." ∧ name ≠ ".." := by
  obtain ⟨front, whole⟩ := ends
  have some_chars : extension.toList ≠ [] := by simpa using filled
  cases chars : extension.toList with
  | nil => exact absurd chars some_chars
  | cons c rest =>
    rw [chars, List.head?_cons, ne_eq, Option.some.injEq] at bare
    rw [chars] at whole
    have size : front.length + (rest.length + 2) = name.toList.length := by
      simpa using congrArg List.length whole
    constructor
    · rintro rfl
      have short : ".".toList.length = 1 := rfl
      omega
    · rintro rfl
      have dots : "..".toList = ['.', '.'] := rfl
      rw [dots] at whole size
      cases front with
      | nil =>
        simp only [List.nil_append, List.cons.injEq, true_and] at whole
        exact bare whole.1
      | cons first more =>
        simp only [List.length_cons, List.length_nil] at size
        omega

theorem root_ne_empty (t : FileTree) (path : String) (node : Node) (found : t.find path = .ok node) :
    path ≠ "" := by
  rintro rfl
  simp [FileTree.find, FileTree.locate, Path.fault?, bind, Except.bind] at found

theorem walk_eq_ok_iff (d : Discovery) (t : FileTree) (found : List Found) :
    d.walk t = .ok found ↔
      ∃ entries, t.find d.root = .ok (.directory entries) ∧
        found = inNameOrder (d.walkEntries d.root entries) := by
  unfold walk
  split
  · rename_i missing
    simp [missing]
  · rename_i fault _ broken
    simp [broken]
  · rename_i entries here
    simp [here, eq_comm]
  · rename_i node other here
    rw [here]
    constructor
    · intro impossible
      cases impossible
    · rintro ⟨entries, directory, _⟩
      exact absurd (Except.ok.inj directory) (other entries)

theorem walk_of_sorted {d : Discovery} {t : FileTree} {entries : List (String × Node)}
    {found : List Found} (root : t.find d.root = .ok (.directory entries))
    (sorted : (d.walkEntries d.root entries).Pairwise fun a b => a.1 ≤ b.1)
    (listed : (d.walkEntries d.root entries).flatMap (·.2) = found) : d.walk t = .ok found := by
  rw [walk_eq_ok_iff]
  exact ⟨entries, root, by rw [inNameOrder_of_sorted _ sorted, listed]⟩

theorem enumerates_of_walk (d : Discovery) (t : FileTree) (entries : List (String × Node))
    (valid : t.root.WellFormed) (root : t.find d.root = .ok (.directory entries))
    (sound : ∀ e, .error e ∉ inNameOrder (d.walkEntries d.root entries)) :
    Enumerates d.root (d.Finds (.directory entries))
      (inNameOrder (d.walkEntries d.root entries)) := by
  have whole := wellFormed_of_find valid root
  obtain ⟨different, each⟩ := (Node.directory_wellFormed_iff entries).mp whole
  apply entries_enumerate d d.root entries different
  intro entry member
  apply walkEntry_enumerates d entry.2 (each entry member).2
  intro e wrong
  exact sound e ((mem_inNameOrder d d.root entries _).mpr ⟨entry, member, wrong⟩)

theorem paths_nodup (d : Discovery) (root : Node) (valid : root.WellFormed) (directory : String)
    (named : directory ≠ "") (places : List Location) (found : ∀ place ∈ places, d.Finds root place)
    (ordered : places.Pairwise Precedes) : (places.map (Path.below directory)).Nodup := by
  rw [List.nodup_iff_pairwise_ne, List.pairwise_map]
  refine ordered.imp_of_mem ?_
  intro p q in_p in_q before same
  obtain ⟨proper_p, valid_p⟩ := names_of_finds d root valid p (found p in_p)
  obtain ⟨proper_q, valid_q⟩ := names_of_finds d root valid q (found q in_q)
  have equal := Path.below_injective directory named p q valid_p valid_q proper_p proper_q same
  subst q
  exact precedes_irrefl p before

/-- A walk of a directory that meets no error finds the files below it that are eligible and not in
a directory passed over, each once, in the order of the names on the way. -/
theorem walk_enumerates (d : Discovery) (t : FileTree) (entries : List (String × Node))
    (valid : t.root.WellFormed) (root : t.find d.root = .ok (.directory entries)) :
    ∃ found, d.walk t = .ok found ∧
      ((∀ e, .error e ∉ found) →
        ∃ places : List Location,
          found = places.map (fun place => .ok (Path.below d.root place)) ∧
          (∀ place, place ∈ places ↔ d.Finds (.directory entries) place) ∧
          places.Pairwise Precedes ∧ (places.map (Path.below d.root)).Nodup) := by
  refine ⟨_, (walk_eq_ok_iff d t _).mpr ⟨entries, root, rfl⟩, ?_⟩
  intro sound
  obtain ⟨places, listed, exact_places, ordered⟩ :=
    enumerates_of_walk d t entries valid root sound
  refine ⟨places, listed, exact_places, ordered, ?_⟩
  exact paths_nodup d _ (wellFormed_of_find valid root) d.root (root_ne_empty t d.root _ root)
    places (fun place member => (exact_places place).mp member) ordered

/- A directory whose name begins like another's, one that is passed over, a file that is not
eligible, and a link that leads nowhere. The root has the name that is passed over. -/
def sampleEntries : List (String × Node) :=
  [("a", .directory [("x.ts", .file (.text "") false)]),
    ("a-b", .directory [("x.ts", .file (.text "") false)]),
    ("gen", .directory [("y.ts", .file (.text "") false)]),
    ("readme.md", .file (.text "") false), ("z.ts", .link "nowhere")]

def sampleTree : FileTree := ⟨.directory [("gen", .directory sampleEntries)], []⟩

def sampleDiscovery : Discovery := ⟨"gen", ["ts"], ["gen"]⟩

theorem walk_enumerates_sample :
    ∃ found, sampleDiscovery.walk sampleTree = .ok found ∧
      found = [.ok "gen/a/x.ts", .ok "gen/a-b/x.ts", .ok "gen/z.ts"] ∧
      ∃ places : List Location,
        found = places.map (fun place => .ok (Path.below "gen" place)) ∧
        (∀ place, place ∈ places ↔ sampleDiscovery.Finds (.directory sampleEntries) place) ∧
        places.Pairwise Precedes ∧ (places.map (Path.below "gen")).Nodup := by
  have root : sampleTree.find "gen" = .ok (.directory sampleEntries) := by with_unfolding_all rfl
  have listed : sampleDiscovery.walk sampleTree =
      .ok [.ok "gen/a/x.ts", .ok "gen/a-b/x.ts", .ok "gen/z.ts"] := by
    rw [walk_eq_ok_iff]
    refine ⟨_, root, ?_⟩
    rw [inNameOrder_of_sorted _ (by decide +kernel)]
    decide +kernel
  obtain ⟨found, walked, enumerates⟩ :=
    walk_enumerates sampleDiscovery sampleTree sampleEntries (by decide) root
  have same := walked
  rw [listed, Except.ok.injEq] at same
  subst same
  exact ⟨_, listed, rfl, enumerates (by simp)⟩

end Discovery

end ImportUsage
