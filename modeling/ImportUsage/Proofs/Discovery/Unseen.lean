import ImportUsage.Proofs.Discovery.Walk
import ImportUsage.Proofs.FileTree.Kept
import ImportUsage.Proofs.FileTree.WriteAll

/-! A file that a walk does not look at. Putting one into a tree, in the place of another file or
where there was nothing, changes the entries of a directory and no find. -/

namespace ImportUsage

theorem split_unique {α : Type} {p : α → Bool} {as bs as' bs' : List α}
    (same : as ++ bs = as' ++ bs') (yes : ∀ a ∈ as, p a = true) (no : ∀ b ∈ bs, ¬p b = true)
    (yes' : ∀ a ∈ as', p a = true) (no' : ∀ b ∈ bs', ¬p b = true) : as = as' ∧ bs = bs' := by
  have front : as = as' := by
    have chosen := congrArg (List.filter p) same
    rwa [List.filter_append, List.filter_append, List.filter_eq_self.mpr yes,
      List.filter_eq_self.mpr yes', List.filter_eq_nil_iff.mpr no,
      List.filter_eq_nil_iff.mpr no', List.append_nil, List.append_nil] at chosen
  subst front
  exact ⟨rfl, List.append_cancel_left same⟩

/-- Sorting keeps the order of equals, so leaving something out can be done first. -/
theorem filter_mergeSort {α : Type} (le : α → α → Bool)
    (trans : ∀ a b c, le a b = true → le b c = true → le a c = true)
    (total : ∀ a b, (le a b || le b a) = true) (p : α → Bool) (as : List α) :
    (as.mergeSort le).filter p = (as.filter p).mergeSort le := by
  induction as with
  | nil => simp
  | cons a rest ih =>
    obtain ⟨front, back, sorted, others, before⟩ := List.mergeSort_cons trans total a rest
    by_cases kept : p a = true
    · obtain ⟨front', back', sorted', others', before'⟩ :=
        List.mergeSort_cons trans total a (rest.filter p)
      have after := List.pairwise_mergeSort trans total (a :: rest)
      have after' := List.pairwise_mergeSort trans total (a :: rest.filter p)
      rw [sorted, List.pairwise_append, List.pairwise_cons] at after
      rw [sorted', List.pairwise_append, List.pairwise_cons] at after'
      have same : front.filter p ++ back.filter p = front' ++ back' := by
        rw [← List.filter_append, ← others, ih, others']
      obtain ⟨fronts, backs⟩ := split_unique (p := fun b => !le a b) same
        (fun b member => before b (List.mem_of_mem_filter member))
        (fun b member => by simpa using after.2.1.1 b (List.mem_of_mem_filter member))
        before' (fun b member => by simpa using after'.2.1.1 b member)
      rw [List.filter_cons_of_pos kept, sorted, sorted', List.filter_append,
        List.filter_cons_of_pos kept, fronts, backs]
    · rw [List.filter_cons_of_neg kept, ← ih, sorted, others, List.filter_append,
        List.filter_cons_of_neg kept, List.filter_append]

theorem flatMap_filled (finds : List (String × List Found)) :
    (finds.filter (·.2 ≠ [])).flatMap (·.2) = finds.flatMap (·.2) := by
  induction finds with
  | nil => rfl
  | cons find rest ih =>
    by_cases empty : find.2 = []
    · rw [List.filter_cons_of_neg (by simpa using empty), List.flatMap_cons, empty, ih]
      rfl
    · rw [List.filter_cons_of_pos (by simpa using empty), List.flatMap_cons, List.flatMap_cons, ih]

theorem inNameOrder_filled (finds : List (String × List Found)) :
    inNameOrder (finds.filter (·.2 ≠ [])) = inNameOrder finds := by
  rw [inNameOrder, inNameOrder, ← filter_mergeSort, flatMap_filled]
  · intro a b c first second
    simp only [decide_eq_true_eq] at first second ⊢
    exact String.le_trans first second
  · intro a b
    simpa using String.le_total a.1 b.1

theorem inNameOrder_concat_empty (finds : List (String × List Found)) (name : String) :
    inNameOrder (finds ++ [(name, [])]) = inNameOrder finds := by
  rw [← inNameOrder_filled, List.filter_append, List.filter_cons_of_neg (by simp), List.filter_nil,
    List.append_nil, inNameOrder_filled]

namespace Node

theorem setEntry_of_missing {entries : List (String × Node)} {name : String}
    (missing : entries.lookup name = none) (new : Node) :
    setEntry name new entries = entries ++ [(name, new)] := by
  induction entries with
  | nil => rfl
  | cons entry rest ih =>
    obtain ⟨other, node⟩ := entry
    rw [lookup_entry] at missing
    split at missing
    · cases missing
    · rename_i apart
      rw [setEntry, if_neg (Ne.symm apart), ih missing, List.cons_append]

theorem Free.inner {entries : List (String × Node)} {first name : String} {parent : Location}
    (free : (directory entries).Free (first :: (parent ++ [name]))) :
    ∃ inner, entries.lookup first = some (directory inner) ∧
      (directory inner).Free (parent ++ [name]) := by
  obtain ⟨⟨above, last, whole, inside⟩, noWay⟩ := free
  obtain ⟨rfl, rfl⟩ : above = first :: parent ∧ last = name := by
    have parted : above ++ [last] = (first :: parent) ++ [name] := whole.symm
    have same := List.append_inj' parted rfl
    exact ⟨same.1, List.singleton_inj.mp same.2⟩
  obtain ⟨below, found⟩ := wayAt?_directory_iff.mp inside
  obtain ⟨node, named, further⟩ := Option.bind_eq_some_iff.mp found
  obtain ⟨inner, rfl⟩ := directory_of_at? further
  have step : ∀ p, (directory entries).wayAt? (first :: p) = (directory inner).wayAt? p := by
    intro p
    have entry : entries.lookup first = some (directory inner) := named
    rw [wayAt?, wayAt?, entryAt?_directory, entry, Option.bind_some]
  refine ⟨inner, named, ⟨parent, last, rfl, ?_⟩, ?_⟩
  · rw [← step]
    exact inside
  · rw [← step]
    exact noWay

end Node

namespace Discovery

variable (d : Discovery)

theorem walkEntry_unseen {name : String} (unseen : d.isEligible name = false) (path : String)
    (content : Content) (executable : Bool) :
    d.walkEntry path name (.file content executable) = [] := by
  rw [walkEntry, unseen]
  · rfl
  · simp

theorem walkEntries_setEntry {entries : List (String × Node)} {name : String} {old new : Node}
    (present : entries.lookup name = some old) (path : String)
    (same : d.walkEntry (Path.join path name) name new =
      d.walkEntry (Path.join path name) name old) :
    d.walkEntries path (Node.setEntry name new entries) = d.walkEntries path entries := by
  induction entries with
  | nil => cases present
  | cons entry rest ih =>
    obtain ⟨other, node⟩ := entry
    rw [Node.lookup_entry] at present
    split at present
    · rename_i here
      cases present
      subst here
      rw [Node.setEntry, if_pos rfl, walkEntries, walkEntries, same]
    · rename_i apart
      rw [Node.setEntry, if_neg (Ne.symm apart), walkEntries, walkEntries, ih present]

/-- Below a directory. The way down to the file changes entry by entry, each finding the same. -/
theorem walkEntries_put (content : Content) (executable : Bool) (parent : Location)
    {name : String} (unseen : d.isEligible name = false) (entries : List (String × Node))
    (free : (Node.directory entries).Free (parent ++ [name])) :
    ∃ entries', Node.put (.file content executable) (parent ++ [name]) (.directory entries) =
        .directory entries' ∧
      ∀ path, inNameOrder (d.walkEntries path entries') =
        inNameOrder (d.walkEntries path entries) := by
  induction parent generalizing entries with
  | nil =>
    refine ⟨Node.setEntry name (.file content executable) entries, rfl, fun path => ?_⟩
    cases found : entries.lookup name with
    | none =>
      rw [Node.setEntry_of_missing found, walkEntries_eq_map, List.map_append, List.map_singleton,
        walkEntry_unseen d unseen, inNameOrder_concat_empty, ← walkEntries_eq_map]
    | some old =>
      have noWay := free.noWay
      rw [List.nil_append, Node.wayAt?, Node.entryAt?_directory, found] at noWay
      cases old with
      | link target => cases noWay
      | directory inner => cases noWay
      | file before mode =>
        rw [walkEntries_setEntry d found]
        rw [walkEntry_unseen d unseen, walkEntry_unseen d unseen]
  | cons first parent ih =>
    obtain ⟨inner, found, deeper⟩ := Node.Free.inner free
    obtain ⟨inner', changed, same⟩ := ih inner deeper
    refine ⟨Node.setEntry first (.directory inner') entries, ?_, fun path => ?_⟩
    · rw [List.cons_append, Node.put_cons _ _ _ _ _ (by simp) found, changed]
    · rw [walkEntries_setEntry d found]
      rw [walkEntry, walkEntry, same]

/-- Seen from any directory of the tree. -/
theorem directory_at?_put (content : Content) (executable : Bool) {name : String}
    (unseen : d.isEligible name = false) (here : Location) (root : Node) (parent : Location)
    (free : root.Free (parent ++ [name])) (entries : List (String × Node))
    (found : root.at? here = some (.directory entries)) :
    ∃ entries', (Node.put (.file content executable) (parent ++ [name]) root).at? here =
        some (.directory entries') ∧
      ∀ path, inNameOrder (d.walkEntries path entries') =
        inNameOrder (d.walkEntries path entries) := by
  induction here generalizing root parent with
  | nil =>
    cases found
    obtain ⟨entries', changed, same⟩ :=
      walkEntries_put d content executable parent unseen entries free
    exact ⟨entries', by rw [changed]; rfl, same⟩
  | cons first here ih =>
    obtain ⟨outer, node, rfl, entry, further⟩ := Node.at?_cons_eq_some found
    have elsewhere : ∀ key new, key ≠ first →
        (Node.directory (Node.setEntry key new outer)).at? (first :: here) =
          some (.directory entries) := by
      intro key new apart
      rw [Node.at?, Node.child?, Node.lookup_setEntry, if_neg (Ne.symm apart), entry]
      exact further
    cases parent with
    | nil =>
      refine ⟨entries, elsewhere name _ ?_, fun path => rfl⟩
      rintro rfl
      obtain ⟨inner, rfl⟩ := Node.directory_of_at? further
      have noWay := free.noWay
      rw [List.nil_append, Node.wayAt?, Node.entryAt?_directory, entry] at noWay
      cases noWay
    | cons second parent =>
      obtain ⟨inner, named, deeper⟩ := Node.Free.inner free
      rw [List.cons_append, Node.put_cons _ _ _ _ _ (by simp) named]
      by_cases along : second = first
      · subst along
        cases entry.symm.trans named
        obtain ⟨entries', changed, same⟩ := ih _ parent deeper further
        refine ⟨entries', ?_, same⟩
        rw [Node.at?, Node.child?, Node.lookup_setEntry, if_pos rfl]
        exact changed
      · exact ⟨entries, elsewhere second _ along, fun path => rfl⟩

/-- A walk finds the same after a file was put where it does not look. -/
theorem walk_put {t : FileTree} {parent : Location} {name : String}
    (free : t.root.Free (parent ++ [name])) (unseen : d.isEligible name = false)
    (content : Content) (executable : Bool) {found : List Found} (walked : d.walk t = .ok found) :
    d.walk (t.put (parent ++ [name]) (.file content executable)) = .ok found := by
  obtain ⟨entries, root, rfl⟩ := (walk_eq_ok_iff d t found).mp walked
  obtain ⟨place, located, here⟩ := FileTree.find_eq_ok.mp root
  obtain ⟨entries', here', same⟩ :=
    directory_at?_put d content executable unseen place t.root parent free entries here
  rw [walk_eq_ok_iff]
  refine ⟨entries', FileTree.find_eq_ok.mpr ⟨place, ?_, here'⟩, (same d.root).symm⟩
  exact FileTree.locate_put free content executable located

end Discovery

namespace FileTree

/-- A tree after writes at some places, as far as readers and walks can tell. -/
structure Spares (t : FileTree) (d : Discovery) (written : Location → Prop) (t' : FileTree) :
    Prop where
  working : t'.workingDirectory = t.workingDirectory
  keeps : t.root.Keeps t'.root
  ways : ∀ p, t'.root.wayAt? p = t.root.wayAt? p
  others : ∀ p, ¬written p → t'.root.entryAt? p = t.root.entryAt? p
  walks : ∀ found, d.walk t = .ok found → d.walk t' = .ok found

theorem Spares.refl (t : FileTree) (d : Discovery) (written : Location → Prop) :
    t.Spares d written t where
  working := rfl
  keeps := .refl t.root
  ways _ := rfl
  others _ _ := rfl
  walks _ walked := walked

theorem Spares.trans {t t' t'' : FileTree} {d : Discovery} {written written' : Location → Prop}
    (first : t.Spares d written t') (second : t'.Spares d written' t'') :
    t.Spares d (fun p => written p ∨ written' p) t'' where
  working := second.working.trans first.working
  keeps := first.keeps.trans second.keeps
  ways p := (second.ways p).trans (first.ways p)
  others p spared :=
    (second.others p fun here => spared (.inr here)).trans
      (first.others p fun here => spared (.inl here))
  walks found walked := second.walks found (first.walks found walked)

theorem Spares.imp {t t' : FileTree} {d : Discovery} {written written' : Location → Prop}
    (spares : t.Spares d written t') (more : ∀ p, written p → written' p) :
    t.Spares d written' t' :=
  { spares with others := fun p spared => spares.others p fun here => spared (more p here) }

/-- Will a write to this path be overlooked by a walk? -/
def Overlooked (t : FileTree) (d : Discovery) (path : String) : Prop :=
  ∀ place, t.placeFor path = .ok place →
    ∃ parent name, place = parent ++ [name] ∧ d.isEligible name = false

theorem writeText_spares {t t' : FileTree} {d : Discovery} {path text : String}
    (overlooked : t.Overlooked d path) (wrote : t.writeText path text = .ok t') :
    t.Spares d (fun p => t.placeFor path = .ok p) t' := by
  obtain ⟨place, executable, placed, rfl⟩ := writeText_eq_ok wrote
  have free := placeFor_free placed
  obtain ⟨parent, name, rfl, unseen⟩ := overlooked place placed
  refine ⟨rfl, free.keeps_put _ _, fun p => free.wayAt?_put _ _ p, fun p spared => ?_, ?_⟩
  · rw [put, free.entryAt?_put, if_neg]
    rintro rfl
    exact spared placed
  · intro found walked
    exact d.walk_put free unseen _ _ walked

theorem writeAll_spares (d : Discovery) (outs : List (String × String)) (t t' : FileTree)
    (overlooked : ∀ out ∈ outs, t.Overlooked d out.1) (wrote : t.writeAll outs = .ok t') :
    t.Spares d (fun p => ∃ out ∈ outs, t.placeFor out.1 = .ok p) t' := by
  induction outs generalizing t with
  | nil =>
    cases wrote
    exact .refl _ d _
  | cons out rest ih =>
    obtain ⟨between, first, further⟩ := bind_eq_ok.mp wrote
    have step := writeText_spares (overlooked out List.mem_cons_self) first
    -- A write leaves the places of all paths, so the other paths are overlooked still.
    have places := placeFor_iff step.ways step.working
    have onward : ∀ other ∈ rest, between.Overlooked d other.1 := fun other member place placed =>
      overlooked other (List.mem_cons_of_mem out member) place ((places _ _).mp placed)
    refine (step.trans (ih between onward further)).imp ?_
    rintro p (here | ⟨other, member, later⟩)
    · exact ⟨out, List.mem_cons_self, here⟩
    · exact ⟨other, List.mem_cons_of_mem out member, (places _ _).mp later⟩

end FileTree

end ImportUsage
