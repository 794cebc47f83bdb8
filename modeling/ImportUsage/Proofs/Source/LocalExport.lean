import Mathlib.Data.List.Forall2
import Mathlib.Data.List.Induction
import Mathlib.Data.List.Perm.Basic
import ImportUsage.Source.LocalExport

/-! Export clauses that stand apart from the declarations: what they leave alone, and which names
they export. A clause may take up a name that an earlier one gave, and then the order counts. -/

namespace ImportUsage

/-- A declaration once the pairs are applied: exported if one of them gives its name as it is. -/
def Declaration.after (pairs : List (String × String)) (d : Declaration) : Declaration :=
  { d with exported := d.exported || (d.name, d.name) ∈ pairs }

/-- The copy that a pair adds. -/
def renamedCopy (ds : List Declaration) (p : String × String) : List Declaration :=
  if p.1 = p.2 then []
  else ((ds.find? (·.name = p.1)).map fun d => { d with name := p.2, exported := true }).toList

namespace Declaration

theorem after_exported (pairs : List (String × String)) (d : Declaration)
    (exported : d.exported = true) : d.after pairs = d := by
  obtain ⟨name, kind, _, line⟩ := d
  subst exported
  rfl

theorem after_nil (d : Declaration) : d.after [] = d := by
  obtain ⟨name, kind, exported, line⟩ := d
  simp [after]

theorem after_append (pairs more : List (String × String)) (d : Declaration) :
    (d.after pairs).after more = d.after (pairs ++ more) := by
  have either : decide ((d.name, d.name) ∈ pairs ++ more) =
      ((d.name, d.name) ∈ pairs || (d.name, d.name) ∈ more) := by
    rw [Bool.eq_iff_iff]
    simp
  simp only [after, either, Bool.or_assoc]
  rfl

theorem after_singleton (p : String × String) (d : Declaration) :
    d.after [p] = if p.1 = p.2 ∧ d.name = p.1 then { d with exported := true } else d := by
  obtain ⟨l, e⟩ := p
  by_cases named : l = e ∧ d.name = l
  · obtain ⟨rfl, rfl⟩ := named
    simp [after]
  · have absent : ¬ (d.name, d.name) ∈ [(l, e)] := by
      simp only [List.mem_singleton, Prod.mk.injEq]
      rintro ⟨rfl, rfl⟩
      exact named ⟨rfl, rfl⟩
    rw [if_neg named, after, decide_eq_false absent, Bool.or_false]

end Declaration

/-- One pair: the old declarations stay in their places, and a copy may follow. -/
theorem exportLocal_eq (ds : List Declaration) (p : String × String) :
    exportLocal ds p = ds.map (·.after [p]) ++ renamedCopy ds p := by
  unfold exportLocal renamedCopy
  by_cases own : p.1 = p.2
  · have opened : ds.map (·.after [p]) =
        ds.map fun d => if d.name = p.1 then { d with exported := true } else d := by
      simp only [Declaration.after_singleton, own, true_and]
    cases found : ds.find? (·.name = p.1) with
    | some d => simp [own, opened]
    | none =>
      -- no declaration has the name, so that nothing is opened
      have same : ds.map (·.after [p]) = ds := by
        rw [opened]
        conv_rhs => rw [← List.map_id ds]
        apply List.map_congr_left
        intro d member
        have other := List.find?_eq_none.mp found d member
        exact if_neg (by simpa using other)
      simp [own, same]
  · have same : ds.map (·.after [p]) = ds := by
      simp [Declaration.after_singleton, own]
    cases found : ds.find? (·.name = p.1) with
    | some d => simp [own, same]
    | none => simp [same]

theorem exportLocals_concat (ds : List Declaration) (pairs : List (String × String))
    (p : String × String) :
    exportLocals ds (pairs ++ [p]) = exportLocal (exportLocals ds pairs) p := by
  simp [exportLocals]

/-- The declaration stands for a pair of two names: it has the second one, and is for the rest like
one of the declarations that were there. -/
structure IsCopyFor (ds : List Declaration) (p : String × String) (copy : Declaration) : Prop where
  differs : p.1 ≠ p.2
  name : copy.name = p.2
  exported : copy.exported = true
  source : ∃ d ∈ ds, copy.kind = d.kind ∧ copy.line = d.line

theorem isCopyFor_of_mem {ds copies : List Declaration} {used : List (String × String)}
    (each : List.Forall₂ (IsCopyFor ds) used copies) {copy : Declaration} (member : copy ∈ copies) :
    ∃ p, IsCopyFor ds p copy := by
  obtain ⟨i, here, rfl⟩ := List.mem_iff_getElem.mp member
  exact ⟨_, each.get (by rw [each.length_eq]; exact here) here⟩

theorem renamedCopy_of_copies (ds copies : List Declaration) (pairs used : List (String × String))
    (p : String × String) (each : List.Forall₂ (IsCopyFor ds) used copies) :
    renamedCopy (ds.map (·.after pairs) ++ copies) p = [] ∨
      ∃ copy, renamedCopy (ds.map (·.after pairs) ++ copies) p = [copy] ∧ IsCopyFor ds p copy := by
  unfold renamedCopy
  split
  · exact .inl rfl
  rename_i differs
  cases found : (ds.map (·.after pairs) ++ copies).find? (·.name = p.1) with
  | none => exact .inl rfl
  | some d =>
    refine .inr ⟨_, rfl, differs, rfl, rfl, ?_⟩
    -- what is copied is an old declaration or itself a copy of one
    rcases List.mem_append.mp (List.mem_of_find?_eq_some found) with old | copied
    · obtain ⟨source, member, rfl⟩ := List.mem_map.mp old
      exact ⟨source, member, rfl, rfl⟩
    · obtain ⟨_, made⟩ := isCopyFor_of_mem each copied
      exact made.source

/-- Export clauses disturb nothing else: the declarations stay where they are, an export flag is
only ever set, and just where a pair gives the name as it is; what is added follows in the order of
its pairs, exported, and with the kind and the line of a declaration. -/
theorem exportLocals_keeps_declarations (ds : List Declaration) (pairs : List (String × String)) :
    ∃ copies used,
      exportLocals ds pairs =
        ds.map (fun d => { d with exported := d.exported || (d.name, d.name) ∈ pairs }) ++ copies ∧
      used.Sublist pairs ∧ List.Forall₂ (IsCopyFor ds) used copies := by
  induction pairs using List.reverseRecOn with
  | nil =>
    have same : ds.map (·.after []) ++ [] = ds := by simp [Declaration.after_nil]
    exact ⟨[], [], same.symm, .slnil, .nil⟩
  | append_singleton pairs p ih =>
    obtain ⟨copies, used, result, listed, each⟩ := ih
    change exportLocals ds pairs = ds.map (·.after pairs) ++ copies at result
    have kept : copies.map (·.after [p]) = copies := by
      conv_rhs => rw [← List.map_id copies]
      apply List.map_congr_left
      intro copy member
      obtain ⟨_, made⟩ := isCopyFor_of_mem each member
      exact copy.after_exported [p] made.exported
    have step : exportLocals ds (pairs ++ [p]) = ds.map (·.after (pairs ++ [p])) ++
        (copies ++ renamedCopy (ds.map (·.after pairs) ++ copies) p) := by
      rw [exportLocals_concat, result, exportLocal_eq, List.map_append, kept, List.map_map,
        List.append_assoc]
      simp only [Function.comp_def, Declaration.after_append]
    rcases renamedCopy_of_copies ds copies pairs used p each with none | ⟨copy, one, made⟩
    · rw [none, List.append_nil] at step
      exact ⟨copies, used, step, listed.trans (List.sublist_append_left pairs [p]), each⟩
    · rw [one] at step
      exact ⟨copies ++ [copy], used ++ [p], step, listed.append (.refl [p]),
        List.rel_append each (.cons made .nil)⟩

/-- The names of the exported declarations. -/
def exportedIn (ds : List Declaration) : List String := (ds.filter (·.exported)).map (·.name)

theorem mem_exportedIn (ds : List Declaration) (e : String) :
    e ∈ exportedIn ds ↔ ∃ d ∈ ds, d.exported = true ∧ d.name = e := by
  simp [exportedIn, and_assoc]

theorem mem_names_of_exportedIn {ds : List Declaration} {e : String} (member : e ∈ exportedIn ds) :
    e ∈ ds.map (·.name) := by
  obtain ⟨d, listed, -, rfl⟩ := (mem_exportedIn ds e).mp member
  exact List.mem_map_of_mem listed

theorem mem_renamedCopy (ds : List Declaration) (p : String × String) (d : Declaration)
    (member : d ∈ renamedCopy ds p) :
    d.name = p.2 ∧ d.exported = true ∧ p.1 ∈ ds.map (·.name) := by
  unfold renamedCopy at member
  split at member
  · cases member
  cases found : ds.find? (·.name = p.1) with
  | none => simp [found] at member
  | some source =>
    obtain rfl : d = { source with name := p.2, exported := true } := by simpa [found] using member
    have named : source.name = p.1 := by simpa using List.find?_some found
    exact ⟨rfl, rfl, List.mem_map.mpr ⟨source, List.mem_of_find?_eq_some found, named⟩⟩

theorem exists_renamedCopy (ds : List Declaration) (p : String × String) (differs : p.1 ≠ p.2)
    (declared : p.1 ∈ ds.map (·.name)) : ∃ d, d ∈ renamedCopy ds p := by
  obtain ⟨source, listed, named⟩ := List.mem_map.mp declared
  cases found : ds.find? (·.name = p.1) with
  | none => exact absurd named (by simpa using List.find?_eq_none.mp found source listed)
  | some d =>
    exact ⟨{ d with name := p.2, exported := true }, by simp [renamedCopy, differs, found]⟩

/-- One pair makes its second name a name of the list if the first one was. -/
theorem mem_names_exportLocal (ds : List Declaration) (p : String × String) (n : String) :
    n ∈ (exportLocal ds p).map (·.name) ↔
      n ∈ ds.map (·.name) ∨ n = p.2 ∧ p.1 ∈ ds.map (·.name) := by
  have old : (ds.map (·.after [p])).map (·.name) = ds.map (·.name) := by
    simp [Function.comp_def, Declaration.after]
  rw [exportLocal_eq, List.map_append, List.mem_append, old]
  constructor
  · rintro (before | copied)
    · exact .inl before
    · obtain ⟨d, member, rfl⟩ := List.mem_map.mp copied
      obtain ⟨name, -, declared⟩ := mem_renamedCopy ds p d member
      exact .inr ⟨name, declared⟩
  · rintro (before | ⟨rfl, declared⟩)
    · exact .inl before
    · by_cases own : p.1 = p.2
      · exact .inl (own ▸ declared)
      · obtain ⟨d, member⟩ := exists_renamedCopy ds p own declared
        exact .inr (List.mem_map.mpr ⟨d, member, (mem_renamedCopy ds p d member).1⟩)

/-- One pair exports its second name if the first one was a name of the list. -/
theorem mem_exportedIn_exportLocal (ds : List Declaration) (p : String × String) (e : String) :
    e ∈ exportedIn (exportLocal ds p) ↔ e ∈ exportedIn ds ∨ e = p.2 ∧ p.1 ∈ ds.map (·.name) := by
  simp only [mem_exportedIn, exportLocal_eq, List.mem_append, List.mem_map]
  constructor
  · rintro ⟨d, ⟨source, listed, rfl⟩ | copied, exported, rfl⟩
    · rw [Declaration.after_singleton] at exported ⊢
      split at exported
      · rename_i named
        rw [if_pos named]
        exact .inr ⟨named.2.trans named.1, source, listed, named.2⟩
      · rename_i other
        rw [if_neg other]
        exact .inl ⟨source, listed, exported, rfl⟩
    · obtain ⟨name, -, declared⟩ := mem_renamedCopy ds p d copied
      exact .inr ⟨name, List.mem_map.mp declared⟩
  · rintro (⟨d, listed, exported, rfl⟩ | ⟨rfl, source, listed, named⟩)
    · exact ⟨d, .inl ⟨d, listed, d.after_exported [p] exported⟩, exported, rfl⟩
    · by_cases own : p.1 = p.2
      · refine ⟨source.after [p], .inl ⟨source, listed, rfl⟩, ?_, ?_⟩
        · rw [Declaration.after_singleton, if_pos ⟨own, named⟩]
        · exact named.trans own
      · obtain ⟨d, member⟩ := exists_renamedCopy ds p own (List.mem_map.mpr ⟨source, listed, named⟩)
        obtain ⟨name, exported, -⟩ := mem_renamedCopy ds p d member
        exact ⟨d, .inr member, exported, name⟩

/-- The names that stand for a declaration once the pairs are applied: those declared, and those
that such a name is exported under by a later pair. -/
inductive Known (ds : List Declaration) : List (String × String) → String → Prop
  | declared {pairs : List (String × String)} {n : String} (member : n ∈ ds.map (·.name)) :
      Known ds pairs n
  | given {before after : List (String × String)} {l e : String} (source : Known ds before l) :
      Known ds (before ++ (l, e) :: after) e

/-- One of the pairs exports under this name one that is known by then. -/
def Gives (ds : List Declaration) (pairs : List (String × String)) (e : String) : Prop :=
  ∃ before l after, pairs = before ++ (l, e) :: after ∧ Known ds before l

theorem known_iff (ds : List Declaration) (pairs : List (String × String)) (n : String) :
    Known ds pairs n ↔ n ∈ ds.map (·.name) ∨ Gives ds pairs n := by
  constructor
  · intro known
    cases known with
    | declared member => exact .inl member
    | given source => exact .inr ⟨_, _, _, rfl, source⟩
  · rintro (member | ⟨before, l, after, rfl, source⟩)
    · exact .declared member
    · exact .given source

theorem not_gives_nil (ds : List Declaration) (e : String) : ¬ Gives ds [] e := by
  rintro ⟨before, l, after, whole, -⟩
  simp at whole

theorem gives_concat (ds : List Declaration) (pairs : List (String × String)) (p : String × String)
    (e : String) :
    Gives ds (pairs ++ [p]) e ↔ Gives ds pairs e ∨ e = p.2 ∧ Known ds pairs p.1 := by
  constructor
  · rintro ⟨before, l, after, whole, known⟩
    rcases List.eq_nil_or_concat after with rfl | ⟨inner, last, rfl⟩
    · obtain ⟨rfl, rfl⟩ := List.append_singleton_inj.mp whole
      exact .inr ⟨rfl, known⟩
    · rw [List.concat_eq_append, ← List.cons_append, ← List.append_assoc,
        List.append_singleton_inj] at whole
      exact .inl ⟨before, l, inner, whole.1, known⟩
  · rintro (⟨before, l, after, rfl, known⟩ | ⟨rfl, known⟩)
    · exact ⟨before, l, after ++ [p], by simp, known⟩
    · exact ⟨pairs, p.1, [], rfl, known⟩

theorem mem_names_exportLocals (ds : List Declaration) (pairs : List (String × String))
    (n : String) : n ∈ (exportLocals ds pairs).map (·.name) ↔ Known ds pairs n := by
  induction pairs using List.reverseRecOn generalizing n with
  | nil => simp [known_iff, not_gives_nil, exportLocals]
  | append_singleton pairs p ih =>
    rw [exportLocals_concat, mem_names_exportLocal, ih, ih, known_iff ds (pairs ++ [p]),
      gives_concat, ← or_assoc, ← known_iff]

theorem mem_exportedIn_exportLocals (ds : List Declaration) (pairs : List (String × String))
    (e : String) :
    e ∈ exportedIn (exportLocals ds pairs) ↔ e ∈ exportedIn ds ∨ Gives ds pairs e := by
  induction pairs using List.reverseRecOn with
  | nil => simp [not_gives_nil, exportLocals]
  | append_singleton pairs p ih =>
    rw [exportLocals_concat, mem_exportedIn_exportLocal, ih, mem_names_exportLocals, gives_concat,
      or_assoc]

/-- Is the name exported if clauses can only name the declarations of the text? -/
def IsOwnExport (ds : List Declaration) (pairs : List (String × String)) (e : String) : Prop :=
  e ∈ exportedIn ds ∨ ∃ l, (l, e) ∈ pairs ∧ l ∈ ds.map (·.name)

/-- No name that only a pair gives to a declaration is exported further, beyond the text's own. -/
def TakesUpNothing (ds : List Declaration) (pairs : List (String × String)) : Prop :=
  ∀ own l e, (own, l) ∈ pairs → own ∈ ds.map (·.name) → (l, e) ∈ pairs → l ∉ ds.map (·.name) →
    IsOwnExport ds pairs e

theorem isOwnExport_exported {ds : List Declaration} {pairs : List (String × String)} {e : String}
    (own : IsOwnExport ds pairs e) : e ∈ exportedIn (exportLocals ds pairs) := by
  rw [mem_exportedIn_exportLocals]
  rcases own with already | ⟨l, listed, declared⟩
  · exact .inl already
  · obtain ⟨before, after, rfl⟩ := List.append_of_mem listed
    exact .inr ⟨before, l, after, rfl, .declared declared⟩

/-- Where nothing is exported further, a known name is declared or one step away from that. -/
theorem TakesUpNothing.known {ds : List Declaration} {pairs before : List (String × String)}
    (nothing : TakesUpNothing ds pairs) {n : String} (known : Known ds before n)
    (inside : before ⊆ pairs) :
    n ∈ ds.map (·.name) ∨ ∃ own, (own, n) ∈ pairs ∧ own ∈ ds.map (·.name) := by
  induction known with
  | declared member => exact .inl member
  | @given front back l e source ih =>
    have here : (l, e) ∈ pairs := inside (by simp)
    by_cases declared : l ∈ ds.map (·.name)
    · exact .inr ⟨l, here, declared⟩
    · rcases ih fun p member => inside (List.mem_append_left _ member) with
        member | ⟨own, step, known⟩
      · exact absurd member declared
      · rcases nothing own l e step known here declared with already | found
        · exact .inl (mem_names_of_exportedIn already)
        · exact .inr found

theorem TakesUpNothing.own {ds : List Declaration} {pairs : List (String × String)}
    (nothing : TakesUpNothing ds pairs) {order : List (String × String)} (same : order.Perm pairs)
    {e : String} (exported : e ∈ exportedIn (exportLocals ds order)) : IsOwnExport ds pairs e := by
  rcases (mem_exportedIn_exportLocals ds order e).mp exported with already |
    ⟨before, l, after, rfl, known⟩
  · exact .inl already
  · have inside : before ⊆ pairs := fun p member =>
      same.mem_iff.mp (List.mem_append_left _ member)
    have here : (l, e) ∈ pairs := same.mem_iff.mp (by simp)
    by_cases declared : l ∈ ds.map (·.name)
    · exact .inr ⟨l, here, declared⟩
    · rcases nothing.known known inside with member | ⟨own, step, known⟩
      · exact absurd member declared
      · exact nothing own l e step known here declared

theorem takesUpNothing_of_own {ds : List Declaration} {pairs : List (String × String)}
    (only : ∀ order, order.Perm pairs → ∀ e, e ∈ exportedIn (exportLocals ds order) →
      IsOwnExport ds pairs e) : TakesUpNothing ds pairs := by
  intro own l e first known second undeclared
  -- put the two pairs in front, the one that gives the name before the one that takes it up
  have different : (l, e) ≠ (own, l) := by
    intro same
    exact undeclared ((Prod.mk.inj same).1 ▸ known)
  have later : (l, e) ∈ pairs.erase (own, l) := (List.mem_erase_of_ne different).mpr second
  have reordered := (List.perm_cons_erase first).trans ((List.perm_cons_erase later).cons (own, l))
  apply only _ reordered.symm
  rw [mem_exportedIn_exportLocals]
  have given : Known ds ([] ++ [(own, l)]) l := .given (.declared known)
  exact .inr ⟨[(own, l)], l, _, rfl, given⟩

/-- Which names export clauses export. The declarations of the text are always among them; what is
exported is nothing more, whatever the order of the clauses, just if no name given by one clause is
taken up by another. -/
theorem exports_own_declarations_iff (ds : List Declaration) (pairs : List (String × String)) :
    (∀ e, e ∈ exportedIn (exportLocals ds pairs) ↔ e ∈ exportedIn ds ∨ Gives ds pairs e) ∧
    (∀ e, IsOwnExport ds pairs e → e ∈ exportedIn (exportLocals ds pairs)) ∧
    ((∀ order, order.Perm pairs → ∀ e,
      e ∈ exportedIn (exportLocals ds order) ↔ IsOwnExport ds pairs e) ↔
        TakesUpNothing ds pairs) := by
  refine ⟨mem_exportedIn_exportLocals ds pairs, fun e => isOwnExport_exported, ?_, ?_⟩
  · intro agree
    exact takesUpNothing_of_own fun order same e => (agree order same e).mp
  · intro nothing order same e
    constructor
    · exact nothing.own same
    · intro own
      apply isOwnExport_exported
      simpa only [IsOwnExport, same.mem_iff] using own

/-- Here `c` is taken up, but for a name that is exported anyway. -/
theorem exports_own_declarations_swapped :
    let ds : List Declaration :=
      [⟨"a", .variableBinding, false, 1⟩, ⟨"b", .variableBinding, true, 2⟩]
    let pairs := [("a", "c"), ("c", "b")]
    TakesUpNothing ds pairs ∧ IsOwnExport ds pairs "c" ∧
      "c" ∈ exportedIn (exportLocals ds pairs) ∧
      ∀ e, e ∈ exportedIn (exportLocals ds [("c", "b"), ("a", "c")]) ↔ IsOwnExport ds pairs e := by
  intro ds pairs
  have nothing : TakesUpNothing ds pairs := by
    intro own l e _ _ second undeclared
    rcases List.mem_cons.mp second with same | later
    · obtain ⟨rfl, -⟩ := Prod.mk.inj same
      exact absurd (by decide) undeclared
    · obtain ⟨-, rfl⟩ := Prod.mk.inj (List.mem_singleton.mp later)
      exact .inl (by decide)
  have own : IsOwnExport ds pairs "c" := .inr ⟨"a", by decide, by decide⟩
  obtain ⟨-, exported, only⟩ := exports_own_declarations_iff ds pairs
  exact ⟨nothing, own, exported "c" own, only.mpr nothing _ (.swap _ _ [])⟩

/-- The name `b` is given by the first pair only, and the second one exports it further; in the
other order it does not. -/
theorem given_name_exported_further :
    let a : Declaration := ⟨"a", .variableBinding, false, 2⟩
    exportedIn (exportLocals [a] [("a", "b"), ("b", "c")]) = ["b", "c"] ∧
    ¬ IsOwnExport [a] [("a", "b"), ("b", "c")] "c" ∧
    exportedIn (exportLocals [a] [("b", "c"), ("a", "b")]) = ["b"] := by
  refine ⟨by decide +kernel, ?_, by decide +kernel⟩
  rintro (already | ⟨l, listed, declared⟩)
  · exact absurd already (by decide)
  · obtain rfl : l = "a" := by simpa using declared
    exact absurd listed (by decide)

end ImportUsage
