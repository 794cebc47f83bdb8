import Mathlib.Algebra.Group.Action.Defs
import Mathlib.Algebra.Order.BigOperators.Group.List
import Mathlib.Algebra.Order.Group.Nat
import ImportUsage.Proofs.Markdown.Reader
import ImportUsage.Report.Markdown

/-! The tables of the usages read back from a Markdown report. Names are written as they are, so a
pipe or a line feed in a module breaks its row, and a line of a declaration's name that is a row
itself stands as a table of its own. Nothing else does harm. -/

namespace ImportUsage.Markdown

section WholeLines

/-- A text of whole lines, these ones. -/
def IsLines (text : String) (ls : List (List Char)) : Prop :=
  ∀ rest, cutAt '\n' (text.toList ++ rest) = ls ++ cutAt '\n' rest

namespace IsLines

theorem empty : IsLines "" [] := fun _ => rfl

theorem line (text : String) : IsLines (text ++ "\n") (lines text) := by
  intro rest
  rw [String.toList_append, List.append_assoc]
  exact cutAt_append '\n' text.toList rest

theorem append {a b : String} {as bs : List (List Char)} (first : IsLines a as)
    (second : IsLines b bs) : IsLines (a ++ b) (as ++ bs) := by
  intro rest
  rw [String.toList_append, List.append_assoc, first, second, List.append_assoc]

theorem join {α : Type} {write : α → String} {ls : α → List (List Char)}
    (each : ∀ a, IsLines (write a) (ls a)) (items : List α) :
    IsLines (String.join (items.map write)) (items.flatMap ls) := by
  induction items with
  | nil => exact empty
  | cons a rest ih =>
    rw [List.map_cons, String.join_cons, List.flatMap_cons]
    exact (each a).append ih

theorem lines_append {a : String} {as : List (List Char)} (whole : IsLines a as) (b : String) :
    lines (a ++ b) = as ++ lines b := by
  rw [lines, String.toList_append, whole]
  rfl

end IsLines

end WholeLines

section Usages

def closing (u : Usage) : String :=
  let n := u.counts.length
  " (" ++ u.declaration.kind.word ++ ", " ++ toString n ++
    (if n = 1 then " module" else " modules")

/-- The lines of the heading over a table. -/
def headings (u : Usage) : List (List Char) :=
  lines ("### \x60" ++ (u.declaration.name ++ ("\x60" ++ closing u ++ ")")))

def rowText (entry : String × Nat) : String :=
  "| " ++ entry.1 ++ " | " ++ toString entry.2 ++ " |"

def entryCells (entry : String × Nat) : List String :=
  cellsOf entry.1.toList (toString entry.2).toList

/-- No row of the table goes over a line's end. -/
def Unbroken (u : Usage) : Prop := ∀ entry ∈ u.counts, '\n' ∉ entry.1.toList

def usageLines (u : Usage) : List (List Char) :=
  headings u ++ lines "" ++ lines "| Module | Imports |" ++ lines "|--------|---------|" ++
    u.counts.flatMap (fun entry => lines (rowText entry)) ++ lines ""

theorem isLines_usage (u : Usage) : IsLines (usage u) (usageLines u) := by
  have written : usage u =
      ("### \x60" ++ (u.declaration.name ++ ("\x60" ++ closing u ++ ")"))) ++ "\n" ++
      ("" ++ "\n") ++ ("| Module | Imports |" ++ "\n") ++ ("|--------|---------|" ++ "\n") ++
      String.join (u.counts.map fun entry => rowText entry ++ "\n") ++ ("" ++ "\n") := by
    unfold usage
    simp only [closing, code, row, rowText, String.append_assoc, String.empty_append]
    rfl
  have rows := IsLines.join (fun entry => IsLines.line (rowText entry)) u.counts
  rw [written]
  exact (((((IsLines.line _).append (.line _)).append (.line _)).append (.line _)).append
    rows).append (.line _)

theorem newline_not_mem_toString (n : Nat) : '\n' ∉ (toString n).toList := fun member =>
  absurd (Csv.isDigit_of_mem_toString member) (by decide)

theorem pipe_not_mem_toString (n : Nat) : '|' ∉ (toString n).toList := fun member =>
  absurd (Csv.isDigit_of_mem_toString member) (by decide)

theorem newline_not_mem_closing (u : Usage) : '\n' ∉ (closing u).toList := by
  have word : '\n' ∉ u.declaration.kind.word.toList := by
    cases u.declaration.kind <;> decide
  have count := newline_not_mem_toString u.counts.length
  unfold closing
  simp only [String.toList_append, List.mem_append, not_or]
  refine ⟨⟨⟨⟨by decide, word⟩, by decide⟩, count⟩, ?_⟩
  split <;> decide

theorem toList_rowText (entry : String × Nat) :
    (rowText entry).toList = rowOf entry.1.toList (toString entry.2).toList := by
  simp [rowText, rowOf]

theorem lines_rowText {entry : String × Nat} (unbroken : '\n' ∉ entry.1.toList) :
    lines (rowText entry) = [rowOf entry.1.toList (toString entry.2).toList] := by
  have clean : ∀ right : List Char, '\n' ∉ right → '\n' ∉ rowOf entry.1.toList right := by
    intro right plain
    simp [rowOf, unbroken, plain]
  rw [lines, toList_rowText]
  exact cutAt_of_not_mem '\n' _ (clean _ (newline_not_mem_toString entry.2))

/-- The heading is on one line unless there are more in the name; then the first and the last of
them have the rest of the heading around them. -/
theorem headings_shape (u : Usage) :
    (∃ line rest, lines u.declaration.name = [line] ∧ headings u = ['#' :: '#' :: '#' :: rest]) ∨
    ∃ first inner last rest, lines u.declaration.name = first :: (inner ++ [last]) ∧
      headings u = ('#' :: '#' :: '#' :: rest) ::
        (inner ++ [last ++ '\x60' :: ((closing u).toList ++ [')'])]) := by
  have clean : '\n' ∉ '\x60' :: ((closing u).toList ++ [')']) := by
    simpa using newline_not_mem_closing u
  have cut := cutAt_between '\n' "### \x60".toList u.declaration.name.toList _ (by decide) clean
  have written : headings u = cutAt '\n' ("### \x60".toList ++
      (u.declaration.name.toList ++ '\x60' :: ((closing u).toList ++ [')']))) := by
    rw [headings, lines]
    simp only [String.toList_append]
    rfl
  rw [written]
  rcases cut with ⟨line, name, whole⟩ | ⟨first, inner, last, name, whole⟩
  · exact .inl ⟨line, _, name, whole⟩
  · exact .inr ⟨first, inner, last, _, name, whole⟩

theorem row?_headings_iff (u : Usage) :
    (∀ line ∈ headings u, row? line = none) ↔
      ∀ line ∈ (lines u.declaration.name).tail.dropLast, row? line = none := by
  have opened : ∀ rest, row? ('#' :: rest) = none :=
    row?_eq_none_of_head (by decide) (by decide)
  rcases headings_shape u with ⟨line, rest, name, whole⟩ | ⟨first, inner, last, rest, name, whole⟩
  · simp [name, whole, opened]
  · have closed : row? (last ++ '\x60' :: ((closing u).toList ++ [')'])) = none := by
      rw [← List.cons_append, ← List.append_assoc]
      exact row?_eq_none_of_last (by decide) _
    rw [name, whole, List.tail_cons, List.dropLast_concat]
    simp [opened, closed, or_imp, forall_and]

def tableRows (u : Usage) : List (List String) :=
  ["Module", "Imports"] :: ["--------", "---------"] ::
    u.counts.map entryCells

theorem table?_tableRows_iff (u : Usage) :
    table? (tableRows u) = some u.counts ↔ ∀ entry ∈ u.counts, '|' ∉ entry.1.toList := by
  have ruled : table? (tableRows u) = (u.counts.map entryCells).mapM item? := rfl
  rw [ruled, mapM_eq_some_iff, List.map_map, List.map_inj_left]
  exact forall₂_congr fun entry _ => item?_cellsOf_iff entry.1 entry.2

theorem map_row?_usageLines (u : Usage) (unbroken : Unbroken u) :
    (usageLines u).map row? =
      (headings u).map row? ++ none :: ((tableRows u).map some ++ [none]) := by
  have each : ∀ entry ∈ u.counts,
      (lines (rowText entry)).map row? = [some (entryCells entry)] := by
    intro entry member
    rw [lines_rowText (unbroken entry member), List.map_singleton,
      row?_rowOf _ _ (pipe_not_mem_toString entry.2), entryCells]
  have rows : (u.counts.flatMap fun entry => lines (rowText entry)).map row? =
      (u.counts.map entryCells).map some := by
    rw [List.map_flatMap, List.flatMap_congr each, List.map_map, ← List.map_eq_flatMap]
    rfl
  have header : (lines "| Module | Imports |").map row? = [some ["Module", "Imports"]] := by
    decide +kernel
  have rule : (lines "|--------|---------|").map row? = [some ["--------", "---------"]] := by
    decide +kernel
  have blank : (lines "").map row? = [none] := by decide
  rw [usageLines]
  simp only [List.map_append, rows, header, rule, blank, tableRows]
  simp

theorem flatMap_concat_eq_map_iff {α β γ : Type} (more : α → List β) (last : α → β) (f : β → γ)
    (g : α → γ) (as : List α) :
    (as.flatMap fun a => more a ++ [last a]).map f = as.map g ↔
      ∀ a ∈ as, more a = [] ∧ f (last a) = g a := by
  constructor
  · intro same
    have sizes := congrArg List.length same
    simp only [List.length_map, List.length_flatMap, List.length_append, List.length_singleton,
      List.sum_map_add, List.map_const', List.sum_replicate, smul_eq_mul, mul_one] at sizes
    have none_more : ∀ a ∈ as, more a = [] := by
      intro a member
      have within := List.le_sum_of_mem (List.mem_map_of_mem (f := fun a => (more a).length) member)
      apply List.eq_nil_of_length_eq_zero
      omega
    have short : (as.flatMap fun a => more a ++ [last a]) = as.map last := by
      rw [List.map_eq_flatMap]
      exact List.flatMap_congr fun a member => by rw [none_more a member, List.nil_append]
    rw [short, List.map_map, List.map_inj_left] at same
    exact fun a member => ⟨none_more a member, same a member⟩
  · intro each
    rw [List.map_flatMap, List.map_eq_flatMap]
    exact List.flatMap_congr fun a member => by
      rw [(each a member).1, List.nil_append, List.map_singleton, (each a member).2]

theorem blocks_usageLines (us : List Usage)
    (unbroken : ∀ u ∈ us, Unbroken u)
    (back : List (Option (List String))) :
    blocks ((us.flatMap usageLines).map row? ++ back) =
      (us.flatMap fun u => blocks ((headings u).map row?) ++ [tableRows u]) ++ blocks back := by
  induction us with
  | nil => rfl
  | cons u rest ih =>
    obtain ⟨here, below⟩ := List.forall_mem_cons.mp unbroken
    rw [List.flatMap_cons, List.map_append, map_row?_usageLines u here, List.append_assoc,
      List.append_assoc]
    rw [List.cons_append, blocks_append, List.append_assoc, List.singleton_append, blocks_append,
      blocks_map_some (tableRows u) (List.cons_ne_nil _ _), ih below, List.flatMap_cons]
    simp

theorem tables?_iff (front back : List (List Char)) (us : List Usage)
    (before : ∀ line ∈ front, row? line = none) (behind : ∀ line ∈ back, row? line = none)
    (unbroken : ∀ u ∈ us, Unbroken u) :
    tables? (front ++ us.flatMap usageLines ++ back) = some (us.map (·.counts)) ↔
      ∀ u ∈ us, (∀ line ∈ (lines u.declaration.name).tail.dropLast, row? line = none) ∧
        ∀ entry ∈ u.counts, '|' ∉ entry.1.toList := by
  have none_behind : blocks (back.map row?) = [] :=
    (blocks_eq_nil_iff _).mpr (List.forall_mem_map.mpr behind)
  rw [tables?, mapM_eq_some_iff, List.append_assoc, List.map_append, List.map_append,
    blocks_skip _ _ (List.forall_mem_map.mpr before), blocks_usageLines us unbroken, none_behind,
    List.append_nil, List.map_map, flatMap_concat_eq_map_iff]
  refine forall₂_congr fun u _ => and_congr ?_ (table?_tableRows_iff u)
  rw [blocks_eq_nil_iff, List.forall_mem_map, row?_headings_iff]

end Usages

section Sections

theorem opensSection_append {c : Char} (other : c ∉ ['#', ' ']) (line rest : List Char)
    (plain : opensSection line = false) : opensSection (line ++ c :: rest) = false := by
  obtain ⟨hash, blank⟩ : '#' ≠ c ∧ ' ' ≠ c := by simpa [eq_comm] using other
  rcases line with _ | ⟨first, _ | ⟨second, _ | ⟨third, line⟩⟩⟩
  · simp [opensSection, List.isPrefixOf, hash]
  · simp [opensSection, List.isPrefixOf, hash]
  · simp [opensSection, List.isPrefixOf, blank]
  · exact plain

theorem opensSection_usageLines (u : Usage)
    (name : ∀ line ∈ (lines u.declaration.name).tail, opensSection line = false)
    (unbroken : Unbroken u) :
    ∀ line ∈ usageLines u, opensSection line = false := by
  have heading : ∀ line ∈ headings u, opensSection line = false := by
    rcases headings_shape u with ⟨line, rest, _, whole⟩ | ⟨first, inner, last, rest, cut, whole⟩
    · rw [whole]
      exact List.forall_mem_singleton.mpr rfl
    · rw [cut, List.tail_cons, List.forall_mem_append, List.forall_mem_singleton] at name
      rw [whole, List.forall_mem_cons, List.forall_mem_append, List.forall_mem_singleton]
      exact ⟨rfl, name.1, opensSection_append (by decide) last _ name.2⟩
  have rows : ∀ line ∈ u.counts.flatMap (fun entry => lines (rowText entry)),
      opensSection line = false := by
    intro line member
    obtain ⟨entry, among, member⟩ := List.mem_flatMap.mp member
    rw [lines_rowText (unbroken entry among), List.mem_singleton] at member
    rw [member]
    rfl
  simp only [usageLines, List.forall_mem_append]
  exact ⟨⟨⟨⟨⟨heading, by decide⟩, by decide⟩, by decide⟩, rows⟩, by decide⟩

theorem takeWhile_lines_section {text : String} {below : List Char}
    (headed : text.toList = ['#', '#', ' '] ++ below) :
    (lines text).takeWhile (!opensSection ·) = [] := by
  obtain ⟨piece, back, _, cut⟩ := cutAt_behind '\n' ['#', '#', ' '] below (by decide)
  rw [lines, headed, cut]
  rfl

theorem row?_behind_usages (r : Report) :
    ∀ line ∈ (lines (unused r ++ skipped r)).takeWhile (!opensSection ·), row? line = none := by
  have headed : ∀ text : String, text = "" ∨ (∃ below, text.toList = ['#', '#', ' '] ++ below) →
      ∀ line ∈ (lines text).takeWhile (!opensSection ·), row? line = none := by
    rintro text (rfl | ⟨below, headed⟩)
    · decide
    · rw [takeWhile_lines_section headed]
      exact fun _ => nofun
  apply headed
  unfold unused skipped
  split
  · split
    · exact .inl rfl
    · right
      simp only [String.empty_append, String.toList_append, List.append_assoc]
      exact ⟨_, rfl⟩
  · right
    simp only [String.toList_append, List.append_assoc]
    exact ⟨_, rfl⟩

theorem isLines_usages (r : Report) (filled : r.used ≠ []) :
    IsLines (usages r) ("## Usages".toList :: [] :: r.used.flatMap usageLines) := by
  have written : usages r =
      "## Usages" ++ "\n" ++ ("" ++ "\n") ++ String.join (r.used.map usage) := by
    rw [usages, if_neg filled]
    rfl
  rw [written]
  exact ((IsLines.line "## Usages").append (.line "")).append (.join isLines_usage r.used)

/-- Whole lines before the heading of the usages. -/
def Leading (text : String) : Prop := ∃ ls, IsLines text ls ∧ "## Usages".toList ∉ ls

namespace Leading

theorem append {a b : String} (first : Leading a) (second : Leading b) : Leading (a ++ b) := by
  obtain ⟨as, whole, other⟩ := first
  obtain ⟨bs, below, apart⟩ := second
  exact ⟨as ++ bs, whole.append below, mt List.mem_append.mp (not_or.mpr ⟨other, apart⟩)⟩

theorem row {name : String} (unbroken : '\n' ∉ name.toList) (n : Nat) :
    Leading (Markdown.row name n) := by
  have written : Markdown.row name n = rowText (name, n) ++ "\n" := by
    simp only [Markdown.row, rowText, String.append_assoc]
    rfl
  refine ⟨_, written ▸ IsLines.line (rowText (name, n)), ?_⟩
  rw [lines_rowText unbroken, List.mem_singleton]
  exact nofun

theorem summary (r : Report) : Leading (Markdown.summary r) := by
  have written : "## Summary\n\n" ++ "| Metric | Count |\n" ++ "|--------|-------|\n" =
      "## Summary" ++ "\n" ++ ("" ++ "\n") ++ ("| Metric | Count |" ++ "\n") ++
        ("|--------|-------|" ++ "\n") := by decide
  have head : Leading ("## Summary\n\n" ++ "| Metric | Count |\n" ++ "|--------|-------|\n") := by
    rw [written]
    exact ⟨_, (((IsLines.line _).append (.line _)).append (.line _)).append (.line _), by decide⟩
  have nothing : Leading "" := ⟨[], .empty, List.not_mem_nil⟩
  have excluded : Leading (if 0 < r.filesExcluded then Markdown.row "Files Excluded" r.filesExcluded
      else "") := by
    split
    · exact row (by decide) _
    · exact nothing
  have skipped : Leading (if r.skipped = [] then "" else
      Markdown.row "Files Skipped" r.skipped.length) := by
    split
    · exact nothing
    · exact row (by decide) _
  have last : Leading "\n" := ⟨_, IsLines.line "", by decide⟩
  exact ((((((((head.append (row (by decide) _)).append (row (by decide) _)).append
    (row (by decide) _)).append (row (by decide) _)).append (row (by decide) _)).append
    (row (by decide) _)).append excluded).append skipped).append last

theorem target (r : Report) (clean : "## Usages".toList ∉ (lines r.target).tail) :
    Leading ("# Declaration Usage Report\n\n" ++ "**Target:** " ++ code r.target ++ "\n\n") := by
  have written : "# Declaration Usage Report\n\n" ++ "**Target:** " ++ code r.target ++ "\n\n" =
      "# Declaration Usage Report" ++ "\n" ++ ("" ++ "\n") ++
        ("**Target:** \x60" ++ (r.target ++ "\x60") ++ "\n" ++ ("" ++ "\n")) := by
    simp only [code, String.append_assoc]
    rfl
  have title : Leading ("# Declaration Usage Report" ++ "\n" ++ ("" ++ "\n")) :=
    ⟨_, (IsLines.line _).append (.line ""), by decide⟩
  have path : Leading ("**Target:** \x60" ++ (r.target ++ "\x60") ++ "\n") := by
    refine ⟨_, IsLines.line _, ?_⟩
    rw [lines, String.toList_append, String.toList_append]
    rcases cutAt_between '\n' "**Target:** \x60".toList r.target.toList "\x60".toList (by decide)
      (by decide) with ⟨line, _, whole⟩ | ⟨first, inner, last, cut, whole⟩
    · rw [whole, List.mem_singleton]
      exact nofun
    · rw [lines, cut, List.tail_cons, List.mem_append, not_or] at clean
      rw [whole, List.mem_cons, List.mem_append, List.mem_singleton]
      rintro (same | member | same)
      · exact absurd same nofun
      · exact clean.1 member
      · have ends := congrArg List.getLast? same
        rw [List.getLast?_append] at ends
        exact absurd (Option.some.inj ends) (by decide)
  rw [written]
  exact title.append (path.append ⟨_, IsLines.line "", by decide⟩)

end Leading

theorem section_markdown (r : Report) (filled : r.used ≠ [])
    (target : "## Usages".toList ∉ (lines r.target).tail)
    (names : ∀ u ∈ r.used, ∀ line ∈ (lines u.declaration.name).tail, opensSection line = false)
    (unbroken : ∀ u ∈ r.used, Unbroken u) :
    sectionBelow "## Usages" (lines r.markdown) =
      [[]] ++ r.used.flatMap usageLines ++
        (lines (unused r ++ skipped r)).takeWhile (!opensSection ·) := by
  obtain ⟨front, before, apart⟩ := (Leading.target r target).append (Leading.summary r)
  have plain : ∀ line ∈ [[]] ++ r.used.flatMap usageLines, opensSection line = false := by
    rw [List.forall_mem_append]
    refine ⟨by decide, fun line member => ?_⟩
    obtain ⟨u, among, member⟩ := List.mem_flatMap.mp member
    exact opensSection_usageLines u (names u among) (unbroken u among) line member
  have written : r.markdown = "# Declaration Usage Report\n\n" ++ "**Target:** " ++ code r.target ++
      "\n\n" ++ summary r ++ usages r ++ (unused r ++ skipped r) := String.append_assoc
  have other : ∀ line ∈ front, decide (line ≠ "## Usages".toList) = true := fun line member =>
    decide_eq_true (ne_of_mem_of_not_mem member apart)
  rw [sectionBelow, written, (before.append (isLines_usages r filled)).lines_append,
    List.append_assoc, List.dropWhile_append_of_pos other, List.cons_append,
    List.dropWhile_cons_of_neg (by simp), List.drop_one, List.tail_cons, ← List.singleton_append,
    List.takeWhile_append_of_pos (fun line member => by rw [plain line member]; rfl)]

end Sections

section ReadBack

/-- The table of a usage can be read back: its modules hold no pipe and no line feed, and inside the
name of its declaration is no line that is a row. -/
def Readable (u : Usage) : Prop :=
  (∀ m ∈ u.importers, '|' ∉ m.toList ∧ '\n' ∉ m.toList) ∧
    ∀ line ∈ (lines u.declaration.name).tail.dropLast, row? line = none

instance (u : Usage) : Decidable (Readable u) := inferInstanceAs (Decidable (_ ∧ _))

theorem forall_counts_iff (u : Usage) (p : String → Prop) :
    (∀ entry ∈ u.counts, p entry.1) ↔ ∀ m ∈ u.importers, p m := by
  rw [Usage.counts_eq, List.forall_mem_map]
  exact forall_congr' fun m => by rw [mem_distinct]

theorem readable_iff (u : Usage) :
    Readable u ↔ Unbroken u ∧
      (∀ line ∈ (lines u.declaration.name).tail.dropLast, row? line = none) ∧
        ∀ entry ∈ u.counts, '|' ∉ entry.1.toList := by
  rw [Unbroken, forall_counts_iff u ('\n' ∉ ·.toList), forall_counts_iff u ('|' ∉ ·.toList), Readable]
  simp only [forall_and]
  tauto

theorem tables?_iff_readable (us : List Usage) (found : List (List Char))
    (single : ∀ line ∈ found, '\n' ∉ line)
    (shape : (∀ u ∈ us, Unbroken u) → ∃ front back,
      (∀ line ∈ front, row? line = none) ∧ (∀ line ∈ back, row? line = none) ∧
        found = front ++ us.flatMap usageLines ++ back) :
    tables? found = some (us.map (·.counts)) ↔ ∀ u ∈ us, Readable u := by
  have iff_of_unbroken : (∀ u ∈ us, Unbroken u) →
      (tables? found = some (us.map (·.counts)) ↔ ∀ u ∈ us, Readable u) := by
    intro unbroken
    obtain ⟨front, back, before, behind, rfl⟩ := shape unbroken
    rw [tables?_iff front back us before behind unbroken]
    refine forall₂_congr fun u member => ?_
    rw [readable_iff, and_iff_right (unbroken u member)]
  constructor
  · intro read
    -- what is read comes from single lines, so no module holds a line feed
    refine (iff_of_unbroken fun u member entry among => ?_).mp read
    obtain ⟨line, inFound, part⟩ := mem_of_tables? read (List.mem_map_of_mem member) among
    exact fun broken => single line inFound (part broken)
  · intro readable
    exact (iff_of_unbroken fun u member => ((readable_iff u).mp (readable u member)).1).mpr readable

theorem newline_not_mem_lines {text : String} {line : List Char} (member : line ∈ lines text) :
    '\n' ∉ line :=
  not_mem_of_mem_cutAt '\n' text.toList line member

theorem tables?_written_iff (r : Report) :
    tables? (lines (usages r)) = some (r.used.map (·.counts)) ↔ ∀ u ∈ r.used, Readable u := by
  refine tables?_iff_readable r.used _ (fun _ => newline_not_mem_lines) fun _ => ?_
  by_cases filled : r.used = []
  · refine ⟨[[]], [], by decide, by decide, ?_⟩
    rw [usages, if_pos filled, filled]
    rfl
  · refine ⟨["## Usages".toList, []], [[]], by decide, by decide, ?_⟩
    have whole := (isLines_usages r filled).lines_append ""
    rwa [String.append_empty] at whole

theorem tables?_found_iff (r : Report) (filled : r.used ≠ [])
    (target : "## Usages".toList ∉ (lines r.target).tail)
    (names : ∀ u ∈ r.used, ∀ line ∈ (lines u.declaration.name).tail, opensSection line = false) :
    tables? (sectionBelow "## Usages" (lines r.markdown)) = some (r.used.map (·.counts)) ↔
      ∀ u ∈ r.used, Readable u := by
  refine tables?_iff_readable r.used _ ?_ fun unbroken => ?_
  · intro line member
    have below := List.mem_of_mem_drop ((List.takeWhile_sublist _).mem member)
    exact newline_not_mem_lines ((List.dropWhile_sublist _).mem below)
  · exact ⟨[[]], _, by decide, row?_behind_usages r,
      section_markdown r filled target names unbroken⟩

/-- The tables of the usages are read back, both from the text of the usages and from the section
that a reader finds in the report, exactly if each of them can be. -/
theorem tables?_usages_iff (r : Report) :
    (tables? (lines (usages r)) = some (r.used.map (·.counts)) ↔ ∀ u ∈ r.used, Readable u) ∧
    (r.used ≠ [] → "## Usages".toList ∉ (lines r.target).tail →
      (∀ u ∈ r.used, ∀ line ∈ (lines u.declaration.name).tail, opensSection line = false) →
      (tables? (sectionBelow "## Usages" (lines r.markdown)) = some (r.used.map (·.counts)) ↔
        ∀ u ∈ r.used, Readable u)) := by
  constructor
  · exact tables?_written_iff r
  · exact tables?_found_iff r

/- Names that are odd, but do no harm. -/
def oddReport : Report :=
  ⟨"lib.ts", [⟨⟨"a\n|b\nc", .function, true, 1⟩, ["x\\", " ", "x\\"]⟩,
    ⟨⟨"d", .classType, true, 4⟩, []⟩], 2, 0, []⟩

theorem tables?_oddReport :
    oddReport.used.map (·.counts) = [[("x\\", 2), (" ", 1)]] ∧
      tables? (lines (usages oddReport)) = some (oddReport.used.map (·.counts)) ∧
      tables? (sectionBelow "## Usages" (lines oddReport.markdown)) =
        some (oddReport.used.map (·.counts)) := by
  have readable : ∀ u ∈ oddReport.used, Readable u := by decide
  obtain ⟨written, found⟩ := tables?_usages_iff oddReport
  exact ⟨by decide, written.mpr readable,
    (found (by decide) (by decide) (by decide)).mpr readable⟩

/- The pipe in the module makes three cells of two. -/
def pipedReport : Report :=
  ⟨"lib.ts", [⟨⟨"a", .variableBinding, true, 1⟩, ["x|y.ts"]⟩], 1, 0, []⟩

theorem tables?_pipedReport :
    row? (rowText ("x|y.ts", 1)).toList = some ["x", "y.ts", "1"] ∧
      tables? (lines (usages pipedReport)) ≠ some (pipedReport.used.map (·.counts)) ∧
      tables? (sectionBelow "## Usages" (lines pipedReport.markdown)) ≠
        some (pipedReport.used.map (·.counts)) := by
  have unreadable : ¬∀ u ∈ pipedReport.used, Readable u := by decide
  refine ⟨by decide +kernel, mt (tables?_written_iff pipedReport).mp unreadable, mt ?_ unreadable⟩
  exact (tables?_found_iff pipedReport (by decide) (by decide) (by decide)).mp

end ReadBack

end ImportUsage.Markdown
