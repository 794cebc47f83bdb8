import Mathlib.Data.List.ReduceOption
import ImportUsage.Proofs.Report.Csv
import ImportUsage.Proofs.Text.Cut

/-! A reader of the pipe tables in a Markdown text. A row is a line that begins and ends with a
pipe, and its cells stand between the pipes; a pipe behind a backslash separates nothing, the two
stand for a pipe. Rows on lines that follow each other are a table. -/

namespace ImportUsage.Markdown

/-- What the characters of a line stand for, with nothing for a pipe between cells. -/
def marks : List Char → List (Option Char)
  | [] => []
  | '\\' :: '|' :: rest => some '|' :: marks rest
  | c :: rest => (if c = '|' then none else some c) :: marks rest

/-- A cell without the blank at either side. -/
def unpadded (cell : List Char) : List Char :=
  let inner := if cell.head? = some ' ' then cell.tail else cell
  if inner.getLast? = some ' ' then inner.dropLast else inner

def cell (piece : List (Option Char)) : String := String.ofList (unpadded piece.reduceOption)

def row? (line : List Char) : Option (List String) :=
  match marks line with
  | none :: rest =>
    if rest.getLast? = some none then some ((cutAt none rest.dropLast).map cell) else none
  | _ => none

/-- The rows that follow each other without a line between them. -/
def blocks (rows : List (Option (List String))) : List (List (List String)) :=
  ((cutAt none rows).filter (· ≠ [])).map List.reduceOption

def isRule (cell : String) : Bool := cell ≠ "" && cell.toList.all (· = '-')

def item? : List String → Option (String × Nat)
  | [name, count] => (Csv.number? count).map fun n => (name, n)
  | _ => none

/-- The items of a table of two columns, below its header and its rule. -/
def table? : List (List String) → Option (List (String × Nat))
  | [_, _] :: [left, right] :: rows =>
    if isRule left && isRule right then rows.mapM item? else none
  | _ => none

def tables? (lines : List (List Char)) : Option (List (List (String × Nat))) :=
  (blocks (lines.map row?)).mapM table?

def lines (text : String) : List (List Char) := cutAt '\n' text.toList

def opensSection (line : List Char) : Bool := ['#', '#', ' '].isPrefixOf line

/-- The lines below the first line with a heading, to the next section. -/
def sectionBelow (heading : String) (lines : List (List Char)) : List (List Char) :=
  ((lines.dropWhile (· ≠ heading.toList)).drop 1).takeWhile (!opensSection ·)

section Marks

theorem marks_cons {c : Char} (plain : c ≠ '\\') (rest : List Char) :
    marks (c :: rest) = (if c = '|' then none else some c) :: marks rest := by
  rw [marks]
  rintro _ rfl
  contradiction

/-- Only a pipe depends on what stands before it. -/
theorem marks_append_cons (as bs : List Char) {c : Char} (plain : c ≠ '|') :
    marks (as ++ c :: bs) = marks as ++ marks (c :: bs) := by
  fun_induction marks as with
  | case1 => rfl
  | case2 rest ih => simp only [List.cons_append, marks, ih]
  | case3 d rest apart ih =>
    rw [List.cons_append, List.cons_append, ← ih, marks]
    intro bs' escape follows
    cases rest with
    | nil => exact plain (List.cons.inj follows).1
    | cons e rest =>
      cases (List.cons.inj follows).1
      exact apart rest escape rfl

theorem mem_of_mem_marks (line : List Char) {c : Char} (member : some c ∈ marks line) :
    c ∈ line := by
  fun_induction marks line with
  | case1 => contradiction
  | case2 rest ih =>
    rcases List.mem_cons.mp member with same | later
    · cases same
      simp
    · simp [ih later]
  | case3 d rest _ ih =>
    rcases List.mem_cons.mp member with same | later
    · split at same
      · contradiction
      · cases same
        exact List.mem_cons_self
    · exact List.mem_cons_of_mem d (ih later)

theorem marks_eq_map_iff (line : List Char) : marks line = line.map some ↔ '|' ∉ line := by
  fun_induction marks line with
  | case1 => simp
  | case2 rest ih => simp
  | case3 c rest _ ih =>
    rw [List.map_cons, List.cons.injEq, ih, List.mem_cons, not_or]
    by_cases pipe : c = '|'
    · simp [pipe]
    · simp [pipe, Ne.symm pipe]

end Marks

section Rows

theorem unpadded_padded (as : List Char) : unpadded (' ' :: (as ++ [' '])) = as := by
  simp [unpadded]

theorem mem_of_mem_unpadded {as : List Char} {c : Char} (member : c ∈ unpadded as) : c ∈ as := by
  have inner : ∀ {bs : List Char},
      c ∈ (if bs.getLast? = some ' ' then bs.dropLast else bs) → c ∈ bs := by
    intro bs member
    split at member
    · exact List.mem_of_mem_dropLast member
    · exact member
  have kept := inner member
  split at kept
  · exact List.mem_of_mem_tail kept
  · exact kept

theorem mem_of_mem_row? {line : List Char} {cells : List String} (read : row? line = some cells)
    {s : String} (member : s ∈ cells) : s.toList ⊆ line := by
  unfold row? at read
  split at read
  · rename_i rest marked
    split at read
    · cases read
      obtain ⟨piece, among, rfl⟩ := List.mem_map.mp member
      intro c found
      rw [cell, String.toList_ofList] at found
      have inPiece := List.reduceOption_mem_iff.mp (mem_of_mem_unpadded found)
      have inRest := List.mem_of_mem_dropLast (mem_of_mem_cutAt none _ among inPiece)
      exact mem_of_mem_marks line (marked ▸ List.mem_cons_of_mem none inRest)
    · contradiction
  · contradiction

theorem row?_eq_none_of_head {c : Char} (plain : c ≠ '\\') (other : c ≠ '|') (rest : List Char) :
    row? (c :: rest) = none := by
  unfold row?
  rw [marks_cons plain, if_neg other]

theorem row?_eq_none_of_last {c : Char} (other : c ≠ '|') (front : List Char) :
    row? (front ++ [c]) = none := by
  have last : marks [c] = [some c] := by
    rw [(marks_eq_map_iff [c]).mpr (by simpa using Ne.symm other)]
    rfl
  unfold row?
  rw [marks_append_cons front [] other, last]
  cases marks front with
  | nil => rfl
  | cons first more => cases first <;> simp

def rowOf (left right : List Char) : List Char :=
  '|' :: ' ' :: (left ++ ' ' :: '|' :: ' ' :: (right ++ [' ', '|']))

/-- The cells of a row whose left cell may hold pipes. -/
def cellsOf (left right : List Char) : List String :=
  (cutAt none (some ' ' :: (marks left ++ [some ' ']))).map cell ++ [String.ofList right]

theorem cell_padded (as : List Char) :
    cell (some ' ' :: (as.map some ++ [some ' '])) = String.ofList as := by
  have whole : (some ' ' :: (as.map some ++ [some ' '])).reduceOption = ' ' :: (as ++ [' ']) := by
    simp [List.reduceOption]
  rw [cell, whole, unpadded_padded]

theorem row?_of_marks {line : List Char} {inner : List (Option Char)}
    (marked : marks line = none :: (inner ++ [none])) :
    row? line = some ((cutAt none inner).map cell) := by
  unfold row?
  rw [marked]
  simp

theorem row?_rowOf (left right : List Char) (clean : '|' ∉ right) :
    row? (rowOf left right) = some (cellsOf left right) := by
  have plain := (marks_eq_map_iff right).mpr clean
  have marked : marks (rowOf left right) = none :: ((some ' ' :: (marks left ++ [some ' '])) ++
      none :: (some ' ' :: (right.map some ++ [some ' '])) ++ [none]) := by
    simp [rowOf, marks_cons, marks_append_cons, plain, marks]
  have one : none ∉ some ' ' :: (right.map some ++ [some ' ']) := by simp
  rw [row?_of_marks marked, cutAt_append, cutAt_of_not_mem none _ one, List.map_append,
    List.map_singleton, cell_padded]
  rfl

theorem map_some_reduceOption (as : List (Option Char)) (filled : none ∉ as) :
    as.reduceOption.map some = as := by
  induction as with
  | nil => rfl
  | cons a rest ih =>
    obtain ⟨present, below⟩ := not_or.mp (mt List.mem_cons.mpr filled)
    cases a with
    | none => contradiction
    | some c => rw [List.reduceOption_cons_of_some, List.map_cons, ih below]

/-- The item of a row is what was written exactly if the left cell holds no pipe. -/
theorem item?_cellsOf_iff (name : String) (n : Nat) :
    item? (cellsOf name.toList (toString n).toList) = some (name, n) ↔ '|' ∉ name.toList := by
  have number : ∀ left, item? [left, toString n] = some (left, n) := by
    intro left
    rw [item?, Csv.number?_toString, Option.map_some]
  rw [cellsOf, String.ofList_toList]
  constructor
  · intro read
    cases cut : cutAt none (some ' ' :: (marks name.toList ++ [some ' '])) with
    | nil => exact absurd cut (cutAt_ne_nil none _)
    | cons piece more =>
      rw [cut] at read
      cases more with
      | cons next more => simp [item?] at read
      | nil =>
        -- no pipe is left to cut at, so an escaped one would be missing from the name read
        obtain ⟨filled, rfl⟩ := cutAt_eq_singleton none cut
        have filled : none ∉ marks name.toList := by simpa using filled
        have same := (Prod.mk.inj (Option.some.inj ((number _).symm.trans read))).1
        rw [← map_some_reduceOption _ filled, cell_padded] at same
        have chars : (marks name.toList).reduceOption = name.toList := by
          rw [← String.toList_ofList (l := (marks name.toList).reduceOption), same]
        rw [← marks_eq_map_iff, ← chars, map_some_reduceOption _ filled, chars]
  · intro clean
    have plain := (marks_eq_map_iff name.toList).mpr clean
    have one : none ∉ some ' ' :: (name.toList.map some ++ [some ' ']) := by simp
    rw [plain, cutAt_of_not_mem none _ one, List.map_singleton, cell_padded, String.ofList_toList]
    exact number name

end Rows

section Blocks

theorem blocks_append (as bs : List (Option (List String))) :
    blocks (as ++ none :: bs) = blocks as ++ blocks bs := by
  rw [blocks, cutAt_append, List.filter_append, List.map_append]
  rfl

theorem blocks_map_some (rows : List (List String)) (filled : rows ≠ []) :
    blocks (rows.map some) = [rows] := by
  have one : none ∉ rows.map some := by simp
  rw [blocks, cutAt_of_not_mem none _ one, List.filter_cons_of_pos (by simpa using filled)]
  simp [List.reduceOption]

theorem blocks_skip (front rows : List (Option (List String)))
    (none_row : ∀ row ∈ front, row = none) : blocks (front ++ rows) = blocks rows := by
  induction front with
  | nil => rfl
  | cons row rest ih =>
    obtain ⟨rfl, below⟩ := List.forall_mem_cons.mp none_row
    rw [List.cons_append, ← ih below]
    exact blocks_append [] (rest ++ rows)

theorem blocks_eq_nil_iff (rows : List (Option (List String))) :
    blocks rows = [] ↔ ∀ row ∈ rows, row = none := by
  induction rows with
  | nil => simp [blocks, cutAt]
  | cons row rest ih =>
    cases row with
    | none =>
      rw [show blocks (none :: rest) = blocks rest from blocks_append [] rest, ih]
      simp
    | some cells =>
      obtain ⟨piece, back, _, cut⟩ := cutAt_behind none [some cells] rest (by simp)
      rw [List.singleton_append] at cut
      rw [blocks, cut]
      simp

theorem mem_of_mem_blocks {rows : List (Option (List String))} {block : List (List String)}
    {row : List String} (found : block ∈ blocks rows) (member : row ∈ block) : some row ∈ rows := by
  obtain ⟨piece, among, rfl⟩ := List.mem_map.mp found
  have inPiece := List.reduceOption_mem_iff.mp member
  exact mem_of_mem_cutAt none rows (List.mem_filter.mp among).1 inPiece

end Blocks

section Tables

theorem mapM_eq_some_iff {α β : Type} (f : α → Option β) (as : List α) (bs : List β) :
    as.mapM f = some bs ↔ as.map f = bs.map some := by
  induction as generalizing bs with
  | nil => cases bs <;> simp
  | cons a rest ih =>
    rw [List.mapM_cons]
    cases found : f a with
    | none => cases bs <;> simp [found]
    | some b =>
      cases bs with
      | nil => simp [Option.bind_eq_some_iff]
      | cons b' bs =>
        rw [List.map_cons, List.map_cons, List.cons.injEq, ← ih, found]
        simp [Option.bind_eq_some_iff, and_comm]

theorem exists_of_mem_mapM {α β : Type} {f : α → Option β} {as : List α} {bs : List β}
    (mapped : as.mapM f = some bs) {b : β} (member : b ∈ bs) : ∃ a ∈ as, f a = some b := by
  have among := List.mem_map_of_mem (f := some) member
  rw [← (mapM_eq_some_iff f as bs).mp mapped] at among
  exact List.mem_map.mp among

theorem mem_of_item? {row : List String} {entry : String × Nat} (read : item? row = some entry) :
    entry.1 ∈ row := by
  unfold item? at read
  split at read
  · obtain ⟨n, _, rfl⟩ := Option.map_eq_some_iff.mp read
    exact List.mem_cons_self
  · contradiction

theorem mem_of_table? {block : List (List String)} {entries : List (String × Nat)}
    (read : table? block = some entries) {entry : String × Nat} (member : entry ∈ entries) :
    ∃ row ∈ block, entry.1 ∈ row := by
  unfold table? at read
  split at read
  · split at read
    · obtain ⟨row, among, found⟩ := exists_of_mem_mapM read member
      exact ⟨row, by simp [among], mem_of_item? found⟩
    · contradiction
  · contradiction

theorem mem_of_tables? {lines : List (List Char)} {found : List (List (String × Nat))}
    (read : tables? lines = some found) {entries : List (String × Nat)} (table : entries ∈ found)
    {entry : String × Nat} (member : entry ∈ entries) : ∃ line ∈ lines, entry.1.toList ⊆ line := by
  obtain ⟨block, among, table⟩ := exists_of_mem_mapM read table
  obtain ⟨row, inBlock, name⟩ := mem_of_table? table member
  obtain ⟨line, inLines, row⟩ := List.mem_map.mp (mem_of_mem_blocks among inBlock)
  exact ⟨line, inLines, mem_of_mem_row? row name⟩

end Tables

end ImportUsage.Markdown
