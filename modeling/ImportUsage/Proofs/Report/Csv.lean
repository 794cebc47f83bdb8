import ImportUsage.Proofs.Report.Counts
import ImportUsage.Proofs.Text.Transduce
import ImportUsage.Report.Csv

/-! The table of comma-separated fields read back. A reader takes the text character by character: a
line feed outside quotes ends a record and a comma outside quotes ends a field, and in a field that
begins with a quote two quotes stand for one. -/

namespace ImportUsage

namespace Csv

/- What the reader has of a field, the last character first. After a quote inside quotes the field may
be at its end. -/
inductive Mode
  | start
  | plain (read : List Char)
  | quoted (read : List Char)
  | closed (read : List Char)
deriving DecidableEq, Repr

/- The fields before the one that is read, in the record that is read. -/
structure State where
  fields : List String
  mode : Mode
deriving DecidableEq, Repr

namespace State

def initial : State := ⟨[], .start⟩

/-- Ends a field, and the record if a line feed does it. -/
def finish? (s : State) (read : List Char) (c : Char) : Option (List (List String) × State) :=
  let fields := s.fields ++ [String.ofList read.reverse]
  if c = ',' then some ([], ⟨fields, .start⟩)
  else if c = '\n' then some ([fields], initial)
  else none

def step (s : State) (c : Char) : Option (List (List String) × State) :=
  match s.mode with
  | .start =>
    if c = '"' then some ([], { s with mode := .quoted [] })
    else (s.finish? [] c).or (some ([], { s with mode := .plain [c] }))
  | .plain read => (s.finish? read c).or (some ([], { s with mode := .plain (c :: read) }))
  | .quoted read =>
    if c = '"' then some ([], { s with mode := .closed read })
    else some ([], { s with mode := .quoted (c :: read) })
  | .closed read =>
    if c = '"' then some ([], { s with mode := .quoted ('"' :: read) })
    else s.finish? read c

end State

/-- The records of a text. -/
def read? (text : String) : Option (List (List String)) := do
  let (records, last) ← transduce State.step .initial text.toList
  if last = .initial then some records else none

/-- The number that a field stands for. -/
def number? (field : String) : Option Nat :=
  if field ≠ "" ∧ field.toList.all Char.isDigit then some (Nat.ofDigitChars 10 field.toList 0)
  else none

theorem isDigit_of_mem_toString {n : Nat} {c : Char} (member : c ∈ (toString n).toList) :
    c.isDigit := by
  rw [Nat.toString_eq_ofList_toDigits, String.toList_ofList] at member
  exact Nat.isDigit_of_mem_toDigits (by decide) (by decide) member

theorem number?_toString (n : Nat) : number? (toString n) = some n := by
  have digits : (toString n).toList.all Char.isDigit = true :=
    List.all_eq_true.mpr fun _ => isDigit_of_mem_toString
  have filled : toString n ≠ "" := by
    intro empty
    apply Nat.toDigits_ne_nil (n := n) (b := 10)
    rw [← String.toList_ofList (l := Nat.toDigits 10 n), ← Nat.toString_eq_ofList_toDigits, empty]
    rfl
  unfold number?
  rw [if_pos ⟨filled, digits⟩, Nat.toString_eq_ofList_toDigits, String.toList_ofList,
    Nat.ofDigitChars_ten_toDigits]

/- In this mode a field with these characters may end. -/
inductive Mode.Completes : Mode → List Char → Prop
  | start : Completes .start []
  | plain (read : List Char) : Completes (.plain read) read.reverse
  | closed (read : List Char) : Completes (.closed read) read.reverse

theorem Mode.Completes.step_mark {m : Mode} {text : List Char} (done : m.Completes text)
    (fields : List String) {c : Char} (mark : c = ',' ∨ c = '\n') :
    State.step ⟨fields, m⟩ c =
      some (if c = ',' then ([], ⟨fields ++ [String.ofList text], .start⟩)
        else ([fields ++ [String.ofList text]], .initial)) := by
  have unquoted : c ≠ '"' := by
    rcases mark with rfl | rfl <;> decide
  cases done with
  | start => rcases mark with rfl | rfl <;> rfl
  | plain read => rcases mark with rfl | rfl <;> rfl
  | closed read =>
    unfold State.step
    simp only [if_neg unquoted]
    rcases mark with rfl | rfl <;> rfl

/- A character that does not have to be quoted. -/
def Plain (c : Char) : Prop := c ≠ ',' ∧ c ≠ '"' ∧ c ≠ '\n'

theorem finish?_plain {c : Char} (plain : Plain c) (s : State) (read : List Char) :
    s.finish? read c = none := by
  unfold State.finish?
  simp only [if_neg plain.1, if_neg plain.2.2]

theorem transduce_plain (fields : List String) (read text : List Char)
    (plain : ∀ c ∈ text, Plain c) :
    transduce State.step ⟨fields, .plain read⟩ text =
      some ([], ⟨fields, .plain (text.reverse ++ read)⟩) := by
  induction text generalizing read with
  | nil => rfl
  | cons c rest ih =>
    have first : State.step ⟨fields, .plain read⟩ c = some ([], ⟨fields, .plain (c :: read)⟩) := by
      unfold State.step
      simp only [finish?_plain (plain c List.mem_cons_self), Option.none_or]
    have others := ih (c :: read) fun d member => plain d (List.mem_cons_of_mem c member)
    simpa using transduce_cons first others

theorem transduce_unquoted (fields : List String) (text : List Char)
    (plain : ∀ c ∈ text, Plain c) :
    ∃ m : Mode, m.Completes text ∧
      transduce State.step ⟨fields, .start⟩ text = some ([], ⟨fields, m⟩) := by
  cases text with
  | nil => exact ⟨.start, .start, rfl⟩
  | cons c rest =>
    have plain_c := plain c List.mem_cons_self
    have first : State.step ⟨fields, .start⟩ c = some ([], ⟨fields, .plain [c]⟩) := by
      unfold State.step
      simp only [if_neg plain_c.2.1, finish?_plain plain_c, Option.none_or]
    have others := transduce_plain fields [c] rest fun d member =>
      plain d (List.mem_cons_of_mem c member)
    refine ⟨.plain (rest.reverse ++ [c]), ?_, transduce_cons first others⟩
    have done := Mode.Completes.plain (rest.reverse ++ [c])
    simpa using done

/- Quotes are doubled. -/
def doubled (text : List Char) : List Char :=
  text.flatMap fun c => if c = '"' then ['"', '"'] else [c]

theorem transduce_doubled (fields : List String) (read text : List Char) :
    transduce State.step ⟨fields, .quoted read⟩ (doubled text) =
      some ([], ⟨fields, .quoted (text.reverse ++ read)⟩) := by
  induction text generalizing read with
  | nil => rfl
  | cons c rest ih =>
    have first : transduce State.step ⟨fields, .quoted read⟩ (if c = '"' then ['"', '"'] else [c]) =
        some ([], ⟨fields, .quoted (c :: read)⟩) := by
      by_cases quote : c = '"'
      · subst quote
        rfl
      · simp [transduce, State.step, quote]
    simpa [doubled] using transduce_append first (ih (c :: read))

theorem transduce_quoted (fields : List String) (text : List Char) :
    ∃ m : Mode, m.Completes text ∧
      transduce State.step ⟨fields, .start⟩ ('"' :: doubled text ++ ['"']) =
        some ([], ⟨fields, m⟩) := by
  have opening : State.step ⟨fields, .start⟩ '"' = some ([], ⟨fields, .quoted []⟩) := rfl
  have closing : transduce State.step ⟨fields, .quoted (text.reverse ++ [])⟩ ['"'] =
      some ([], ⟨fields, .closed (text.reverse ++ [])⟩) := rfl
  refine ⟨.closed (text.reverse ++ []), ?_, ?_⟩
  · have done := Mode.Completes.closed (text.reverse ++ [])
    simpa using done
  · exact transduce_cons opening (transduce_append (transduce_doubled fields [] text) closing)

/-- A written field is read to where it may end. -/
theorem transduce_field (fields : List String) (s : String) :
    ∃ m : Mode, m.Completes s.toList ∧
      transduce State.step ⟨fields, .start⟩ (field s).toList = some ([], ⟨fields, m⟩) := by
  unfold field
  by_cases special : s.toList.any fun c => c = ',' || c = '"' || c = '\n'
  · simp only [special, if_true, String.toList_ofList]
    exact transduce_quoted fields s.toList
  · simp only [special, if_false, Bool.false_eq_true]
    apply transduce_unquoted
    intro c member
    have ordinary := mt (fun found => List.any_eq_true.mpr ⟨c, member, found⟩) special
    simpa [Plain, not_or, and_assoc] using ordinary

theorem transduce_comma (fields : List String) (s : String) :
    transduce State.step ⟨fields, .start⟩ ((field s).toList ++ [',']) =
      some ([], ⟨fields ++ [s], .start⟩) := by
  obtain ⟨m, done, read⟩ := transduce_field fields s
  have stepped := done.step_mark fields (.inl rfl)
  rw [if_pos rfl, String.ofList_toList] at stepped
  exact transduce_append read (transduce_cons stepped rfl)

theorem transduce_feed (fields : List String) (s : String) :
    transduce State.step ⟨fields, .start⟩ ((field s).toList ++ ['\n']) =
      some ([fields ++ [s]], .initial) := by
  obtain ⟨m, done, read⟩ := transduce_field fields s
  have stepped := done.step_mark fields (.inr rfl)
  rw [if_neg (by decide), String.ofList_toList] at stepped
  exact transduce_append read (transduce_cons stepped rfl)

theorem field_toString (n : Nat) : field (toString n) = toString n := by
  unfold field
  rw [if_neg]
  rw [Bool.not_eq_true, List.any_eq_false]
  intro c member special
  have digit := isDigit_of_mem_toString member
  simp only [Bool.or_eq_true, decide_eq_true_eq] at special
  rcases special with (rfl | rfl) | rfl <;> exact absurd digit (by decide)

theorem transduce_line (declaration : String) (importer : String × Nat) :
    transduce State.step .initial (line declaration importer).toList =
      some ([[declaration, importer.1, toString importer.2]], .initial) := by
  have first := transduce_comma [] declaration
  have second := transduce_comma [declaration] importer.1
  have third := transduce_feed [declaration, importer.1] (toString importer.2)
  have whole := transduce_append (transduce_append first second) third
  rw [field_toString] at whole
  simpa [line, State.initial] using whole

theorem transduce_lines {α : Type} {line : α → String} {record : α → List String} (as : List α)
    (each : ∀ a, transduce State.step .initial (line a).toList = some ([record a], .initial)) :
    transduce State.step .initial (String.join (as.map line)).toList =
      some (as.map record, .initial) := by
  induction as with
  | nil => rfl
  | cons a rest ih => simpa using transduce_append (each a) ih

def record (row : String × String × Nat) : List String := [row.1, row.2.1, toString row.2.2]

theorem mapM_count (rows : List (String × String × Nat)) :
    (rows.map record).mapM (fun record => record[2]?.bind number?) = some (rows.map (·.2.2)) := by
  have each : (fun record : List String => record[2]?.bind number?) ∘ record =
      fun row => pure row.2.2 := by
    funext row
    exact number?_toString row.2.2
  rw [List.mapM_map, each, List.mapM_pure]
  rfl

end Csv

namespace Report

/- What the lines of the table tell: declarations with modules and counts. -/
def rows (r : Report) : List (String × String × Nat) :=
  r.usages.flatMap fun u => u.counts.map fun c => (u.declaration.name, c)

theorem csv_eq (r : Report) :
    r.csv = "declaration,module,count\n" ++
      String.join (r.rows.map fun row => Csv.line row.1 row.2) := by
  unfold csv rows
  rw [List.map_flatMap]
  simp only [List.map_map, Function.comp_def]

theorem sum_rows (r : Report) : (r.rows.map (·.2.2)).sum = r.total := by
  rw [← r.sum_counts]
  unfold rows
  rw [List.map_flatMap]
  simp only [List.map_map, Function.comp_def]

theorem read?_csv (r : Report) :
    Csv.read? r.csv = some (["declaration", "module", "count"] :: r.rows.map Csv.record) := by
  have header : transduce Csv.State.step .initial "declaration,module,count\n".toList =
      some ([["declaration", "module", "count"]], .initial) := by decide
  have lines := Csv.transduce_lines r.rows fun row => Csv.transduce_line row.1 row.2
  have whole := transduce_append header lines
  rw [← String.toList_append, ← csv_eq] at whole
  unfold Csv.read?
  rw [whole]
  rfl

end Report

/-- The table is read as its header and a record for each declaration and each module that imports
it, and the counts in it add up to the number of usages. -/
theorem csv_reads_back (r : Report) :
    ∃ records, Csv.read? r.csv = some (["declaration", "module", "count"] :: records) ∧
      records = r.usages.flatMap (fun u => (distinct u.importers).map fun m =>
        [u.declaration.name, m, toString (u.importers.count m)]) ∧
      ∃ counts, records.mapM (fun record => record[2]?.bind Csv.number?) = some counts ∧
        counts.sum = r.total := by
  refine ⟨r.rows.map Csv.record, r.read?_csv, ?_, r.rows.map (·.2.2), Csv.mapM_count r.rows,
    r.sum_rows⟩
  unfold Report.rows
  rw [List.map_flatMap]
  simp only [Usage.counts_eq, List.map_map]
  rfl

end ImportUsage
