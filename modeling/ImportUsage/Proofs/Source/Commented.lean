import Mathlib.Data.List.Basic
import ImportUsage.Proofs.Automaton.Moved
import ImportUsage.Proofs.Lexical.Gap
import ImportUsage.Proofs.Source.MovedTree
import ImportUsage.Source.File

/-! Text behind a comment. The comment is a gap, so the first statement begins at the same text,
farther down. The automaton runs from there as it would without the comment, to a tree that is moved
alike, and so is what is read off the tree. -/

namespace ImportUsage

/-- A text with a comment on the lines in front of it. -/
def commented (t s : Text) : Text := '/' :: '*' :: (t ++ '*' :: '/' :: '\n' :: s)

theorem lineFeeds_commented (t s : Text) :
    lineFeeds (commented t s) = lineFeeds s + (1 + lineFeeds t) := by
  have parts : lineFeeds (commented t s) = lineFeeds t + (lineFeeds s + 1) := by
    simp [commented, lineFeeds]
  omega

theorem body_suffix (s : Text) : body s <:+ s := by
  have marked : skipMark s <:+ s := by
    cases s with
    | nil => exact List.suffix_refl []
    | cons c s =>
      rw [skipMark]
      split
      · exact List.suffix_cons c s
      · exact List.suffix_refl _
  have gap := (skip_suffix (skipMark s)).trans marked
  unfold body
  split
  · rename_i more begins
    rw [begins] at gap
    have line : skip (more.dropWhile fun c => c ≠ '\n' && !isNull c) <:+ more :=
      (skip_suffix _).trans (List.dropWhile_suffix _)
    exact (line.trans (List.suffix_append ['#', '!'] more)).trans gap
  · exact gap

theorem body_commented (t s : Text) (inside : Commentable t) (unmarked : skipMark s = s) :
    body (commented t s) = body s := by
  have slash : skipMark (commented t s) = commented t s := by
    simp [commented, skipMark]
  have same : skip (commented t s) = skip s := by
    rw [commented, skip_block t _ inside, skip_space '\n' s (by decide)]
  rw [body, body, slash, same, unmarked]

theorem Place.advance_length (front rest : Text) (offset line : Nat) :
    Place.advance front.length ⟨offset, line, front ++ rest⟩ =
      ⟨offset + front.length, line + lineFeeds front, rest⟩ := by
  induction front generalizing offset line with
  | nil => rfl
  | cons c front ih =>
    rw [List.length_cons, List.cons_append, advance, ih]
    congr 1
    · omega
    · rw [lineFeeds, lineFeeds, List.count_cons]
      by_cases feed : c = '\n'
      · rw [if_pos feed, if_pos (by simp [feed])]
        omega
      · rw [if_neg feed, if_neg (by simp [feed])]
        omega

theorem Place.ofBody_eq {front s : Text} (split : front ++ body s = s) :
    ofBody s = ⟨front.length, 1 + lineFeeds front, body s⟩ := by
  have size : s.length - (body s).length = front.length := by
    have total : s.length = front.length + (body s).length := by
      rw [← List.length_append, split]
    omega
  have begins : start s = ⟨0, 1, front ++ body s⟩ := by rw [split]; rfl
  rw [ofBody, size, begins, advance_length, Nat.zero_add]

/-- The body of a text begins farther down behind a comment. -/
theorem Place.ofBody_commented (t s : Text) (inside : Commentable t) (unmarked : skipMark s = s) :
    ofBody (commented t s) = (ofBody s).moved (t.length + 5) (1 + lineFeeds t) := by
  obtain ⟨front, split⟩ := body_suffix s
  have behind : ('/' :: '*' :: (t ++ '*' :: '/' :: '\n' :: front)) ++ body (commented t s) =
      commented t s := by
    rw [body_commented t s inside unmarked, commented]
    simp [split]
  rw [ofBody_eq behind, ofBody_eq split, body_commented t s inside unmarked, moved]
  congr 1
  · simp
    omega
  · have lines := lineFeeds_commented t front
    rw [commented] at lines
    dsimp only
    omega

theorem Machine.toOption_readFrom_moved (m : Machine) (k n : Nat) (p : Place) :
    (m.readFrom (p.moved k n)).toOption = (m.readFrom p).toOption.map (Tree.moved k n) := by
  have rest : (p.moved k n).rest = p.rest := rfl
  rw [readFrom, readFrom, rest]
  split
  · rfl
  · split
    · rfl
    · rw [run_moved]
      cases m.run p <;> rfl

theorem toOption_parse (d : Dialect) (s : Text) :
    (parse d s).toOption = (d.machine.readFrom (.ofBody s)).toOption.map
      fun tree => .ofContributions tree.contributions := by
  change (Except.map _ ((d.machine.readFrom (.ofBody s)).mapError _)).toOption = _
  cases d.machine.readFrom (.ofBody s) <;> rfl

/-- The outline of the same text `n` lines farther down. -/
def Parsed.shift (n : Nat) (p : Parsed) : Parsed where
  declarations := p.declarations.map (·.shift n)
  imports := p.imports.map (·.shift n)

theorem importsIn_shift (n : Nat) (cs : List Contribution) :
    importsIn (cs.map (·.shift n)) = (importsIn cs).map (·.shift n) := by
  rw [importsIn, importsIn, List.filterMap_map, List.map_filterMap]
  congr 1
  funext c
  cases c <;> rfl

theorem declarationsIn_shift (n : Nat) (cs : List Contribution) :
    declarationsIn (cs.map (·.shift n)) = (declarationsIn cs).map (·.shift n) := by
  rw [declarationsIn, declarationsIn, List.flatMap_map, List.map_flatMap]
  congr 1
  funext c
  cases c <;> rfl

theorem exportsIn_shift (n : Nat) (cs : List Contribution) :
    exportsIn (cs.map (·.shift n)) = exportsIn cs := by
  rw [exportsIn, exportsIn, List.flatMap_map]
  congr 1
  funext c
  cases c <;> rfl

theorem exportLocal_shift (n : Nat) (ds : List Declaration) (pair : String × String) :
    exportLocal (ds.map (·.shift n)) pair = (exportLocal ds pair).map (·.shift n) := by
  have named : (ds.map (·.shift n)).find? (·.name = pair.1) =
      (ds.find? (·.name = pair.1)).map (·.shift n) := by
    rw [List.find?_map]
    rfl
  rw [exportLocal, exportLocal, named]
  cases ds.find? (·.name = pair.1) with
  | none => rfl
  | some d =>
    by_cases own : pair.1 = pair.2
    · simp only [Option.map_some, own, if_true, List.map_map]
      apply List.map_congr_left
      intro d _
      by_cases meant : d.name = pair.2
      · simp [Declaration.shift, meant]
      · simp [Declaration.shift, meant]
    · simp [own, Declaration.shift]

theorem exportLocals_shift (n : Nat) (ds : List Declaration) (pairs : List (String × String)) :
    exportLocals (ds.map (·.shift n)) pairs = (exportLocals ds pairs).map (·.shift n) := by
  unfold exportLocals
  induction pairs generalizing ds with
  | nil => rfl
  | cons pair pairs ih => rw [List.foldl_cons, List.foldl_cons, exportLocal_shift, ih]

theorem ofContributions_shift (n : Nat) (cs : List Contribution) :
    Parsed.ofContributions (cs.map (·.shift n)) = (Parsed.ofContributions cs).shift n := by
  simp only [Parsed.ofContributions, Parsed.shift, importsIn_shift, declarationsIn_shift,
    exportsIn_shift, exportLocals_shift]

theorem toOption_parse_commented (d : Dialect) (t s : Text) (inside : Commentable t)
    (unmarked : skipMark s = s) :
    (parse d (commented t s)).toOption = (parse d s).toOption.map (·.shift (1 + lineFeeds t)) := by
  rw [toOption_parse, toOption_parse, Place.ofBody_commented t s inside unmarked,
    Machine.toOption_readFrom_moved, Option.map_map, Option.map_map]
  congr 1
  funext tree
  simp only [Function.comp_apply, Tree.contributions_moved, ofContributions_shift]

theorem commentable_of_chars {t : Text} (unclosed : ¬ "*/".toList <:+: t) (filled : '\x00' ∉ t) :
    Commentable t := by
  refine ⟨unclosed, fun c member => ?_⟩
  have other : c ≠ '\x00' := fun same => filled (same ▸ member)
  simpa [isNull, ← Char.toNat_inj] using other

theorem skipMark_of_head {s : Text} (unmarked : s.head? ≠ some '\ufeff') : skipMark s = s := by
  cases s with
  | nil => rfl
  | cons c s =>
    rw [List.head?_cons, ne_eq, Option.some.injEq, ← Char.toNat_inj] at unmarked
    exact if_neg unmarked

theorem toList_behind_comment (t s : String) :
    ("/*" ++ t ++ "*/\n" ++ s).toList = commented t.toList s.toList := by
  simp [commented]

/-- Text that is commented out is not counted: a comment in front leaves the outline as it is but
for the lines, and a text that leaves the grammar still does. -/
theorem parseText_behind_comment (language : Language) (path t s : String)
    (unclosed : ¬ "*/".toList <:+: t.toList) (filled : '\x00' ∉ t.toList)
    (unmarked : s.toList.head? ≠ some '\ufeff') :
    (∀ parsed, language.parseText path s = .ok parsed →
      language.parseText path ("/*" ++ t ++ "*/\n" ++ s) =
        .ok (parsed.shift (1 + lineFeeds t.toList))) ∧
    ∀ e, language.parseText path s = .error e →
      (∃ place, e = .malformed path place) ∧
      ∃ place, language.parseText path ("/*" ++ t ++ "*/\n" ++ s) =
        .error (.malformed path place) := by
  have behind := toOption_parse_commented language.dialect t.toList s.toList
    (commentable_of_chars unclosed filled) (skipMark_of_head unmarked)
  unfold Language.parseText
  rw [toList_behind_comment]
  generalize parse language.dialect (commented t.toList s.toList) = later at behind ⊢
  generalize parse language.dialect s.toList = outcome at behind ⊢
  cases outcome with
  | ok p =>
    cases later with
    | error place => cases behind
    | ok q =>
      cases behind
      constructor
      · intro parsed read
        cases read
        rfl
      · intro e refused
        cases refused
  | error place =>
    cases later with
    | ok q => cases behind
    | error place' =>
      constructor
      · intro parsed read
        cases read
      · intro e refused
        cases refused
        exact ⟨⟨place, rfl⟩, place', rfl⟩

/- Statements and marks of comments that do not count, and none of the lines ends the comment. -/
def struckOut : String :=
  "* import \x7b x \x7d from 'y';\n// export const z = 0; /* \" ' * /\n*"

theorem parseText_behind_struckOut :
    (∀ parsed, Language.tsx.parseText "view.tsx"
        "import \x7b a \x7d from './lib';\nexport const b = 0;\n" = .ok parsed →
      Language.tsx.parseText "view.tsx"
        ("/*" ++ struckOut ++ "*/\n" ++ "import \x7b a \x7d from './lib';\nexport const b = 0;\n") =
          .ok (parsed.shift 3)) ∧
    ∀ e, Language.tsx.parseText "view.tsx" "import \x7b a \x7d from;\n" = .error e →
      ∃ place, Language.tsx.parseText "view.tsx"
          ("/*" ++ struckOut ++ "*/\n" ++ "import \x7b a \x7d from;\n") =
        .error (.malformed "view.tsx" place) := by
  have unclosed : ¬ "*/".toList <:+: struckOut.toList := by decide +kernel
  have filled : '\x00' ∉ struckOut.toList := by decide +kernel
  constructor
  · exact (parseText_behind_comment .tsx "view.tsx" struckOut _ unclosed filled (by decide)).1
  · intro e refused
    exact ((parseText_behind_comment .tsx "view.tsx" struckOut _ unclosed filled (by decide)).2 e
      refused).2

end ImportUsage
