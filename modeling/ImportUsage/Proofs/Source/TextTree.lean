import ImportUsage.Proofs.Grammar.Moved
import ImportUsage.Proofs.Source.DeclaringTree
import ImportUsage.Source.Parsed

/-! Texts of one statement to a line, and their trees in the grammar. There is such a tree for every
list of written statements, and whatever tree there is contributes what the lines say, in order. -/

namespace ImportUsage

/-! Lines. -/

/-- A statement on a line of its own. -/
inductive Line
  | imports (i : Import)
  | declares (s : DeclaringStatement)
deriving DecidableEq, Repr

namespace Line

def written : Line → String
  | imports i => i.written
  | declares s => s.written

def lexemes : Line → List Lexeme
  | imports i => i.lexemes
  | declares s => s.lexemes

/-- What the statement stands for in the line with number `n`. -/
def contribution (n : Nat) : Line → Contribution
  | imports i => .imports { i with line := n }
  | declares s => .declares (s.declarations n)

/-- Has the dialect this statement, and can it be written without escapes? -/
def Fits (d : Dialect) : Line → Prop
  | imports i => i.IsPlain
  | declares s => d.hasTypes = true ∧ ∀ n ∈ s.form.names, IsPlainName n

instance (d : Dialect) : (l : Line) → Decidable (l.Fits d)
  | imports i => inferInstanceAs (Decidable i.IsPlain)
  | declares _ => @instDecidableAnd _ _ inferInstance (List.decidableBAll _ _)

/-- The text of a list of lines. -/
def text (ls : List Line) : Text := ls.flatMap fun l => l.written.toList ++ ['\n']

theorem toList_join_written (ls : List Line) :
    (String.join (ls.map fun l => l.written ++ "\n")).toList = text ls := by
  simp [text, List.flatMap_map]

theorem text_cons (l : Line) (ls : List Line) :
    text (l :: ls) = l.written.toList ++ '\n' :: text ls := by
  simp [text]

/-- Exports variables. -/
def exporting (first : String) (more : List String) : Line :=
  .declares ⟨true, .bindings .fixed first more⟩

/-- Imports names as they are. -/
def importing (names : List String) (source : String) : Line :=
  .imports ⟨.named none (names.map (⟨·, none⟩)), source, 0⟩

variable {d : Dialect} {l : Line}

theorem ofLine_written (fits : l.Fits d) : Lexeme.ofLine l.written.toList = some l.lexemes := by
  cases l with
  | imports i => exact Lexeme.ofLine_written i fits
  | declares s => exact Lexeme.ofLine_declaring s fits.2

end Line

/-! Trees of texts. -/

/-- The trees of the lines of a text, where the first line has number `n`. -/
inductive Tree.SpellLines : Nat → List Tree → Text → Prop
  | nil (n : Nat) : SpellLines n [] []
  | line {n : Nat} {t : Tree} {ts : List Tree} {ls : List Lexeme} {line rest : Text}
      (tokens : Lexeme.ofLine line = some ls) (spells : t.Spells n ls)
      (more : SpellLines (n + 1) ts rest) : SpellLines n (t :: ts) (line ++ '\n' :: rest)

namespace Dialect

open Rule Construct

variable (d : Dialect)

/-- A statement that declares names, exported or not. -/
def Declaring (t : Tree) : Prop := ∃ exported, d.Declares exported t

/-- The statement declares names if its tokens could do so: where the grammar has other trees for
them too, such as a function that is an expression, this one comes first. -/
def Prefers (t : Tree) : Prop :=
  ∀ u : Tree, d.Declaring u → Token.spelling u.tokens = Token.spelling t.tokens → d.Declaring t

/-- The trees that the grammar has for a text of one statement to a line. -/
structure IsTreeOf (s : Text) (t : Tree) : Prop where
  derives : ∃ parts, t = .node program parts ∧ d.grammar.Derives (many statement) parts
  lines : Tree.SpellLines 1 t.parts s
  prefers : ∀ u ∈ t.parts, d.Prefers u

end Dialect

/-- Is the text read to a tree that the grammar has for it, if there is one? -/
def TreeReader.Builds [TreeReader] (d : Dialect) (s : Text) : Prop :=
  (∃ t, d.IsTreeOf s t) → ∃ t, TreeReader.read d s = .ok t ∧ d.IsTreeOf s t

/-! What the trees contribute. -/

namespace Line

variable {d : Dialect} {l : Line}

/-- One statement: every tree with the tokens of the line stands for the statement. -/
theorem contributions_of_spells (fits : l.Fits d) {t : Tree} {n : Nat}
    (derives : d.grammar.Derives (.construct .statement) [t]) (prefers : d.Prefers t)
    (spells : t.Spells n l.lexemes) : t.statementContributions = [l.contribution n] := by
  cases l with
  | imports i => exact Dialect.contributions_of_import derives spells
  | declares s =>
    have types := fits.1
    obtain ⟨exported, declares⟩ := prefers s.tree ⟨_, Dialect.declares_tree types s⟩
      (s.spelling_tree.trans spells.tokens.symm)
    obtain rfl := declares.exported_eq types spells.tokens
    exact Dialect.contributions_of_declares types s declares spells

theorem append_newline_inj {a b s t : Text} (left : '\n' ∉ a) (right : '\n' ∉ b)
    (same : a ++ '\n' :: s = b ++ '\n' :: t) : a = b ∧ s = t := by
  induction a generalizing b with
  | nil =>
    cases b with
    | nil => exact ⟨rfl, (List.cons.inj same).2⟩
    | cons c b => exact absurd (List.cons.inj same).1 (List.ne_of_not_mem_cons right)
  | cons c a ih =>
    cases b with
    | nil => exact absurd (List.cons.inj same).1.symm (List.ne_of_not_mem_cons left)
    | cons e b =>
      obtain ⟨rfl, rest⟩ := List.cons.inj same
      obtain ⟨rfl, rfl⟩ := ih (List.not_mem_of_not_mem_cons left)
        (List.not_mem_of_not_mem_cons right) rest
      exact ⟨rfl, rfl⟩

theorem spellLines_nil {n : Nat} {ts : List Tree} (lines : Tree.SpellLines n ts []) : ts = [] := by
  generalize whole : ([] : Text) = s at lines
  cases lines with
  | nil => rfl
  | line _ _ _ => simp at whole

theorem spellLines_cons (fits : l.Fits d) {n : Nat} {ts : List Tree} {s : Text}
    (lines : Tree.SpellLines n ts (l.written.toList ++ '\n' :: s)) :
    ∃ t more, ts = t :: more ∧ t.Spells n l.lexemes ∧ Tree.SpellLines (n + 1) more s := by
  have read := ofLine_written fits
  generalize whole : l.written.toList ++ '\n' :: s = text at lines
  cases lines with
  | nil => simp at whole
  | line tokens spells after =>
    obtain ⟨same, rfl⟩ := append_newline_inj (Lexeme.newline_not_mem _ _ read)
      (Lexeme.newline_not_mem _ _ tokens) whole
    rw [same, tokens] at read
    obtain rfl := Option.some.inj read
    exact ⟨_, _, rfl, spells, after⟩

/-- All statements, by induction on the lines. -/
theorem contributions_of_spellLines (ls : List Line) (fits : ∀ l ∈ ls, l.Fits d) {n : Nat}
    {ts : List Tree} (derives : ∀ t ∈ ts, d.grammar.Derives (.construct .statement) [t])
    (prefers : ∀ t ∈ ts, d.Prefers t) (lines : Tree.SpellLines n ts (text ls)) :
    ts.flatMap Tree.statementContributions = ls.mapIdx fun k l => l.contribution (n + k) := by
  induction ls generalizing n ts with
  | nil => rw [spellLines_nil lines, List.flatMap_nil, List.mapIdx_nil]
  | cons l ls ih =>
    obtain ⟨here, there⟩ := List.forall_mem_cons.mp fits
    rw [text_cons] at lines
    obtain ⟨t, more, rfl, spells, after⟩ := spellLines_cons here lines
    obtain ⟨derivesHere, derivesThere⟩ := List.forall_mem_cons.mp derives
    obtain ⟨prefersHere, prefersThere⟩ := List.forall_mem_cons.mp prefers
    rw [List.flatMap_cons, contributions_of_spells here derivesHere prefersHere spells,
      ih there derivesThere prefersThere after, List.mapIdx_cons]
    simp only [List.singleton_append, Nat.add_zero, Nat.add_assoc, Nat.add_comm 1]

end Line

theorem Dialect.IsTreeOf.contributions {d : Dialect} {ls : List Line}
    (fits : ∀ l ∈ ls, l.Fits d) {t : Tree} (tree : d.IsTreeOf (Line.text ls) t) :
    t.contributions = ls.mapIdx fun k l => l.contribution (k + 1) := by
  obtain ⟨⟨parts, rfl, inside⟩, lines, prefers⟩ := tree
  obtain ⟨us, derives, ungrouped⟩ := Grammar.derives_many (by cases d <;> decide) inside
  have same : (Tree.node .program parts).parts = us :=
    (ungrouped []).trans (List.append_nil us)
  rw [same] at lines prefers
  rw [Tree.contributions, same, Line.contributions_of_spellLines ls fits derives prefers lines]
  simp only [Nat.add_comm 1]

/-! The trees that there are. -/

namespace Token

theorem spelling_moved (k n : Nat) (ks : List Token) :
    spelling (ks.map (Token.moved k n)) = spelling ks := by
  simp only [spelling, List.filter_map, List.map_map]
  rfl

end Token

namespace Tree

theorem Spells.moved {t : Tree} {m : Nat} {ls : List Lexeme} (spells : t.Spells m ls) (k n : Nat) :
    (t.moved k n).Spells (m + n) ls := by
  constructor
  · rw [tokens_moved, Token.spelling_moved, spells.tokens]
  · intro token member
    rw [tokens_moved] at member
    obtain ⟨other, listed, rfl⟩ := List.mem_map.mp member
    exact congrArg (· + n) (spells.line other listed)

theorem ungroupAll_repeated (ts others : List Tree)
    (nodes : ∀ t ∈ ts, ∃ c parts, t = .node c parts) :
    ungroupAll (repeated (ts.map ([·]))) others = ts ++ others := by
  induction ts with
  | nil => rfl
  | cons t ts ih =>
    obtain ⟨⟨c, parts, rfl⟩, there⟩ := List.forall_mem_cons.mp nodes
    cases ts with
    | nil => rfl
    | cons u ts => exact congrArg (_ :: ·) (ih there)

end Tree

theorem Dialect.Declares.moved {d : Dialect} {exported : Bool} {t : Tree}
    (declares : d.Declares exported t) (k n : Nat) : d.Declares exported (t.moved k n) := by
  cases declares with
  | plain derives => exact .plain (derives.moved k n)
  | exported derives => exact .exported (derives.moved k n)
  | space derives ends => exact .space (derives.moved k n) ends

namespace Line

/-- A tree of the statement, in front of the first line. -/
def tree (d : Dialect) : Line → Tree
  | imports i => .node .statement [i.tree d]
  | declares s => s.tree

/-- A tree for each line, where the first has number `n`. -/
def trees (d : Dialect) : Nat → List Line → List Tree
  | _, [] => []
  | n, l :: ls => (l.tree d).moved 0 n :: trees d (n + 1) ls

/-- A tree of the whole text. -/
def program (d : Dialect) (ls : List Line) : Tree :=
  .node .program (Tree.repeated ((trees d 1 ls).map ([·])))

variable {d : Dialect} {l : Line}

theorem derives_tree (fits : l.Fits d) :
    d.grammar.Derives (.construct .statement) [l.tree d] := by
  cases l with
  | imports i => exact Dialect.derives_statement (by decide) (d.derives_import i)
  | declares s => exact Dialect.derives_declaring fits.1 s

theorem tree_spells (d : Dialect) (l : Line) : (l.tree d).Spells 0 l.lexemes := by
  cases l with
  | imports i =>
    have spells := d.import_spells i
    constructor
    · rw [tree, Tree.tokens, Tree.tokensOf_singleton, spells.tokens]
      rfl
    · rw [tree, Tree.tokens, Tree.tokensOf_singleton]
      exact spells.line
  | declares s => exact s.tree_spells

/-- An import has no tree that declares, and the tree of a statement that declares is one. -/
theorem prefers_tree (fits : l.Fits d) (k n : Nat) : d.Prefers ((l.tree d).moved k n) := by
  intro u declaring same
  have spelled := same.trans ((tree_spells d l).moved k n).tokens
  cases l with
  | imports i =>
    obtain ⟨exported, declares⟩ := declaring
    exact absurd spelled (declares.ne_import i)
  | declares s => exact ⟨s.exported, (Dialect.declares_tree fits.1 s).moved k n⟩

theorem forall_mem_trees {p : Tree → Prop} (ls : List Line) (fits : ∀ l ∈ ls, l.Fits d)
    (each : ∀ (l : Line) (n : Nat), l.Fits d → p ((l.tree d).moved 0 n)) (n : Nat) :
    ∀ t ∈ trees d n ls, p t := by
  induction ls generalizing n with
  | nil => simp [trees]
  | cons l ls ih =>
    obtain ⟨here, there⟩ := List.forall_mem_cons.mp fits
    exact List.forall_mem_cons.mpr ⟨each l n here, ih there (n + 1)⟩

theorem spellLines_trees (ls : List Line) (fits : ∀ l ∈ ls, l.Fits d) (n : Nat) :
    Tree.SpellLines n (trees d n ls) (text ls) := by
  induction ls generalizing n with
  | nil => exact .nil n
  | cons l ls ih =>
    obtain ⟨here, there⟩ := List.forall_mem_cons.mp fits
    have spells := (tree_spells d l).moved 0 n
    rw [Nat.zero_add] at spells
    rw [text_cons]
    exact .line (ofLine_written here) spells (ih there (n + 1))

theorem isTreeOf_program (ls : List Line) (fits : ∀ l ∈ ls, l.Fits d) :
    d.IsTreeOf (text ls) (program d ls) := by
  have derives : ∀ t ∈ trees d 1 ls, d.grammar.Derives (.construct .statement) [t] :=
    forall_mem_trees ls fits (fun l n here => (derives_tree here).moved 0 n) 1
  have nodes : ∀ t ∈ trees d 1 ls, ∃ c parts, t = .node c parts := by
    intro t member
    exact ⟨_, Grammar.eq_node_of_derives (by cases d <;> decide) (derives t member)⟩
  have parts : (program d ls).parts = trees d 1 ls :=
    (Tree.ungroupAll_repeated _ [] nodes).trans (List.append_nil _)
  refine ⟨⟨_, rfl, ?_⟩, ?_, ?_⟩
  · apply Grammar.derives_repeated
    intro us member
    obtain ⟨t, listed, rfl⟩ := List.mem_map.mp member
    exact derives t listed
  · rw [parts]
    exact spellLines_trees ls fits 1
  · rw [parts]
    exact forall_mem_trees ls fits (fun l n here => prefers_tree here 0 n) 1

end Line

/-! Readers of such texts. -/

/-- The reader that knows these texts and takes every other for malformed. -/
@[reducible] def TreeReader.knowing (texts : List (List Line)) : TreeReader where
  read d s :=
    (texts.find? fun ls => Line.text ls = s).elim (.error ⟨1, 1⟩) (.ok <| Line.program d ·)

theorem TreeReader.knowing_builds {d : Dialect} (texts : List (List Line))
    (fits : ∀ ls ∈ texts, ∀ l ∈ ls, l.Fits d) {ls : List Line} (known : ls ∈ texts) :
    letI := knowing texts
    Builds d (Line.text ls) := by
  intro _
  have found : (texts.find? fun other => Line.text other = Line.text ls).isSome := by
    rw [List.find?_isSome]
    exact ⟨ls, known, by simp⟩
  obtain ⟨other, first⟩ := Option.isSome_iff_exists.mp found
  have same : Line.text other = Line.text ls := by simpa using List.find?_some first
  refine ⟨Line.program d other, ?_, same ▸ Line.isTreeOf_program other (fits other ?_)⟩
  · change (texts.find? fun other => Line.text other = Line.text ls).elim _ _ = _
    rw [first, Option.elim_some]
  · exact List.mem_of_find?_eq_some first

/-- What is read of a list of lines, if their tree is built. -/
theorem parse_lines [TreeReader] {d : Dialect} (ls : List Line) (fits : ∀ l ∈ ls, l.Fits d)
    (builds : TreeReader.Builds d (Line.text ls)) :
    parse d (Line.text ls) =
      .ok (.ofContributions (ls.mapIdx fun k l => l.contribution (k + 1))) := by
  obtain ⟨t, read, tree⟩ := builds ⟨_, Line.isTreeOf_program ls fits⟩
  rw [parse, read, Except.map, tree.contributions fits]

end ImportUsage
