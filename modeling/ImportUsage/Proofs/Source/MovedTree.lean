import Mathlib.Data.List.Basic
import ImportUsage.Proofs.Grammar.Moved
import ImportUsage.Source.Statement

/-! A tree farther down in a text. If all its tokens move by a number of lines, what is read off the
tree keeps its names and moves by the same number of lines. -/

namespace ImportUsage

variable (k n : Nat)

namespace Tree

theorem tokensOf_parts (t : Tree) : tokensOf t.parts = match t with
    | .leaf _ => []
    | t => t.tokens := by
  cases t with
  | leaf t => rfl
  | node c parts => exact (tokensOf_ungroupAll parts []).trans (List.append_nil _)
  | group parts => exact (tokensOf_ungroupAll parts []).trans (List.append_nil _)

mutual

theorem lastToken?_eq_getLast? : ∀ t : Tree, t.lastToken? = t.tokens.getLast?
  | .leaf _ => rfl
  | .node _ parts => lastOf_eq_getLast? parts
  | .group parts => lastOf_eq_getLast? parts

theorem lastOf_eq_getLast? : ∀ ts : List Tree, lastOf ts = (tokensOf ts).getLast?
  | [] => rfl
  | t :: more => by
    rw [lastOf, lastToken?_eq_getLast? t, lastOf_eq_getLast? more, tokensOf, List.getLast?_append]
    cases (tokensOf more).getLast? <;> rfl

end

mutual

theorem ungroup_moved : ∀ (t : Tree) (others : List Tree),
    (t.moved k n).ungroup (others.map (moved k n)) = (t.ungroup others).map (moved k n)
  | .leaf _, _ => rfl
  | .node _ _, _ => rfl
  | .group parts, others => ungroupAll_moved parts others

theorem ungroupAll_moved : ∀ ts others : List Tree,
    ungroupAll (movedAll k n ts) (others.map (moved k n)) = (ungroupAll ts others).map (moved k n)
  | [], _ => rfl
  | t :: more, others => by
    rw [movedAll, ungroupAll, ungroupAll, ungroupAll_moved more, ungroup_moved t]

end

theorem parts_moved (t : Tree) : (t.moved k n).parts = t.parts.map (moved k n) := by
  cases t with
  | leaf t => rfl
  | node c parts => exact ungroupAll_moved k n parts []
  | group parts => exact ungroupAll_moved k n parts []

/-! What does not move. -/

@[simp] theorem isNode_moved (c : Construct) (t : Tree) : (t.moved k n).isNode c = t.isNode c := by
  cases t <;> rfl

@[simp] theorem isLeaf_moved (a : Terminal) (t : Tree) : (t.moved k n).isLeaf a = t.isLeaf a := by
  cases t <;> rfl

theorem map_kept {β : Type} (f : Tree → β) (kept : ∀ t : Tree, f (t.moved k n) = f t)
    (found : Option Tree) : (found.map (moved k n)).map f = found.map f := by
  rw [Option.map_map]
  exact congrArg (Option.map · found) (funext kept)

theorem find?_parts_moved (p : Tree → Bool) (kept : ∀ t : Tree, p (t.moved k n) = p t) (t : Tree) :
    (t.moved k n).parts.find? p = (t.parts.find? p).map (moved k n) := by
  have alike : p ∘ moved k n = p := funext kept
  rw [parts_moved, List.find?_map, alike]

theorem filter_parts_moved (p : Tree → Bool) (kept : ∀ t : Tree, p (t.moved k n) = p t) (t : Tree) :
    (t.moved k n).parts.filter p = (t.parts.filter p).map (moved k n) := by
  have alike : p ∘ moved k n = p := funext kept
  rw [parts_moved, List.filter_map, alike]

theorem part?_moved (c : Construct) (t : Tree) :
    (t.moved k n).part? c = (t.part? c).map (moved k n) :=
  find?_parts_moved k n _ (isNode_moved k n c) t

theorem firstToken?_moved (t : Tree) :
    (t.moved k n).firstToken? = t.firstToken?.map (Token.moved k n) := by
  rw [firstToken?_eq_head?, firstToken?_eq_head?, tokens_moved, List.head?_map]

theorem lastToken?_moved (t : Tree) :
    (t.moved k n).lastToken? = t.lastToken?.map (Token.moved k n) := by
  rw [lastToken?_eq_getLast?, lastToken?_eq_getLast?, tokens_moved, List.getLast?_map]

@[simp] theorem text_moved (t : Tree) : (t.moved k n).text = t.text := by
  rw [text, text, firstToken?_moved, Option.map_map]
  rfl

@[simp] theorem unquoted_moved (t : Tree) : (t.moved k n).unquoted = t.unquoted := by
  rw [unquoted, unquoted, firstToken?_moved]
  cases t.firstToken? <;> rfl

@[simp] theorem covered?_moved (t : Tree) : (t.moved k n).covered? = t.covered? := by
  rw [covered?, covered?, firstToken?_moved, lastToken?_moved]
  cases t.firstToken? with
  | none => rfl
  | some first =>
    cases t.lastToken? with
    | none => rfl
    | some last =>
      have size : (last.moved k n).stop.offset - (first.moved k n).start.offset =
          last.stop.offset - first.start.offset := by
        rw [Token.stop_moved]
        exact Nat.add_sub_add_right _ _ _
      simp only [Option.map_some, Option.bind_eq_bind, Option.bind_some, size]
      rfl

theorem name?_moved (t : Tree) : (t.moved k n).name? = t.name? := by
  rw [name?, name?, find?_parts_moved k n _ (isLeaf_moved k n .name)]
  exact map_kept k n text (text_moved k n) _

theorem source?_moved (t : Tree) : (t.moved k n).source? = t.source? := by
  have string (u : Tree) : ((u.moved k n).parts.find? (·.isLeaf .string)).map unquoted =
      (u.parts.find? (·.isLeaf .string)).map unquoted := by
    rw [find?_parts_moved k n _ (isLeaf_moved k n .string)]
    exact map_kept k n unquoted (unquoted_moved k n) _
  rw [source?, source?, part?_moved]
  cases t.part? .fromClause with
  | none => exact string t
  | some clause => exact string clause

theorem specifier?_moved (t : Tree) : (t.moved k n).specifier? = t.specifier? := by
  rw [specifier?, specifier?, parts_moved, ← List.map_reverse]
  match t.parts.reverse with
  | [] => rfl
  | [name] => simp
  | [name, second] => simp
  | renamed :: mark :: imported :: _ =>
    have word : (mark.moved k n).isLiteral "as" = mark.isLiteral "as" := isLeaf_moved k n _ mark
    simp only [List.map_cons, word, text_moved, unquoted_moved]

theorem importKind_moved (t : Tree) : (t.moved k n).importKind = t.importKind := by
  have main : ((t.moved k n).parts.find? fun u => u.isLeaf .name || u.isNode .importName).map text =
      (t.parts.find? fun u => u.isLeaf .name || u.isNode .importName).map text := by
    rw [find?_parts_moved k n _ (by simp)]
    exact map_kept k n text (text_moved k n) _
  have listed (u : Tree) :
      ((u.moved k n).parts.filter (·.isNode .importSpecifier)).filterMap specifier? =
        (u.parts.filter (·.isNode .importSpecifier)).filterMap specifier? := by
    rw [filter_parts_moved k n _ (isNode_moved k n _), List.filterMap_map]
    congr 1
    funext u
    exact specifier?_moved k n u
  have whole : ((t.moved k n).part? .namespaceImport).bind name? =
      (t.part? .namespaceImport).bind name? := by
    rw [part?_moved]
    cases t.part? .namespaceImport with
    | none => rfl
    | some u => exact name?_moved k n u
  simp only [importKind, main, whole, part?_moved k n .namedImports]
  cases t.part? .namedImports with
  | none => rfl
  | some named => simp only [Option.map_some, listed]

theorem eq_node_of_moved {c : Construct} {t : Tree} {parts : List Tree}
    (same : t.moved k n = .node c parts) : ∃ us, t = .node c us ∧ parts = us.map (moved k n) := by
  cases t with
  | leaf t => cases same
  | node d us =>
    cases same
    exact ⟨us, rfl, movedAll_eq_map k n us⟩
  | group us => cases same

/-- The parts of a pattern in which its names stand. -/
def targets (c : Construct) (parts : List Tree) : List Tree :=
  if c = .pairPattern ∧ parts.length = 3 then parts.drop 2
  else if (c = .assignmentPattern ∨ c = .objectAssignmentPattern) ∧ parts.length = 3 then
    parts.take 1
  else if [Construct.pattern, .destructuringPattern, .objectPattern, .arrayPattern,
    .restPattern].contains c then parts
  else []

theorem targets_subset (c : Construct) (parts : List Tree) : targets c parts ⊆ parts := by
  unfold targets
  split
  · exact List.drop_subset 2 parts
  · split
    · exact List.take_subset 1 parts
    · split
      · exact List.Subset.refl parts
      · exact List.nil_subset parts

theorem targets_map (f : Tree → Tree) (c : Construct) (parts : List Tree) :
    targets c (parts.map f) = (targets c parts).map f := by
  simp only [targets, List.length_map, ← List.map_drop, ← List.map_take, apply_ite (List.map f),
    List.map_nil]

theorem boundNamesOf_eq_flatMap (ts : List Tree) : boundNamesOf ts = ts.flatMap boundNames := by
  induction ts with
  | nil => rfl
  | cons t ts ih => rw [boundNamesOf, ih, List.flatMap_cons]

theorem boundNames_node (c : Construct) (parts : List Tree) :
    (node c parts).boundNames = (targets c parts).flatMap boundNames := by
  rw [boundNames.eq_def]
  split
  case h_1 same => cases same
  case h_2 same => cases same; simp [targets]
  case h_3 same => cases same; simp [targets]
  case h_4 same => cases same; simp [targets]
  case h_5 pair assignment shorthand same =>
    cases same
    have noPair : ¬ (c = .pairPattern ∧ parts.length = 3) := by
      rintro ⟨kind, three⟩
      obtain ⟨a, b, value, rfl⟩ := List.length_eq_three.mp three
      exact pair a b value kind rfl
    have noTarget : ¬ ((c = .assignmentPattern ∨ c = .objectAssignmentPattern) ∧
        parts.length = 3) := by
      rintro ⟨kind | kind, three⟩
      · obtain ⟨target, a, b, rfl⟩ := List.length_eq_three.mp three
        exact assignment target a b kind rfl
      · obtain ⟨target, a, b, rfl⟩ := List.length_eq_three.mp three
        exact shorthand target a b kind rfl
    rw [targets, if_neg noPair, if_neg noTarget, boundNamesOf_eq_flatMap]
    split <;> rfl
  case h_6 same => cases same

mutual

theorem boundNames_moved : ∀ t : Tree, (t.moved k n).boundNames = t.boundNames
  | .leaf _ => rfl
  | .group parts => by
    rw [moved, boundNames, boundNames, boundNamesOf_eq_flatMap, boundNamesOf_eq_flatMap,
      movedAll_eq_map, List.flatMap_map]
    exact List.flatMap_congr (boundNamesOf_moved parts)
  | .node c parts => by
    rw [moved, boundNames_node, boundNames_node, movedAll_eq_map, targets_map, List.flatMap_map]
    exact List.flatMap_congr fun u target =>
      boundNamesOf_moved parts u (targets_subset c parts target)

theorem boundNamesOf_moved : ∀ ts : List Tree, ∀ u ∈ ts, (u.moved k n).boundNames = u.boundNames
  | [] => List.forall_mem_nil _
  | t :: more => List.forall_mem_cons.mpr ⟨boundNames_moved t, boundNamesOf_moved more⟩

end

theorem namespaceName?_moved (t : Tree) : (t.moved k n).namespaceName? = t.namespaceName? := by
  rw [namespaceName?, namespaceName?, part?_moved]
  cases t.part? .moduleBody with
  | none => rfl
  | some body =>
    simp only [Option.map_some, Option.bind_eq_bind, Option.bind_some, parts_moved, List.head?_map]
    cases body.parts.head? with
    | none => rfl
    | some name =>
      simp only [Option.map_some, Option.bind_some, isLeaf_moved, covered?_moved]

theorem exportedNames_moved (t : Tree) : (t.moved k n).exportedNames = t.exportedNames := by
  have names (u : Tree) : ((u.moved k n).parts.filter (·.isNode .exportName)).map unquoted =
      (u.parts.filter (·.isNode .exportName)).map unquoted := by
    rw [filter_parts_moved k n _ (isNode_moved k n _), List.map_map]
    congr 1
    funext u
    exact unquoted_moved k n u
  rw [exportedNames, exportedNames, filter_parts_moved k n _ (isNode_moved k n _),
    List.filterMap_map]
  congr 1
  funext u
  simp only [Function.comp_apply, names]

/-! A tree without a token holds no name and no string. -/

theorem tokens_eq_nil_of_mem_parts {t u : Tree} (empty : t.tokens = []) (member : u ∈ t.parts) :
    u.tokens = [] := by
  have none : tokensOf t.parts = [] := by
    rw [tokensOf_parts]
    split
    · rfl
    · exact empty
  exact List.eq_nil_iff_forall_not_mem.mpr fun k here =>
    List.not_mem_nil (none ▸ mem_tokensOf member here)

theorem find?_isLeaf_eq_none {t : Tree} (empty : t.tokens = []) (a : Terminal) :
    t.parts.find? (·.isLeaf a) = none := by
  rw [List.find?_eq_none]
  intro u member
  have gone := tokens_eq_nil_of_mem_parts empty member
  cases u with
  | leaf k => cases gone
  | node c parts => simp [isLeaf]
  | group parts => simp [isLeaf]

theorem name?_eq_none {t : Tree} (empty : t.tokens = []) : t.name? = none := by
  rw [name?, find?_isLeaf_eq_none empty, Option.map_none]

theorem tokens_eq_nil_of_part? {c : Construct} {t u : Tree} (empty : t.tokens = [])
    (found : t.part? c = some u) : u.tokens = [] :=
  tokens_eq_nil_of_mem_parts empty (List.mem_of_find?_eq_some found)

theorem source?_eq_none {t : Tree} (empty : t.tokens = []) : t.source? = none := by
  rw [source?]
  split
  · rename_i clause found
    rw [find?_isLeaf_eq_none (tokens_eq_nil_of_part? empty found), Option.map_none]
  · rw [find?_isLeaf_eq_none empty, Option.map_none]

theorem namespaceName?_eq_none {t : Tree} (empty : t.tokens = []) : t.namespaceName? = none := by
  rw [namespaceName?]
  cases found : t.part? .moduleBody with
  | none => rfl
  | some body =>
    have inside := tokens_eq_nil_of_part? empty found
    cases first : body.parts.head? with
    | none => simp [first]
    | some name =>
      have gone := tokens_eq_nil_of_mem_parts inside (List.mem_of_mem_head? first)
      simp [first, covered?, firstToken?_eq_head?, gone]

mutual

theorem boundNames_eq_nil : ∀ t : Tree, t.tokens = [] → t.boundNames = []
  | .group parts, empty => by
    rw [boundNames, boundNamesOf_eq_flatMap, List.flatMap_eq_nil_iff]
    exact boundNamesOf_eq_nil parts empty
  | .node c parts, empty => by
    rw [boundNames_node, List.flatMap_eq_nil_iff]
    exact fun u target => boundNamesOf_eq_nil parts empty u (targets_subset c parts target)

theorem boundNamesOf_eq_nil : ∀ ts : List Tree, tokensOf ts = [] → ∀ u ∈ ts, u.boundNames = []
  | [], _ => List.forall_mem_nil _
  | t :: more, empty =>
    have ⟨here, there⟩ := List.append_eq_nil_iff.mp empty
    List.forall_mem_cons.mpr ⟨boundNames_eq_nil t here, boundNamesOf_eq_nil more there⟩

end

/-! What moves. -/

theorem line_moved {t : Tree} (begun : t.tokens ≠ []) : (t.moved k n).line = t.line + n := by
  rw [line, line, firstToken?_moved, firstToken?_eq_head?]
  cases tokens : t.tokens with
  | nil => exact absurd tokens begun
  | cons k more => rfl

theorem tokens_moved_eq_nil {t : Tree} (empty : t.tokens = []) : (t.moved k n).tokens = [] := by
  rw [tokens_moved, empty, List.map_nil]

end Tree

/-- The same statement `n` lines farther down. -/
def Import.shift (n : Nat) (i : Import) : Import := { i with line := i.line + n }

/-- The same declaration `n` lines farther down. -/
def Declaration.shift (n : Nat) (d : Declaration) : Declaration := { d with line := d.line + n }

/-- The same contribution `n` lines farther down. -/
def Contribution.shift (n : Nat) : Contribution → Contribution
  | .imports i => .imports (i.shift n)
  | .declares ds => .declares (ds.map (·.shift n))
  | .exports names => .exports names

namespace Tree

theorem importOf?_moved (t : Tree) : (t.moved k n).importOf? = t.importOf?.map (·.shift n) := by
  by_cases empty : t.tokens = []
  · have nothing {u : Tree} (none : u.tokens = []) : u.importOf? = .none := by
      rw [importOf?]
      split
      · rename_i clause found
        rw [source?_eq_none (tokens_eq_nil_of_part? none found)]
        rfl
      · rw [source?_eq_none none]
        rfl
    rw [nothing empty, nothing (tokens_moved_eq_nil k n empty), Option.map_none]
  · have kind := map_kept k n importKind (importKind_moved k n) (t.part? .importClause)
    rw [importOf?, importOf?, part?_moved, line_moved k n empty, source?_moved]
    cases t.part? .importRequire with
    | none =>
      rw [Option.map_none, part?_moved, kind]
      cases t.source? <;> rfl
    | some clause =>
      simp only [Option.map_some, source?_moved, name?_moved]
      cases clause.source? <;> rfl

theorem headNames_moved (t : Tree) : ((t.moved k n).parts.head?.map boundNames).getD [] =
    (t.parts.head?.map boundNames).getD [] := by
  rw [parts_moved, List.head?_map, map_kept k n boundNames (boundNames_moved k n)]

theorem headNames_eq_nil {t : Tree} (empty : t.tokens = []) :
    (t.parts.head?.map boundNames).getD [] = [] := by
  cases first : t.parts.head? with
  | none => rfl
  | some u =>
    exact boundNames_eq_nil u (tokens_eq_nil_of_mem_parts empty (List.mem_of_mem_head? first))

/-- The variables that the declarators among the parts of a tree bind, on the line of the tree. -/
theorem variables_moved (exported : Bool) (t : Tree) :
    ((t.moved k n).parts.filter (·.isNode .variableDeclarator)).flatMap (fun d =>
        ((d.parts.head?.map boundNames).getD []).map
          (⟨·, .variableBinding, exported, (t.moved k n).line⟩ : String → Declaration)) =
      ((t.parts.filter (·.isNode .variableDeclarator)).flatMap fun d =>
        ((d.parts.head?.map boundNames).getD []).map
          (⟨·, .variableBinding, exported, t.line⟩ : String → Declaration)).map (·.shift n) := by
  rw [filter_parts_moved k n _ (isNode_moved k n _), List.flatMap_map, List.map_flatMap]
  apply List.flatMap_congr
  intro d declarator
  rw [headNames_moved, List.map_map]
  apply List.map_congr_left
  intro name bound
  have begun : t.tokens ≠ [] := by
    intro empty
    have gone := tokens_eq_nil_of_mem_parts empty (List.mem_of_mem_filter declarator)
    rw [headNames_eq_nil gone] at bound
    exact List.not_mem_nil bound
  rw [line_moved k n begun]
  rfl

theorem single_moved {t : Tree} {name : Option String} (kind : Declaration.Kind)
    (exported : Bool) (named : t.tokens = [] → name = none) :
    (name.map (⟨·, kind, exported, (t.moved k n).line⟩ : String → Declaration)).toList =
      (name.map (⟨·, kind, exported, t.line⟩ : String → Declaration)).toList.map (·.shift n) := by
  cases name with
  | none => rfl
  | some name =>
    rw [line_moved k n fun empty => Option.some_ne_none name (named empty)]
    rfl

mutual

theorem declarations_moved (exported : Bool) : ∀ t : Tree,
    (t.moved k n).declarations exported = (t.declarations exported).map (·.shift n)
  | .leaf _ => rfl
  | .group parts => by
    rw [moved, declarations, declarations]
    exact declarationsOf_moved exported parts
  | .node c parts => by
    rw [moved, declarations, declarations]
    split
    · exact declarationsOf_moved exported parts
    · rw [← moved]
      split
      · exact variables_moved k n exported _
      · split
        · rfl
        · rename_i kind _
          simp only [namespaceName?_moved, name?_moved]
          apply single_moved
          intro empty
          rw [namespaceName?_eq_none empty, name?_eq_none empty, ite_self]

theorem declarationsOf_moved (exported : Bool) : ∀ ts : List Tree,
    declarationsOf exported (movedAll k n ts) = (declarationsOf exported ts).map (·.shift n)
  | [] => rfl
  | t :: more => by
    rw [movedAll, declarationsOf, declarationsOf, List.map_append, declarations_moved exported t,
      declarationsOf_moved exported more]

end

theorem valueDeclarations_moved (t : Tree) :
    (t.moved k n).valueDeclarations = t.valueDeclarations.map (·.shift n) := by
  have named (u : Tree) (kind : Declaration.Kind) :
      valueDeclarations.named (u.moved k n) kind =
        (valueDeclarations.named u kind).map (·.shift n) := by
    unfold valueDeclarations.named
    rw [name?_moved]
    exact single_moved k n kind true name?_eq_none
  rw [valueDeclarations, valueDeclarations, parts_moved]
  split
  · rename_i inner' shape
    obtain ⟨u, single, primary⟩ := List.map_eq_singleton_iff.mp shape
    obtain ⟨us, rfl, given⟩ := eq_node_of_moved k n primary
    obtain ⟨inner, rfl, rfl⟩ := List.map_eq_singleton_iff.mp given.symm
    simp only [single]
    cases inner with
    | leaf k => rfl
    | group parts => rfl
    | node c parts =>
      cases c
      case functionExpression => exact named _ _
      case generatorExpression => exact named _ _
      case classExpression => exact named _ _
      all_goals rfl
  · rename_i other
    split
    · rename_i inner shape
      exact absurd (by rw [shape]; rfl) (other (inner.moved k n))
    · rfl

theorem exportContributions_moved (t : Tree) :
    (t.moved k n).exportContributions = t.exportContributions.map (·.shift n) := by
  have word : (t.moved k n).parts.any (isLiteral "default") =
      t.parts.any (isLiteral "default") := by
    rw [parts_moved, List.any_map]
    congr 1
    funext u
    exact isLeaf_moved k n _ u
  simp only [exportContributions, word, part?_moved]
  cases t.part? .declaration with
  | some d =>
    simp only [Option.map_some, declarations_moved]
    rfl
  | none =>
    cases t.part? .expression with
    | some value =>
      simp only [Option.map_none, Option.map_some, valueDeclarations_moved]
      split <;> rfl
    | none =>
      cases t.part? .exportClause with
      | some clause =>
        simp only [Option.map_none, Option.map_some, exportedNames_moved, Option.isSome_map]
        split <;> rfl
      | none => rfl

theorem statementContributions_moved (t : Tree) :
    (t.moved k n).statementContributions = t.statementContributions.map (·.shift n) := by
  unfold statementContributions
  split
  · rename_i inner' shape
    obtain ⟨us, rfl, given⟩ := eq_node_of_moved k n shape
    obtain ⟨inner, rfl, rfl⟩ := List.map_eq_singleton_iff.mp given.symm
    have declared : [Contribution.declares ((inner.moved k n).declarations false)] =
        [Contribution.declares (inner.declarations false)].map (·.shift n) := by
      rw [declarations_moved]
      rfl
    cases inner with
    | leaf k => exact declared
    | group parts => exact declared
    | node c parts =>
      cases c
      case importStatement =>
        change ((moved k n _).importOf?.map Contribution.imports).toList = _
        rw [importOf?_moved]
        simp only
        cases importOf? _ <;> rfl
      case exportStatement => exact exportContributions_moved k n _
      all_goals exact declared
  · rename_i other
    split
    · rename_i inner
      exact absurd rfl (other (inner.moved k n))
    · rfl

theorem contributions_moved (t : Tree) :
    (t.moved k n).contributions = t.contributions.map (·.shift n) := by
  rw [contributions, contributions, parts_moved, List.flatMap_map, List.map_flatMap]
  exact List.flatMap_congr fun u _ => statementContributions_moved k n u

end Tree

end ImportUsage
