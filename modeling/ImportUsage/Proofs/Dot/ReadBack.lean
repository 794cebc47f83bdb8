import ImportUsage.Graph.Dot
import ImportUsage.Proofs.Dot.Reader
import ImportUsage.Proofs.Graph.Index

/-! The DOT text of a graph read back. A name that ends with a backslash cannot be read, since the
backslash escapes the quote after it; all other names are. -/

namespace ImportUsage.Dot

def escaped (name : List Char) : List Char :=
  name.flatMap fun c => if c = '"' then ['\\', '"'] else [c]

theorem toList_quote (name : String) :
    (quote name).toList = '"' :: (escaped name.toList ++ ['"']) := by
  simp [quote, escaped]

/-- The reader is in quotes and has read these characters, the last one first. -/
inductive Mode.Holds : Mode → List Char → Prop
  | inQuotes (read : List Char) : Holds (.inQuotes read) read
  | afterBackslash (read : List Char) : Holds (.afterBackslash read) ('\\' :: read)

theorem Mode.Holds.transduce_char {m : Mode} {read : List Char} (holds : m.Holds read) (c : Char) :
    ∃ next : Mode, next.Holds (c :: read) ∧
      transduce Mode.step m (if c = '"' then ['\\', '"'] else [c]) = some ([], next) := by
  by_cases quote : c = '"'
  · subst quote
    cases holds with
    | inQuotes => exact ⟨.inQuotes ('"' :: read), .inQuotes _, rfl⟩
    | afterBackslash taken => exact ⟨.inQuotes ('"' :: '\\' :: taken), .inQuotes _, rfl⟩
  rw [if_neg quote]
  by_cases backslash : c = '\\'
  · subst backslash
    cases holds with
    | inQuotes => exact ⟨.afterBackslash read, .afterBackslash _, rfl⟩
    | afterBackslash taken => exact ⟨.afterBackslash ('\\' :: taken), .afterBackslash _, rfl⟩
  · cases holds with
    | inQuotes =>
      exact ⟨.inQuotes (c :: read), .inQuotes _, by simp [transduce, step, quote, backslash]⟩
    | afterBackslash taken =>
      exact ⟨.inQuotes (c :: '\\' :: taken), .inQuotes _,
        by simp [transduce, step, quote, backslash]⟩

theorem Mode.Holds.transduce_escaped {m : Mode} {read : List Char} (holds : m.Holds read)
    (name : List Char) :
    ∃ next : Mode, next.Holds (name.reverse ++ read) ∧
      transduce Mode.step m (escaped name) = some ([], next) := by
  induction name generalizing m read with
  | nil => exact ⟨m, holds, rfl⟩
  | cons c rest ih =>
    obtain ⟨middle, holds_c, first⟩ := holds.transduce_char c
    obtain ⟨next, holds_rest, more⟩ := ih holds_c
    exact ⟨next, by simpa using holds_rest, transduce_append first more⟩

/-- Only where no backslash stands before it does the quote after a name close it. -/
theorem Mode.Holds.step_quote {m : Mode} {name : String} (holds : m.Holds name.toList.reverse)
    (readable : ¬EndsWithBackslash name) : m.step '"' = some ([.quoted name], .between) := by
  generalize reversed : name.toList.reverse = read at holds
  cases holds with
  | inQuotes => simp [step, ← reversed]
  | afterBackslash taken =>
    have last := congrArg List.head? reversed
    rw [List.head?_reverse] at last
    exact absurd last readable

def Scans (text : String) (tokens : List Token) : Prop :=
  transduce Mode.step .between text.toList = some (tokens, .between)

instance (text : String) (tokens : List Token) : Decidable (Scans text tokens) :=
  inferInstanceAs (Decidable (_ = _))

theorem Scans.append {s t : String} {ts us : List Token} (first : Scans s ts) (second : Scans t us) :
    Scans (s ++ t) (ts ++ us) := by
  rw [Scans, String.toList_append]
  exact transduce_append first second

theorem scans_quote {name : String} (readable : ¬EndsWithBackslash name) :
    Scans (quote name) [.quoted name] := by
  have opening : Mode.between.step '"' = some ([], .inQuotes []) := rfl
  obtain ⟨next, holds, inside⟩ := (Mode.Holds.inQuotes []).transduce_escaped name.toList
  rw [List.append_nil] at holds
  have closing : transduce Mode.step next ['"'] = some ([.quoted name], .between) :=
    transduce_cons (holds.step_quote readable) rfl
  rw [Scans, toList_quote]
  exact transduce_cons opening (transduce_append inside closing)

theorem readFrom_append {s t : String} {p q r : Place} {found more : List Placed}
    (first : readFrom p s = some (found, q)) (second : readFrom q t = some (more, r)) :
    readFrom p (s ++ t) = some (found ++ more, r) := by
  simp only [readFrom, Option.bind_eq_bind, Option.bind_eq_some_iff] at first second
  obtain ⟨⟨ts, mode⟩, scanned, parsed⟩ := first
  obtain ⟨⟨us, ended⟩, scanned_more, parsed_more⟩ := second
  split_ifs at parsed parsed_more with here there
  dsimp only at here there
  subst here there
  have both := Scans.append scanned scanned_more
  simp only [readFrom, show transduce _ _ _ = _ from both]
  exact transduce_append parsed parsed_more

theorem readFrom_join {α : Type} {line : α → String} {found : α → Placed} {p : Place} {as : List α}
    (each : ∀ a ∈ as, readFrom p (line a) = some ([found a], p)) :
    readFrom p (String.join (as.map line)) = some (as.map found, p) := by
  induction as with
  | nil => rfl
  | cons a rest ih =>
    have first := each a List.mem_cons_self
    have others := ih fun b member => each b (List.mem_cons_of_mem a member)
    simpa using readFrom_append first others

/-- A token that may stand inside a statement. -/
def Token.Waits (t : Token) : Prop := t ∉ [.mark ';', .mark '{', .mark '}']

theorem transduce_waiting (clusters : List String) (pending ts : List Token)
    (waits : ∀ t ∈ ts, t.Waits) :
    transduce Place.step (.inside clusters pending) ts =
      some ([], .inside clusters (pending ++ ts)) := by
  induction ts generalizing pending with
  | nil => simp [transduce]
  | cons t rest ih =>
    have alone := waits t List.mem_cons_self
    have others := ih (pending ++ [t]) fun u member => waits u (List.mem_cons_of_mem t member)
    simp only [Token.Waits, List.mem_cons, List.not_mem_nil, or_false, not_or] at alone
    have first : (Place.inside clusters pending).step t =
        some ([], .inside clusters (pending ++ [t])) := by
      simp [Place.step, alone]
    simpa using transduce_cons first others

theorem readFrom_statement {line : String} (ts : List Token) {s : Statement}
    (scanned : Scans line (ts ++ [.mark ';'])) (waits : ∀ t ∈ ts, t.Waits)
    (stated : statement? ts = some s) (clusters : List String) :
    readFrom (.inside clusters []) line = some ([⟨clusters, s⟩], .inside clusters []) := by
  have ended : (Place.inside clusters ts).step (.mark ';') =
      some ([⟨clusters, s⟩], .inside clusters []) := by
    simp [Place.step, stated]
  have last : transduce Place.step (.inside clusters ts) [.mark ';'] =
      some ([⟨clusters, s⟩], .inside clusters []) := transduce_cons ended rfl
  have parsed := transduce_append (transduce_waiting clusters [] ts waits) last
  simp only [readFrom, show transduce _ _ _ = _ from scanned]
  exact parsed

theorem statement?_node (id : String) {ts : List Token} {attributes : List (String × String)}
    (listed : attributeList? (.mark '[' :: ts) = some attributes) :
    statement? (.quoted id :: .mark '[' :: ts) = some (.node id attributes) := by
  simp [statement?, Token.id?, listed]

theorem statement?_edge (source target : String) {ts : List Token}
    {attributes : List (String × String)} (listed : attributeList? ts = some attributes) :
    statement? (.quoted source :: .arrow :: .quoted target :: ts) =
      some (.edge source target attributes) := by
  simp [statement?, Token.id?, listed]

theorem readFrom_importerLine {name : String} (readable : ¬EndsWithBackslash name)
    (clusters : List String) :
    readFrom (.inside clusters []) (importerLine name) =
      some ([⟨clusters, .node name [("shape", "box")]⟩], .inside clusters []) := by
  have indent : Scans "      " [] := by decide
  have box : Scans " [shape=box];\n"
    [.mark '[', .word "shape", .mark '=', .word "box", .mark ']', .mark ';'] := by decide
  exact readFrom_statement
    [.quoted name, .mark '[', .word "shape", .mark '=', .word "box", .mark ']']
    ((indent.append (scans_quote readable)).append box) (by simp [Token.Waits])
    (statement?_node name (by decide)) clusters

theorem readFrom_declarationLine {name : String} (readable : ¬EndsWithBackslash name)
    (clusters : List String) :
    readFrom (.inside clusters []) (declarationLine name) =
      some ([⟨clusters, .node name [("shape", "box"), ("style", "filled"), ("color", "orange")]⟩],
        .inside clusters []) := by
  have indent : Scans "    " [] := by decide
  have box : Scans " [shape=box, style=filled, color="
    [.mark '[', .word "shape", .mark '=', .word "box", .mark ',', .word "style", .mark '=',
      .word "filled", .mark ',', .word "color", .mark '='] := by decide
  have color : Scans (declarationColor ++ "];\n") [.word "orange", .mark ']', .mark ';'] := by decide
  have whole := ((indent.append (scans_quote readable)).append box).append color
  rw [← String.append_assoc] at whole
  exact readFrom_statement
    [.quoted name, .mark '[', .word "shape", .mark '=', .word "box", .mark ',', .word "style",
      .mark '=', .word "filled", .mark ',', .word "color", .mark '=', .word "orange", .mark ']']
    whole (by simp [Token.Waits]) (statement?_node name (by decide)) clusters

theorem readFrom_edgeLine {e : Graph.Edge} (importer : ¬EndsWithBackslash e.importer)
    (declaration : ¬EndsWithBackslash e.declaration) (color : ¬EndsWithBackslash e.color)
    (clusters : List String) :
    readFrom (.inside clusters []) (edgeLine e) =
      some ([⟨clusters, .edge e.importer e.declaration [("color", e.color)]⟩],
        .inside clusters []) := by
  have indent : Scans "  " [] := by decide
  have arrow : Scans " -> " [.arrow] := by decide
  have colored : Scans " [color=" [.mark '[', .word "color", .mark '='] := by decide
  have ending : Scans "];\n" [.mark ']', .mark ';'] := by decide
  have whole := (((((indent.append (scans_quote importer)).append arrow).append
    (scans_quote declaration)).append colored).append (scans_quote color)).append ending
  have word : (Token.word "color").id? = some "color" := by decide
  have listed : attributeList?
      [.mark '[', .word "color", .mark '=', .quoted e.color, .mark ']'] = some [("color", e.color)] := by
    simp only [attributeList?, attributes?, word]
    rfl
  exact readFrom_statement
    [.quoted e.importer, .arrow, .quoted e.declaration, .mark '[', .word "color", .mark '=',
      .quoted e.color, .mark ']'] whole (by simp [Token.Waits])
    (statement?_edge e.importer e.declaration listed) clusters

def scaffold : List Placed :=
  [⟨[], .attribute "compound" "true"⟩, ⟨[], .attribute "splines" "polyline"⟩,
    ⟨["cluster_0"], .attribute "label" "events"⟩,
    ⟨["cluster", "cluster_0"], .attribute "label" "modules"⟩]

def nodeStatements (g : Graph) : List Placed :=
  scaffold ++ g.importers.map (⟨["cluster", "cluster_0"], .node · [("shape", "box")]⟩) ++
    g.declarations.map
      (⟨["cluster_0"], .node · [("shape", "box"), ("style", "filled"), ("color", "orange")]⟩)

/-- The statements that the text of a graph is to have. -/
def statementsOf (g : Graph) : List Placed :=
  nodeStatements g ++
    g.edges.map fun e => ⟨[], .edge e.importer e.declaration [("color", e.color)]⟩

theorem read?_dot {g : Graph} (importers : ∀ name ∈ g.importers, ¬EndsWithBackslash name)
    (declarations : ∀ name ∈ g.declarations, ¬EndsWithBackslash name)
    (edges : ∀ e ∈ g.edges, ¬EndsWithBackslash e.importer ∧ ¬EndsWithBackslash e.declaration ∧
      ¬EndsWithBackslash e.color) :
    read? g.dot = some (statementsOf g) := by
  have opening : readFrom (.before [])
      ("digraph " ++ quote "G" ++ " \x7b\n" ++ "  compound=true;\n" ++ "  splines=polyline;\n" ++
        "  subgraph " ++ quote "cluster_0" ++ " \x7b\n" ++ "    label=" ++ quote "events" ++ ";\n" ++
        "    subgraph " ++ quote "cluster" ++ " \x7b\n" ++ "      label=" ++ quote "modules" ++ ";\n") =
      some (scaffold, .inside ["cluster", "cluster_0"] []) := by
    rw [readFrom]
    simp only [String.toList_append]
    decide +kernel
  have modules : readFrom (.inside ["cluster", "cluster_0"] [])
      (String.join (g.importers.map importerLine)) = some (_, .inside ["cluster", "cluster_0"] []) :=
    readFrom_join fun name member => readFrom_importerLine (importers name member) _
  have events : readFrom (.inside ["cluster_0"] [])
      (String.join (g.declarations.map declarationLine)) = some (_, .inside ["cluster_0"] []) :=
    readFrom_join fun name member => readFrom_declarationLine (declarations name member) _
  have usages : readFrom (.inside [] [])
      (String.join (g.edges.map edgeLine)) = some (_, .inside [] []) :=
    readFrom_join fun e member =>
      readFrom_edgeLine (edges e member).1 (edges e member).2.1 (edges e member).2.2 _
  have inner : readFrom (.inside ["cluster", "cluster_0"] []) "    \x7d\n" =
    some ([], .inside ["cluster_0"] []) := by decide
  have outer : readFrom (.inside ["cluster_0"] []) "  \x7d\n" = some ([], .inside [] []) := by decide
  have closing : readFrom (.inside [] []) "\x7d\n" = some ([], .after) := by decide
  have whole := readFrom_append (readFrom_append (readFrom_append (readFrom_append (readFrom_append
    (readFrom_append opening modules) inner) events) outer) usages) closing
  simp only [List.append_nil] at whole
  have text : readFrom (.before []) g.dot = some (statementsOf g, .after) := whole
  rw [read?, text]
  rfl

theorem nodesIn_importers (g : Graph) : nodesIn "cluster" (statementsOf g) = g.importers := by
  simp [nodesIn, statementsOf, nodeStatements, scaffold, List.filterMap_map]

theorem nodesIn_declarations (g : Graph) : nodesIn "cluster_0" (statementsOf g) = g.declarations := by
  simp [nodesIn, statementsOf, nodeStatements, scaffold, List.filterMap_map]

theorem edgesIn_edges (g : Graph) :
    edgesIn (statementsOf g) = g.edges.map fun e => (e.importer, e.declaration, some e.color) := by
  simp [edgesIn, statementsOf, nodeStatements, scaffold, List.filterMap_map]

theorem isEdge_nodeStatements (g : Graph) : ∀ p ∈ nodeStatements g, p.isEdge = false := by
  intro p member
  simp only [nodeStatements, scaffold, List.mem_append, List.mem_map, List.mem_cons,
    List.not_mem_nil, or_false] at member
  rcases member with ((rfl | rfl | rfl | rfl) | ⟨_, _, rfl⟩) | ⟨_, _, rfl⟩ <;> rfl

theorem edgesLast_statementsOf (g : Graph) : EdgesLast (statementsOf g) := by
  have plain := isEdge_nodeStatements g
  refine List.pairwise_append.mpr ⟨?_, ?_, ?_⟩
  · refine List.pairwise_of_forall_mem_list fun p here q _ edge => ?_
    rw [plain p here] at edge
    contradiction
  · refine List.pairwise_of_forall_mem_list fun p _ q there _ => ?_
    obtain ⟨e, _, rfl⟩ := List.mem_map.mp there
    rfl
  · intro p here q _ edge
    rw [plain p here] at edge
    contradiction

theorem edgeColor_readable (name : String) : ¬EndsWithBackslash (edgeColor name) := by
  have digit : ∀ n, hexDigit n ≠ '\\' := by
    have all : ∀ k < 16, Nat.digitChar k ≠ '\\' := by decide
    exact fun n => all (n % 16) (Nat.mod_lt n (by decide))
  intro last
  have member := List.mem_of_getLast? last
  simp [edgeColor, hexByte, (digit _).symm] at member

theorem edges_readable {g : Graph} (sound : g.Sound)
    (readable : ∀ node ∈ g.nodes, ¬EndsWithBackslash node.name) (e : Graph.Edge)
    (member : e ∈ g.edges) :
    ¬EndsWithBackslash e.importer ∧ ¬EndsWithBackslash e.declaration ∧
      ¬EndsWithBackslash e.color := by
  obtain ⟨imported, declared, colored⟩ := sound.of_mem_edges member
  rw [colored]
  exact ⟨readable (.importer e.importer) imported, readable (.declaration e.declaration) declared,
    edgeColor_readable e.importer⟩

theorem read?_dot_of_readable {g : Graph} (sound : g.Sound)
    (readable : ∀ node ∈ g.nodes, ¬EndsWithBackslash node.name) :
    read? g.dot = some (statementsOf g) :=
  read?_dot (fun name member => readable (.importer name) ((g.mem_importers name).mp member))
    (fun name member => readable (.declaration name) ((g.mem_declarations name).mp member))
    (edges_readable sound readable)

/-- The text of a graph can be read back if and only if no name in it ends with a backslash. -/
theorem dot_reads_back_iff {g : Graph} (built : g.Built) :
    (∃ found, read? g.dot = some found ∧ nodesIn "cluster" found = g.importers ∧
      nodesIn "cluster_0" found = g.declarations ∧
      edgesIn found = g.edges.map (fun e => (e.importer, e.declaration, some e.color)) ∧
      EdgesLast found) ↔
    ∀ node ∈ g.nodes, ¬EndsWithBackslash node.name := by
  constructor
  · rintro ⟨found, read, importers, declarations, _, _⟩ node member
    cases node with
    | declaration name =>
      have known := (g.mem_declarations name).mpr member
      rw [← declarations] at known
      exact nodesIn_clean read known
    | importer name =>
      have known := (g.mem_importers name).mpr member
      rw [← importers] at known
      exact nodesIn_clean read known
  · intro readable
    exact ⟨statementsOf g, read?_dot_of_readable built.sound readable,
      nodesIn_importers g, nodesIn_declarations g, edgesIn_edges g, edgesLast_statementsOf g⟩

/- Names that hold quotes, backslashes, braces and line ends, or look like statements. -/
def trickyUsages : List (String × String) :=
  [("say \"hi\"", "a.ts"), ("\\\"; \x7d", "a.ts"), ("say \"hi\"", "x\" -> \"y\\\n.ts"), ("a.ts", "a.ts")]

theorem dot_reads_back_tricky :
    ∃ found, read? (Graph.ofIndex (.ofUsages trickyUsages)).dot = some found ∧
      nodesIn "cluster" found = ["a.ts", "x\" -> \"y\\\n.ts"] ∧
      nodesIn "cluster_0" found = ["say \"hi\"", "\\\"; \x7d", "a.ts"] ∧
      edgesIn found = (Graph.ofIndex (.ofUsages trickyUsages)).edges.map
        (fun e => (e.importer, e.declaration, some e.color)) ∧ EdgesLast found :=
  (dot_reads_back_iff (.ofIndex _)).mpr (by decide)

/- The backslash at the end of the name escapes the quote that is to close it, so the identifier runs
on into the edge and the text is no digraph. -/
theorem dot_trailing_backslash :
    read? (Graph.ofIndex (.ofUsages [("a\\", "m.ts")])).dot = none ∧
    ¬∃ found, read? (Graph.ofIndex (.ofUsages [("a\\", "m.ts")])).dot = some found ∧
      nodesIn "cluster_0" found = (Graph.ofIndex (.ofUsages [("a\\", "m.ts")])).declarations := by
  have unread : read? (Graph.ofIndex (.ofUsages [("a\\", "m.ts")])).dot = none := by
    decide +kernel
  refine ⟨unread, ?_⟩
  rintro ⟨found, read, _⟩
  rw [unread] at read
  cases read

end ImportUsage.Dot
