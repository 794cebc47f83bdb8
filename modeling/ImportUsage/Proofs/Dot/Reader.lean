import Mathlib.Tactic.SplitIfs
import ImportUsage.Proofs.Text.Transduce

/-! A reader of DOT texts. A quoted identifier runs to the next quote that no backslash escapes;
inside, a backslash and a quote stand for the quote and every other character for itself. The reader
finds the statements of a digraph, each with the clusters around it. -/

namespace ImportUsage.Dot

inductive Token
  | word (s : String)
  | quoted (s : String)
  | mark (c : Char)
  | arrow
deriving DecidableEq, Repr

/-- What the reader is in, with the characters of it read so far, the last one first. -/
inductive Mode
  | between
  | inWord (read : List Char)
  | inQuotes (read : List Char)
  | afterBackslash (read : List Char)
  | afterDash
deriving DecidableEq, Repr

def isWordChar (c : Char) : Bool := c.isAlphanum || c = '_'

namespace Mode

def start (c : Char) : Option (List Token × Mode) :=
  if c.isWhitespace then some ([], .between)
  else if isWordChar c then some ([], .inWord [c])
  else if c = '"' then some ([], .inQuotes [])
  else if c = '-' then some ([], .afterDash)
  else if c ∈ ['{', '}', '[', ']', ';', ',', '='] then some ([.mark c], .between)
  else none

def step : Mode → Char → Option (List Token × Mode)
  | .between, c => start c
  | .inWord read, c =>
    if isWordChar c then some ([], .inWord (c :: read))
    else (start c).map fun (ts, next) => (.word (String.ofList read.reverse) :: ts, next)
  | .inQuotes read, c =>
    if c = '"' then some ([.quoted (String.ofList read.reverse)], .between)
    else if c = '\\' then some ([], .afterBackslash read)
    else some ([], .inQuotes (c :: read))
  | .afterBackslash read, c =>
    if c = '"' then some ([], .inQuotes ('"' :: read))
    else if c = '\\' then some ([], .afterBackslash ('\\' :: read))
    else some ([], .inQuotes (c :: '\\' :: read))
  | .afterDash, c => if c = '>' then some ([.arrow], .between) else none

end Mode

inductive Statement
  | attribute (name value : String)
  | node (id : String) (attributes : List (String × String))
  | edge (source target : String) (attributes : List (String × String))
deriving DecidableEq, Repr

/-- A statement with the clusters around it, the innermost first. -/
structure Placed where
  clusters : List String
  statement : Statement
deriving DecidableEq, Repr

/-- Words that are no identifiers unless they are quoted. -/
def keywords : List String := ["node", "edge", "graph", "digraph", "subgraph", "strict"]

def lowered (s : String) : String := String.ofList (s.toList.map Char.toLower)

def Token.id? : Token → Option String
  | .word s => if lowered s ∈ keywords then none else some s
  | .quoted s => some s
  | _ => none

def attributes? : List Token → Option (List (String × String))
  | [.mark ']'] => some []
  | [name, .mark '=', value, .mark ']'] => do some [(← name.id?, ← value.id?)]
  | name :: .mark '=' :: value :: .mark ',' :: rest => do
    some ((← name.id?, ← value.id?) :: (← attributes? rest))
  | _ => none

def attributeList? : List Token → Option (List (String × String))
  | [] => some []
  | .mark '[' :: rest => attributes? rest
  | _ => none

def statement? : List Token → Option Statement
  | [] => none
  | [name, .mark '=', value] => do some (.attribute (← name.id?) (← value.id?))
  | source :: .arrow :: target :: rest => do
    some (.edge (← source.id?) (← target.id?) (← attributeList? rest))
  | id :: rest => do some (.node (← id.id?) (← attributeList? rest))

/-- Where the reader is in a digraph, with the tokens that no statement has taken yet. -/
inductive Place
  | before (pending : List Token)
  | inside (clusters : List String) (pending : List Token)
  | after
deriving DecidableEq, Repr

def opened? (keyword : String) : List Token → Option String
  | [.word word, name] => if lowered word = keyword then name.id? else none
  | _ => none

def closed? : (clusters : List String) → (pending : List Token) → Option Place
  | [], [] => some .after
  | _ :: outer, [] => some (.inside outer [])
  | _, _ :: _ => none

def Place.step : Place → Token → Option (List Placed × Place)
  | .before pending, t =>
    if t = .mark '{' then (opened? "digraph" pending).map fun _ => ([], .inside [] [])
    else some ([], .before (pending ++ [t]))
  | .inside clusters pending, t =>
    if t = .mark ';' then (statement? pending).map fun s => ([⟨clusters, s⟩], .inside clusters [])
    else if t = .mark '{' then
      (opened? "subgraph" pending).map fun id => ([], .inside (id :: clusters) [])
    else if t = .mark '}' then (closed? clusters pending).map fun next => ([], next)
    else some ([], .inside clusters (pending ++ [t]))
  | .after, _ => none

/-- Reads a text that begins and ends between two tokens, from a place in a digraph. -/
def readFrom (p : Place) (text : String) : Option (List Placed × Place) := do
  let (tokens, mode) ← transduce Mode.step .between text.toList
  if mode = .between then transduce Place.step p tokens else none

def read? (text : String) : Option (List Placed) := do
  let (found, place) ← readFrom (.before []) text
  if place = .after then some found else none

/-- The nodes that stand in a cluster and in none inside it. -/
def nodesIn (cluster : String) (found : List Placed) : List String :=
  found.filterMap fun p =>
    match p.clusters, p.statement with
    | innermost :: _, .node id _ => if innermost = cluster then some id else none
    | _, _ => none

def edgesIn (found : List Placed) : List (String × String × Option String) :=
  found.filterMap fun p =>
    match p.statement with
    | .edge source target attributes => some (source, target, attributes.lookup "color")
    | _ => none

def Placed.isEdge (p : Placed) : Bool :=
  match p.statement with
  | .edge _ _ _ => true
  | _ => false

/-- After an edge nothing but edges follows. -/
def EdgesLast (found : List Placed) : Prop := found.Pairwise fun p q => p.isEdge → q.isEdge

def EndsWithBackslash (s : String) : Prop := s.toList.getLast? = some '\\'

instance (s : String) : Decidable (EndsWithBackslash s) :=
  inferInstanceAs (Decidable (s.toList.getLast? = some '\\'))

/-- The token is no identifier that ends with a backslash. -/
def Token.Clean (t : Token) : Prop := ∀ s, t.id? = some s → ¬EndsWithBackslash s

theorem Token.word_clean {read : List Char} (clean : read.head? ≠ some '\\') :
    (Token.word (String.ofList read.reverse)).Clean := by
  intro s known
  simp only [id?, Option.ite_none_left_eq_some, Option.some.injEq] at known
  simpa [← known.2, EndsWithBackslash] using clean

theorem Token.quoted_clean {read : List Char} (clean : read.head? ≠ some '\\') :
    (Token.quoted (String.ofList read.reverse)).Clean := by
  intro s known
  cases Option.some.inj known
  simpa [EndsWithBackslash] using clean

/-- The last character read is no backslash; one that may escape a quote is waiting still. -/
def Mode.Clean : Mode → Prop
  | .inWord read => read.head? ≠ some '\\'
  | .inQuotes read => read.head? ≠ some '\\'
  | _ => True

theorem isWordChar_ne_backslash {c : Char} (wordly : isWordChar c) : c ≠ '\\' := by
  rintro rfl
  exact absurd wordly (by decide)

theorem Mode.start_clean {c : Char} {ts : List Token} {next : Mode}
    (begun : Mode.start c = some (ts, next)) : (∀ t ∈ ts, t.Clean) ∧ next.Clean := by
  unfold start at begun
  split_ifs at begun with blank wordly quote dash mark
  all_goals cases Option.some.inj begun
  · simp [Clean]
  · simpa [Clean] using isWordChar_ne_backslash wordly
  · simp [Clean]
  · simp [Clean]
  · simp [Clean, Token.Clean, Token.id?]

theorem Mode.step_clean (m : Mode) (c : Char) (ts : List Token) (next : Mode) (clean : m.Clean)
    (stepped : m.step c = some (ts, next)) : (∀ t ∈ ts, t.Clean) ∧ next.Clean := by
  cases m with
  | between => exact start_clean stepped
  | inWord read =>
    simp only [step] at stepped
    split_ifs at stepped with wordly
    · cases Option.some.inj stepped
      simpa [Clean] using isWordChar_ne_backslash wordly
    · obtain ⟨⟨more, _⟩, begun, same⟩ := Option.map_eq_some_iff.mp stepped
      cases same
      obtain ⟨others, kept⟩ := start_clean begun
      exact ⟨List.forall_mem_cons.mpr ⟨Token.word_clean clean, others⟩, kept⟩
  | inQuotes read =>
    simp only [step] at stepped
    split_ifs at stepped with quote backslash
    all_goals cases Option.some.inj stepped
    · simpa [Clean] using Token.quoted_clean clean
    · simp [Clean]
    · simpa [Clean] using backslash
  | afterBackslash read =>
    simp only [step] at stepped
    split_ifs at stepped with quote backslash
    all_goals cases Option.some.inj stepped
    · simp [Clean]
    · simp [Clean]
    · simpa [Clean] using backslash
  | afterDash =>
    simp only [step] at stepped
    split_ifs at stepped with closing
    cases Option.some.inj stepped
    simp [Clean, Token.Clean, Token.id?]

/-- The statement is no node whose identifier ends with a backslash. -/
def Placed.Clean (p : Placed) : Prop :=
  ∀ id attributes, p.statement = .node id attributes → ¬EndsWithBackslash id

def Place.pending : Place → List Token
  | .before pending => pending
  | .inside _ pending => pending
  | .after => []

theorem statement?_clean {pending : List Token} {s : Statement} (clean : ∀ t ∈ pending, t.Clean)
    (read : statement? pending = some s) (clusters : List String) : (Placed.mk clusters s).Clean := by
  intro id attributes same
  subst same
  unfold statement? at read
  split at read
  · contradiction
  · simp [Option.bind_eq_some_iff] at read
  · simp [Option.bind_eq_some_iff] at read
  · simp only [Option.bind_eq_bind, Option.bind_eq_some_iff, Option.some.injEq,
      Statement.node.injEq] at read
    obtain ⟨_, known, _, _, rfl, _⟩ := read
    exact clean _ List.mem_cons_self _ known

theorem closed?_pending {clusters : List String} {pending : List Token} {next : Place}
    (closed : closed? clusters pending = some next) : next.pending = [] := by
  unfold closed? at closed
  split at closed
  · cases Option.some.inj closed
    rfl
  · cases Option.some.inj closed
    rfl
  · contradiction

/-- A token ends a statement, opens or closes a block, or has to wait. -/
theorem Place.step_cases {p next : Place} {t : Token} {out : List Placed}
    (stepped : p.step t = some (out, next)) :
    (∃ clusters s, statement? p.pending = some s ∧ out = [⟨clusters, s⟩] ∧ next.pending = []) ∨
      out = [] ∧ (next.pending = [] ∨ next.pending = p.pending ++ [t]) := by
  cases p with
  | before pending =>
    simp only [step] at stepped
    split_ifs at stepped
    · obtain ⟨_, _, same⟩ := Option.map_eq_some_iff.mp stepped
      cases same
      exact .inr ⟨rfl, .inl rfl⟩
    · cases Option.some.inj stepped
      exact .inr ⟨rfl, .inr rfl⟩
  | inside clusters pending =>
    simp only [step] at stepped
    split_ifs at stepped
    · obtain ⟨s, read, same⟩ := Option.map_eq_some_iff.mp stepped
      cases same
      exact .inl ⟨clusters, s, read, rfl, rfl⟩
    · obtain ⟨_, _, same⟩ := Option.map_eq_some_iff.mp stepped
      cases same
      exact .inr ⟨rfl, .inl rfl⟩
    · obtain ⟨_, closed, same⟩ := Option.map_eq_some_iff.mp stepped
      cases same
      exact .inr ⟨rfl, .inl (closed?_pending closed)⟩
    · cases Option.some.inj stepped
      exact .inr ⟨rfl, .inr rfl⟩
  | after => contradiction

theorem Place.step_clean (p : Place) (t : Token) (out : List Placed) (next : Place)
    (clean : ∀ u ∈ p.pending, u.Clean) (clean_t : t.Clean) (stepped : p.step t = some (out, next)) :
    (∀ q ∈ out, q.Clean) ∧ ∀ u ∈ next.pending, u.Clean := by
  rcases step_cases stepped with ⟨clusters, s, read, rfl, taken⟩ | ⟨rfl, taken | waits⟩
  · rw [taken]
    simpa using statement?_clean clean read clusters
  · rw [taken]
    simp
  · rw [waits]
    refine ⟨by simp, fun u member => ?_⟩
    rcases List.mem_append.mp member with old | new
    · exact clean u old
    · exact List.mem_singleton.mp new ▸ clean_t

/-- No text has a node whose identifier ends with a backslash. -/
theorem read?_clean {text : String} {found : List Placed} (read : read? text = some found) :
    ∀ p ∈ found, p.Clean := by
  simp only [read?, readFrom, Option.bind_eq_bind, Option.bind_eq_some_iff] at read
  obtain ⟨⟨placed, place⟩, ⟨⟨tokens, mode⟩, scanned, parsed⟩, ended⟩ := read
  split_ifs at parsed ended
  cases Option.some.inj ended
  have clean : ∀ t ∈ tokens, t.Clean :=
    transduce_invariant (P := fun _ => True)
      (fun m c ts next holds _ => m.step_clean c ts next holds) (show Mode.between.Clean from trivial)
      (fun _ _ => trivial) scanned
  exact transduce_invariant (I := fun p : Place => ∀ u ∈ p.pending, u.Clean)
    Place.step_clean (by simp [Place.pending]) clean parsed

theorem mem_nodesIn {cluster name : String} {found : List Placed}
    (member : name ∈ nodesIn cluster found) :
    ∃ p ∈ found, ∃ attributes, p.statement = .node name attributes := by
  obtain ⟨p, here, same⟩ := List.mem_filterMap.mp member
  split at same
  · rename_i innermost _ id attributes _ stated
    split_ifs at same
    cases Option.some.inj same
    exact ⟨p, here, attributes, stated⟩
  · contradiction

theorem nodesIn_clean {text cluster name : String} {found : List Placed}
    (read : read? text = some found) (member : name ∈ nodesIn cluster found) :
    ¬EndsWithBackslash name := by
  obtain ⟨p, here, attributes, stated⟩ := mem_nodesIn member
  exact read?_clean read p here name attributes stated

end ImportUsage.Dot
