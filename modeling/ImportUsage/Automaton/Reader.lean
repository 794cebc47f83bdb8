import ImportUsage.Automaton.Run
import ImportUsage.Source.Reader

/-! The automaton as a reader of whole source texts. -/

namespace ImportUsage

/-- The byte order mark in front of a text does not count. -/
def skipMark : Text → Text
  | c :: s => if c.toNat = 0xFEFF then s else c :: s
  | [] => []

/-- The text from its first statement on. A line that names an interpreter may stand before it. -/
def body (source : Text) : Text :=
  match skip (skipMark source) with
  | '#' :: '!' :: s => skip (s.dropWhile fun c => c ≠ '\n' && !isNull c)
  | s => s

/-- The place where the first statement begins. -/
def Place.ofBody (source : Text) : Place :=
  (Place.start source).advance (source.length - (body source).length)

namespace Machine

/-- May a statement begin in this state? It may where the statement `debugger` may. -/
def awaitsStatement (m : Machine) (s : State) : Bool :=
  m.tables.expects s (.literal "debugger")

def statementAt (f : Failure) : Text :=
  let trees := Stack.trees f.place.offset f.below [f.tree]
  match trees.dropWhile isRead with
  | t :: _ => (t.firstToken?.map (·.start.rest)).getD f.place.rest
  | [] => f.place.rest
where
  isRead : Tree → Bool
    | .group _ => true
    | t => t.isNode .statement

/-- Where a text leaves the grammar, by what its readings failed at. A token where a statement
could begin is reported itself; otherwise the statement is, or in an export what is exported. -/
def errorPlace (m : Machine) (failures : List Failure) : Text :=
  match failures.find? fun f => m.awaitsStatement f.state with
  | some f => f.place.rest
  | none =>
    match failures.head? with
    | none => []
    | some f =>
      let s := statementAt f
      match after? "export".toList s with
      | some t => skip t
      | none => s

/-- Reads a text from a place on where no gap stands: its tree, or the text where it leaves the
grammar. A comment `<!--` that is no gap is no statement either. -/
def readFrom (m : Machine) (p : Place) : Except Text Tree :=
  if p.rest.isEmpty then .ok (.node .program [])
  else if markupCommentSize p.rest ≠ 0 then .error p.rest
  else (m.run p).mapError m.errorPlace

def read (m : Machine) (source : Text) : Except Text Tree := m.readFrom (.ofBody source)

end Machine

def byteCount (s : Text) : Nat := (String.ofList s).utf8ByteSize

/-- The position of `rest`, where `rest` is what remains of `source`. -/
def positionAt (source rest : Text) : Position :=
  let before := source.take (source.length - rest.length)
  ⟨1 + linesBetween source rest, 1 + byteCount (before.reverse.takeWhile (· ≠ '\n'))⟩

def trailingGap : Text → Text
  | [] => []
  | c :: s => if skip (c :: s) = [] then c :: s else trailingGap s

/-- Where a text that leaves the grammar at `rest` is reported to do so. A text that only lacks
a closing brace is reported right after its last token. -/
def Machine.reportedPlace (m : Machine) (source rest : Text) : Text :=
  match m.read (source ++ ['}']) with
  | .ok _ => trailingGap source
  | .error _ => rest

/-- The tree of a text, or the position at which it leaves the grammar. -/
def Dialect.readTree (d : Dialect) (source : Text) : Except Position Tree :=
  (d.machine.read source).mapError fun rest =>
    positionAt source (d.machine.reportedPlace source rest)

instance machineReader : TreeReader := ⟨Dialect.readTree⟩

end ImportUsage
