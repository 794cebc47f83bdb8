import ImportUsage.Graph.Dot
import ImportUsage.Report.Text
import ImportUsage.Scan.Basic

/-! A whole run: the scan, then the report, then the graph. -/

namespace ImportUsage

structure WriteError where
  path : String
  fault : Fault
deriving DecidableEq, Repr

def WriteError.message (e : WriteError) : String :=
  "Failed to write " ++ e.path ++ ": " ++ e.fault.message

/-- Writes a text to a file; the tree stays as it is if that fails. -/
def FileTree.write (t : FileTree) (path text : String) : Except WriteError Unit × FileTree :=
  match t.writeText path text with
  | .ok t => (.ok (), t)
  | .error fault => (.error ⟨path, fault⟩, t)

structure Artifacts where
  dot : String
  /-- The image, if the program that draws it could be started. -/
  image : Option String
deriving DecidableEq, Repr

/-- Writes a graph and starts the program that draws it. That program runs on its own; nobody waits
for it. -/
def Graph.draw (g : Graph) (base : String) (rendering : Rendering) (t : FileTree) :
    Except WriteError Artifacts × FileTree :=
  let path := Path.withExtension base "dot"
  match t.write path g.dot with
  | (.error e, t) => (.error e, t)
  | (.ok _, t) =>
    let starts := !rendering.skipImage && t.canStart rendering.program
    (.ok ⟨path, if starts then some (Path.withExtension base "png") else none⟩, t)

inductive RunError
  | scan (e : ScanError)
  | report (e : WriteError)
  | graph (e : WriteError)
deriving DecidableEq, Repr

namespace RunError

def message : RunError → String
  | .scan e => e.message
  | .report e => "Failed to write report " ++ e.path ++ ": " ++ e.fault.message
  | .graph e => e.message

def causes : RunError → List String
  | .scan e => e.causes
  | .report e => [e.fault.message]
  | .graph e => [e.fault.message]

end RunError

structure Outcome where
  scan : Scan
  graph : Graph
  artifacts : Artifacts
  /-- The path of the report, if one was asked for. -/
  report : Option String
deriving DecidableEq, Repr

def Scan.writeReport (s : Scan) (o : Options) (t : FileTree) :
    Except WriteError (Option String) × FileTree :=
  match o.report with
  | none => (.ok none, t)
  | some format =>
    let path := o.artifact format.extension
    match t.write path ((s.report o.target).text format) with
    | (.ok _, t) => (.ok (some path), t)
    | (.error e, t) => (.error e, t)

/-- Scans a file tree and writes what is asked for. Nothing is written before the scan is done, and
the report is written before the graph. -/
def run [TreeReader] (o : Options) (t : FileTree) : Except RunError Outcome × FileTree :=
  match scan o t with
  | .error e => (.error (.scan e), t)
  | .ok s =>
    match s.writeReport o t with
    | (.error e, t) => (.error (.report e), t)
    | (.ok report, t) =>
      let graph := Graph.ofIndex s.index
      match graph.draw o.output o.rendering t with
      | (.error e, t) => (.error (.graph e), t)
      | (.ok artifacts, t) => (.ok ⟨s, graph, artifacts, report⟩, t)

/-- A run with nothing but exclusions chosen. -/
def analyzeUsage [TreeReader] (target root : String) (exclusions : List String) (output : String)
    (t : FileTree) : Except RunError Outcome × FileTree :=
  run { target, root, output, exclusion := .ofSuffixes exclusions } t

end ImportUsage
