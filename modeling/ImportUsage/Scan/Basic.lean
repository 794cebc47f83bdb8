import ImportUsage.Discovery.Walk
import ImportUsage.Report.Basic
import ImportUsage.Scan.Options
import ImportUsage.Source.File
import ImportUsage.Usage.Resolution

/-! Scanning a file tree: the declarations of the target, and the files that import them. -/

namespace ImportUsage

inductive ScanError
  | target (e : SourceError)
  | discovery (e : DiscoveryError)
  | candidate (e : SourceError)
deriving DecidableEq, Repr

namespace ScanError

def message : ScanError → String
  | .target _ => "Failed to read declarations from target file"
  | .discovery e => e.message
  | .candidate _ => "Failed to process candidate file"

/-- The messages of what lies behind the error, the nearest first. -/
def causes : ScanError → List String
  | .target e => e.message :: e.causes
  | .discovery e => e.causes
  | .candidate e => e.message :: e.causes

end ScanError

/-- What the files looked at have shown so far. -/
structure Progress where
  index : UsageIndex := .empty
  filesScanned : Nat := 0
  filesExcluded : Nat := 0
  skipped : List Skipped := []
deriving DecidableEq, Repr

structure Scan where
  /-- The declarations searched for, in the order of the target. -/
  declarations : List Declaration
  index : UsageIndex
  /-- Files looked at, with those excluded or skipped. -/
  filesScanned : Nat
  /-- Files that were parsed and are excluded. -/
  filesExcluded : Nat
  skipped : List Skipped
deriving DecidableEq, Repr

namespace Scan

def unused (s : Scan) : List Declaration := s.declarations.filter fun d => !s.index.contains d.name

def report (s : Scan) (target : String) : Report where
  target := target
  usages := Report.usagesOf s.declarations s.index
  filesScanned := s.filesScanned
  filesExcluded := s.filesExcluded
  skipped := s.skipped

end Scan

/-- Does an error with a file looked at end the scan? A file that cannot be read always does, one
that cannot be parsed only in a strict scan. -/
def SourceError.isFatal (strict : Bool) : SourceError → Bool
  | .unreadable _ _ => true
  | _ => strict

def Progress.visit [TreeReader] (o : Options) (ds : List Declaration) (t : FileTree) (p : Progress)
    (path : String) : Except SourceError Progress :=
  match t.readSource path with
  | .ok parsed =>
    let (found, index) := resolve ds o.exclusion t.workingPath path parsed.imports p.index
    .ok { p with
      index := index
      filesScanned := p.filesScanned + 1
      filesExcluded := if found.excluded then p.filesExcluded + 1 else p.filesExcluded }
  | .error e =>
    if e.isFatal o.strict then .error e
    else .ok { p with
      filesScanned := p.filesScanned + 1
      skipped := p.skipped ++ [⟨path, e.message⟩] }

def Progress.take [TreeReader] (o : Options) (ds : List Declaration) (t : FileTree) (p : Progress)
    (found : Found) : Except ScanError Progress :=
  match found with
  | .error e => .error (.discovery (.walk e))
  | .ok path => (p.visit o ds t path).mapError .candidate

def scan [TreeReader] (o : Options) (t : FileTree) : Except ScanError Scan := do
  let parsed ← (t.readSource o.target).mapError .target
  let ds := o.scope.select parsed.declarations
  let found ← (o.discovery.walk t).mapError .discovery
  let p ← found.foldlM (Progress.take o ds t) {}
  .ok ⟨ds, p.index, p.filesScanned, p.filesExcluded, p.skipped⟩

end ImportUsage
