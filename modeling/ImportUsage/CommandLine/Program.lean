import ImportUsage.Automaton.Reader
import ImportUsage.CommandLine.Help
import ImportUsage.CommandLine.Parse
import ImportUsage.Scan.Run

/-! The program: what it prints and how it ends, for given arguments and a given file tree. -/

namespace ImportUsage

structure Exit where
  code : Nat
  output : String
  errors : String
deriving DecidableEq, Repr

namespace CommandLine

def summary (o : Outcome) : String :=
  let s := o.scan
  let unused := s.unused.map (·.name)
  "🔍 Scanned " ++ toString s.filesScanned ++ " files for " ++ toString s.declarations.length ++
    " declarations\n" ++
  String.join (s.index.entries.map fun (name, importers) =>
    "  " ++ name ++ " ← " ++ ", ".intercalate importers ++ "\n") ++
  (if unused = [] then "" else "⚠️  Unused: " ++ ", ".intercalate unused ++ "\n") ++
  (if s.skipped = [] then ""
    else "⚠️  Skipped " ++ toString s.skipped.length ++ " files that failed to parse\n") ++
  "📄 Wrote " ++ o.artifacts.dot ++ "\n" ++
  (match o.artifacts.image with
    | some path => "🖼️  Rendering " ++ path ++ "\n"
    | none => "") ++
  (match o.report with
    | some path => "📊 Wrote " ++ path ++ "\n"
    | none => "")

/-- A text with blanks in front of every line but the first. -/
def hanging (blanks : Nat) (s : String) : String :=
  String.ofList (s.toList.flatMap fun c =>
    if c = '\n' then c :: List.replicate blanks ' ' else [c])

/-- The causes of an error: numbered, unless there is only one. -/
def causeLines : List String → String
  | [] => ""
  | [cause] => "\n\nCaused by:\n    " ++ hanging 4 cause
  | causes =>
    "\n\nCaused by:" ++ String.join (causes.mapIdx fun i cause =>
      "\n    " ++ toString i ++ ": " ++ hanging 7 cause)

def failure (o : Options) (e : RunError) : String :=
  "Error: Failed to analyze usages of " ++ o.target ++ " under " ++ o.root ++
    causeLines (e.message :: e.causes) ++ "\n"

def execute (arguments : List String) (t : FileTree) : Exit × FileTree :=
  match request arguments with
  | .error e => (⟨2, "", "error: " ++ e.message ++ "\n"⟩, t)
  | .ok .help => (⟨0, helpText, ""⟩, t)
  | .ok .version => (⟨0, versionText, ""⟩, t)
  | .ok (.analyze o) =>
    match run o t with
    | (.ok outcome, t) => (⟨0, summary outcome, ""⟩, t)
    | (.error e, t) => (⟨1, "", failure o e⟩, t)

end CommandLine

end ImportUsage
