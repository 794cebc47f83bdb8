import ImportUsage.FileTree.Lookup
import ImportUsage.Source.Parsed

/-! Source files: read from a file tree and parsed by the language their extension tells. -/

namespace ImportUsage

inductive SourceError
  | unsupported (extension : String)
  | unreadable (path : String) (fault : Fault)
  | malformed (path : String) (position : Position)
deriving DecidableEq, Repr

namespace SourceError

def message : SourceError → String
  | .unsupported extension => "Unsupported file type: " ++ extension
  | .unreadable path fault => "Failed to read " ++ path ++ ": " ++ fault.message
  | .malformed path position =>
    "Syntax error in " ++ path ++ " at line " ++ toString position.line ++ ", column " ++
      toString position.column

def causes : SourceError → List String
  | .unreadable _ fault => [fault.message]
  | _ => []

end SourceError

def Language.ofPath (path : String) : Except SourceError Language :=
  let extension := (Path.extension? path).getD ""
  match Language.ofExtension? extension with
  | some language => .ok language
  | none => .error (.unsupported extension)

def Language.parseText [TreeReader] (language : Language) (path text : String) :
    Except SourceError Parsed :=
  (parse language.dialect text.toList).mapError (.malformed path)

/-- Reads and parses a file. The extension is looked at first. -/
def FileTree.readSource [TreeReader] (t : FileTree) (path : String) :
    Except SourceError Parsed := do
  let language ← Language.ofPath path
  let text ← (t.readText path).mapError (.unreadable path)
  language.parseText path text

end ImportUsage
