import ImportUsage.Discovery.Basic
import ImportUsage.Report.Format
import ImportUsage.Usage.Exclusion
import ImportUsage.Usage.Selection

/-! What a run is asked to do. -/

namespace ImportUsage

structure Rendering where
  /-- The program that draws a DOT file. -/
  program : String := "dot"
  skipImage : Bool := false
deriving DecidableEq, Repr

structure Options where
  /-- The file whose declarations are searched for. -/
  target : String
  /-- The directory whose files are looked at. -/
  root : String
  /-- The path of the files written, without their extensions. -/
  output : String
  exclusion : Exclusion := .empty
  extensions : List String := [mainExtension]
  /-- The names of the directories passed over. -/
  passedOver : List String := []
  scope : Scope := .exported
  /-- Stop at a file that cannot be parsed? -/
  strict : Bool := false
  rendering : Rendering := {}
  report : Option ReportFormat := none
deriving DecidableEq, Repr

namespace Options

def withExtensions (o : Options) (extensions : List String) : Options :=
  if extensions = [] then o else { o with extensions := extensions }

def discovery (o : Options) : Discovery :=
  ((Discovery.under o.root).withExtensions o.extensions).passingOver o.passedOver

def artifact (o : Options) (extension : String) : String := Path.withExtension o.output extension

end Options

end ImportUsage
