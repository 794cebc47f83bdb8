import ImportUsage.Scan.Options

/-! The arguments of the command line. -/

namespace ImportUsage

inductive Key
  | target
  | root
  | exclude
  | output
  | extension
  | skipDir
  | allDeclarations
  | strict
  | noImage
  | dotProgram
  | report
  | verbose
  | help
  | version
deriving DecidableEq, Repr

namespace Key

/-- Every key but the target, which is given by its place. -/
def named : List Key :=
  [.root, .exclude, .output, .extension, .skipDir, .allDeclarations, .strict, .noImage, .dotProgram,
    .report, .verbose, .help, .version]

def long : Key → String
  | .target => "target"
  | .root => "root"
  | .exclude => "exclude"
  | .output => "output"
  | .extension => "extension"
  | .skipDir => "skip-dir"
  | .allDeclarations => "all-declarations"
  | .strict => "strict"
  | .noImage => "no-image"
  | .dotProgram => "dot-program"
  | .report => "report"
  | .verbose => "verbose"
  | .help => "help"
  | .version => "version"

def short? : Key → Option Char
  | .root => some 'r'
  | .exclude => some 'x'
  | .output => some 'o'
  | .extension => some 'e'
  | .verbose => some 'v'
  | .help => some 'h'
  | .version => some 'V'
  | _ => none

def valueName? : Key → Option String
  | .target => some "TARGET"
  | .root => some "ROOT"
  | .exclude => some "SUFFIX"
  | .output => some "NAME"
  | .extension => some "EXT"
  | .skipDir => some "NAME"
  | .dotProgram => some "PATH"
  | .report => some "FORMAT"
  | _ => none

def repeats : Key → Bool
  | .exclude | .extension | .skipDir | .verbose => true
  | _ => false

/-- Is the value a path? Then it must not be empty. -/
def isPath : Key → Bool
  | .target | .root | .output => true
  | _ => false

def shown (k : Key) : String :=
  match k, k.valueName? with
  | .target, _ => "<TARGET>"
  | .verbose, _ => "--verbose..."
  | _, some name => "--" ++ k.long ++ " <" ++ name ++ ">"
  | _, none => "--" ++ k.long

def ofLong? (name : String) : Option Key := named.find? (·.long = name)

def ofShort? (c : Char) : Option Key := named.find? (·.short? = some c)

end Key

inductive ArgumentError
  | unexpected (argument : String)
  | valueMissing (key : Key)
  | repeated (key : Key)
  | valueUnexpected (value : String) (key : Key)
  | unknownFormat (value : String)
  | targetMissing
deriving DecidableEq, Repr

def ArgumentError.message : ArgumentError → String
  | .unexpected argument => "unexpected argument '" ++ argument ++ "' found"
  | .valueMissing key => "a value is required for '" ++ key.shown ++ "' but none was supplied"
  | .repeated key => "the argument '" ++ key.shown ++ "' cannot be used multiple times"
  | .valueUnexpected value key =>
    "unexpected value '" ++ value ++ "' for '" ++ key.shown ++ "' found; no more were expected"
  | .unknownFormat value =>
    "invalid value '" ++ value ++ "' for '" ++ Key.report.shown ++ "': " ++
      ReportFormat.unknownMessage value
  | .targetMissing => "the following required arguments were not provided:"

end ImportUsage
