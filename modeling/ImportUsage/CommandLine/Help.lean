/-! The texts the program tells about itself. -/

namespace ImportUsage.CommandLine

def programName : String := "fanout"

def versionText : String := programName ++ " 0.1.0\n"

def helpText : String :=
  "Show which files import each declaration of a TypeScript file\n" ++
  "\n" ++
  "Usage: " ++ programName ++ " [OPTIONS] <TARGET>\n" ++
  "\n" ++
  "Arguments:\n" ++
  "  <TARGET>  File whose declarations are searched for\n" ++
  "\n" ++
  "Options:\n" ++
  "  -r, --root <ROOT>         Directory scanned for consumers [default: .]\n" ++
  "  -x, --exclude <SUFFIX>    Ignore usages in files whose path ends with this suffix\n" ++
  "  -o, --output <NAME>       Base name of the generated files " ++
  "(defaults to the target's file stem)\n" ++
  "  -e, --extension <EXT>     Extension of candidate files, repeatable\n" ++
  "      --skip-dir <NAME>     Directory name skipped during the scan, repeatable\n" ++
  "      --all-declarations    Search for every top-level declaration, not only exported ones\n" ++
  "      --strict              Abort when a candidate file fails to parse\n" ++
  "      --no-image            Only write the .dot file\n" ++
  "      --dot-program <PATH>  Graphviz executable used to render the image [default: dot]\n" ++
  "      --report <FORMAT>     Also write a usage report (json, csv, markdown)\n" ++
  "  -v, --verbose...          Increase log verbosity (-v info, -vv debug, -vvv trace)\n" ++
  "  -h, --help                Print help\n" ++
  "  -V, --version             Print version\n"

end ImportUsage.CommandLine
