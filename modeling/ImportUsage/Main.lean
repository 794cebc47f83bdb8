import ImportUsage.CommandLine.Program
import ImportUsage.FileTree.Create

/-! The command line on a real disk. What the arguments name is copied into a file tree, the program
runs on the tree, and the files it has written there are written to the disk. The program that draws
the image is not started. -/

namespace ImportUsage.Disk

/-- The path without links, if something is there. -/
def real? (path : String) : IO (Option String) := do
  try return some (← IO.FS.realPath path).toString catch _ => return none

def contentOf (path : String) : IO Content := do
  let bytes ← IO.FS.readBinFile path
  return match String.fromUTF8? bytes with
    | some s => .text s
    | none => .binary bytes.data.toList

/-- The names of the entries, if the path leads to a directory. -/
def entries? (path : String) : IO (Option (List String)) := do
  let place ← IO.FS.realPath path
  if ← place.isDir then return some ((← place.readDir).toList.map (·.fileName)) else return none

/-- A link that leads nowhere. -/
def deadLink : Node := .link "/?"

/-- Copies an entry of a directory. Of the files only those wanted are read, and a link is copied
with the file it leads to. -/
partial def copyEntry (wanted : String → Bool) (directory : String) (t : FileTree) (name : String) :
    IO FileTree := do
  let path := Path.join directory name
  match ← real? path with
  | none => return t.create path deadLink
  | some place =>
    match ← entries? place with
    | none =>
      let content ← if wanted name then contentOf place else pure (.binary [])
      let t := t.create place (.file content false)
      return if place = path then t else t.create path (.link place)
    | some names =>
      let t := t.create place (.directory [])
      if place = path then names.foldlM (copyEntry wanted path) t
      else return t.create path (.link place)

def copyPath (wanted : String → Bool) (t : FileTree) (path : String) : IO FileTree := do
  let whole := (Path.absolute? t.workingPath path).getD path
  let names := Path.pieces whole
  match ← real? path with
  | none =>
    match ← real? (names.dropLast.foldl Path.join "/") with
    | none => return t
    | some place => return t.create place (.directory [])
  | some place =>
    let t ← copyEntry wanted "/" t (String.ofList (place.toList.dropWhile (· = '/')))
    return if names.foldl Path.join "/" = place then t else t.create whole (.link place)

/-- The part of the disk that a run may look at. The target comes last, since it is read whatever
its name. -/
def treeFor (o : Options) : IO FileTree := do
  let here := Path.pieces (← IO.currentDir).toString
  let artifacts := ("dot" :: (o.report.map (·.extension)).toList).map o.artifact
  let t ← artifacts.foldlM (copyPath fun _ => false) (.bare here)
  let t ← copyPath o.discovery.isEligible t o.root
  copyPath (fun _ => true) t o.target

/-- Writes the files of a tree that differ from those of the tree before. -/
def store (before after : FileTree) : IO Unit :=
  (after.root.files []).forM fun (place, content) =>
    match content, before.root.at? place with
    | .text s, some (.file old _) => if old = .text s then pure () else write place s
    | .text s, _ => write place s
    | .binary _, _ => pure ()
where
  write (place : Location) (s : String) : IO Unit :=
    let path := place.foldl Path.join "/"
    IO.FS.writeFile path s

def execute (arguments : List String) : IO Exit := do
  let before ← match CommandLine.request arguments with
    | .ok (.analyze o) => treeFor o
    | _ => pure (.bare [])
  let (exit, after) := CommandLine.execute arguments before
  store before after
  return exit

end ImportUsage.Disk

def main (arguments : List String) : IO UInt32 := do
  let exit ← ImportUsage.Disk.execute arguments
  IO.print exit.output
  IO.eprint exit.errors
  return exit.code.toUInt32
