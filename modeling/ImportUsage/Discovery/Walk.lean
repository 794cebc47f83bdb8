import ImportUsage.Discovery.Basic

/-! The walk through a directory tree: every directory is finished before what comes after it, and
the entries of a directory are taken in the order of their names. Links are not followed; they
count as files.

A directory in a tree can always be listed, so the root is not asked for its entries a second time
before the walk, and a walk meets errors only on paths that the system refuses. -/

namespace ImportUsage

/-- One find of a walk: the path of a file, or a directory that cannot be read. -/
abbrev Found := Except WalkError String

def inNameOrder (finds : List (String × List Found)) : List Found :=
  (finds.mergeSort fun a b => a.1 ≤ b.1).flatMap (·.2)

namespace Discovery

mutual

def walkEntry (d : Discovery) (path name : String) : Node → List Found
  | .directory entries =>
    if d.passedOver.contains name then []
    else match Path.fault? path with
      | some fault => [.error ⟨path, fault⟩]
      | none => inNameOrder (walkEntries d path entries)
  | _ => if d.isEligible name then [.ok path] else []

def walkEntries (d : Discovery) (path : String) :
    List (String × Node) → List (String × List Found)
  | [] => []
  | (name, node) :: rest =>
    (name, walkEntry d (Path.join path name) name node) :: walkEntries d path rest

end

def walk (d : Discovery) (t : FileTree) : Except DiscoveryError (List Found) :=
  match t.find d.root with
  | .error .missing => .error (.rootMissing d.root)
  | .error fault => .error (.unreadable d.root fault)
  | .ok (.directory entries) => .ok (inNameOrder (walkEntries d d.root entries))
  | .ok _ => .error (.notDirectory d.root)

end Discovery

end ImportUsage
