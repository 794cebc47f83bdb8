import ImportUsage.Usage.Distinct

/-! The index of usages: for each declaration the modules that import it. -/

namespace ImportUsage

/-- Declarations with the modules that import them. Declarations stand in the order of their
first usage, modules in the order they were recorded, with repetitions. A declaration that nobody
imports has no entry. -/
structure UsageIndex where
  entries : List (String × List String)
deriving DecidableEq, Repr

namespace UsageIndex

def empty : UsageIndex := ⟨[]⟩

def recordIn (declaration importer : String) :
    List (String × List String) → List (String × List String)
  | [] => [(declaration, [importer])]
  | (name, importers) :: rest =>
    if name = declaration then (name, importers ++ [importer]) :: rest
    else (name, importers) :: recordIn declaration importer rest

def record (index : UsageIndex) (declaration importer : String) : UsageIndex :=
  ⟨recordIn declaration importer index.entries⟩

/-- Records usages one after the other, each a declaration with the module that imports it. -/
def recordAll (index : UsageIndex) (usages : List (String × String)) : UsageIndex :=
  usages.foldl (fun i u => i.record u.1 u.2) index

def ofUsages (usages : List (String × String)) : UsageIndex := empty.recordAll usages

def importers? (index : UsageIndex) (declaration : String) : Option (List String) :=
  index.entries.lookup declaration

def contains (index : UsageIndex) (declaration : String) : Bool :=
  (index.importers? declaration).isSome

def names (index : UsageIndex) : List String := index.entries.map (·.1)

def size (index : UsageIndex) : Nat := index.entries.length

def isEmpty (index : UsageIndex) : Bool := index.entries.isEmpty

/-- The number of recorded usages, with repetitions. -/
def total (index : UsageIndex) : Nat := (index.entries.flatMap (·.2)).length

/-- The modules met when going through the entries, each once. -/
def modules (index : UsageIndex) : List String := distinct (index.entries.flatMap (·.2))

end UsageIndex

end ImportUsage
