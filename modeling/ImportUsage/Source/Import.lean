/-! Import statements of a source text. -/

namespace ImportUsage

/-- One name of an import clause: the name in the imported module, and the local name if it
differs. -/
structure Specifier where
  imported : String
  localName : Option String
deriving DecidableEq, Repr

namespace Import

inductive Kind
  /-- Names of the module, with or without a name for its main value. -/
  | named (main : Option String) (specifiers : List Specifier)
  /-- The module's main value alone. -/
  | main (localName : String)
  /-- The module as one value. -/
  | whole (localName : String)
  | sideEffect
deriving DecidableEq, Repr

end Import

structure Import where
  kind : Import.Kind
  /-- The module path as written between the quotes. -/
  source : String
  line : Nat
deriving DecidableEq, Repr

namespace Import

/-- The specifiers between braces; the other kinds have none. -/
def specifiers (i : Import) : List Specifier :=
  match i.kind with
  | .named _ specifiers => specifiers
  | _ => []

/-- Does the statement import `name` by that name? Local names do not count. -/
def importsName (i : Import) (name : String) : Bool :=
  i.specifiers.any (·.imported = name)

def isSideEffect (i : Import) : Bool :=
  match i.kind with
  | .sideEffect => true
  | _ => false

end Import

end ImportUsage
