/-! Declarations of a source text. -/

namespace ImportUsage

namespace Declaration

inductive Kind
  | function
  | classType
  | interface
  | typeAlias
  | enumType
  | variableBinding
  | namespaceBlock
deriving DecidableEq, Repr

def Kind.word : Kind → String
  | .function => "function"
  | .classType => "class"
  | .interface => "interface"
  | .typeAlias => "type"
  | .enumType => "enum"
  | .variableBinding => "variable"
  | .namespaceBlock => "namespace"

end Declaration

structure Declaration where
  name : String
  kind : Declaration.Kind
  exported : Bool
  /-- The line where the declaring statement begins, from 1. -/
  line : Nat
deriving DecidableEq, Repr

end ImportUsage
