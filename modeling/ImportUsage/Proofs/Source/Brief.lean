import ImportUsage.Proofs.Source.Lexeme
import ImportUsage.Source.Contribution

/-! Brief statements: imports and declarations that hold nothing but plain names, strings without
escapes, and numbers. What they stand for can be told from their tokens. -/

namespace ImportUsage

/-- Is the token a value? -/
def Lexeme.isValue : Lexeme → Bool
  | .name _ | .string _ | .number => true
  | _ => false

namespace Brief

/-- The names between the braces of an import, and what follows the closing brace. -/
def specifiers? : List Lexeme → Option (List Specifier × List Lexeme)
  | .mark '}' :: ls => some ([], ls)
  | .name n :: .mark '}' :: ls => some ([⟨n, none⟩], ls)
  | .name n :: .mark ',' :: ls => (specifiers? ls).map fun (more, ls) => (⟨n, none⟩ :: more, ls)
  | .name n :: .keyword "as" :: .name m :: .mark '}' :: ls => some ([⟨n, some m⟩], ls)
  | .name n :: .keyword "as" :: .name m :: .mark ',' :: ls =>
    (specifiers? ls).map fun (more, ls) => (⟨n, some m⟩ :: more, ls)
  | _ => none

/-- What an import binds, and what follows. -/
def clause? : List Lexeme → Option (Import.Kind × List Lexeme)
  | .mark '{' :: ls => (specifiers? ls).map fun (names, ls) => (.named none names, ls)
  | .name n :: .mark ',' :: .mark '{' :: ls =>
    (specifiers? ls).map fun (names, ls) => (.named (some n) names, ls)
  | .name n :: ls => some (.main n, ls)
  | .mark '*' :: .keyword "as" :: .name n :: ls => some (.whole n, ls)
  | _ => none

/-- The import that the tokens after `import` make. -/
def import? (line : Nat) : List Lexeme → Option Import
  | [.string m, .mark ';'] => some ⟨.sideEffect, m, line⟩
  | ls =>
    match clause? ls with
    | some (kind, [.keyword "from", .string m, .mark ';']) => some ⟨kind, m, line⟩
    | _ => none

/-- The names that get values. -/
def bindings? : List Lexeme → Option (List String)
  | [.name n, .mark '=', v, .mark ';'] => if v.isValue then some [n] else none
  | .name n :: .mark '=' :: v :: .mark ',' :: ls =>
    if v.isValue then (bindings? ls).map (n :: ·) else none
  | _ => none

/-- The kind of declaration and the names that the tokens declare. -/
def declared? (d : Dialect) : List Lexeme → Option (Declaration.Kind × List String)
  | [.keyword "function", .name n, .mark '(', .mark ')', .mark '{', .mark '}'] =>
    some (.function, [n])
  | [.keyword "class", .name n, .mark '{', .mark '}'] => some (.classType, [n])
  | .keyword "const" :: ls | .keyword "let" :: ls | .keyword "var" :: ls =>
    (bindings? ls).map (.variableBinding, ·)
  | ls => if d.hasTypes then typed? ls else none
where
  /-- Declarations that only typed text has. -/
  typed? : List Lexeme → Option (Declaration.Kind × List String)
    | [.keyword "interface", .name n, .mark '{', .mark '}'] => some (.interface, [n])
    | [.keyword "type", .name n, .mark '=', .keyword "number", .mark ';'] => some (.typeAlias, [n])
    | [.keyword "enum", .name n, .mark '{', .mark '}'] => some (.enumType, [n])
    | [.keyword "namespace", .name n, .mark '{', .mark '}'] => some (.namespaceBlock, [n])
    | _ => none

end Brief

end ImportUsage
