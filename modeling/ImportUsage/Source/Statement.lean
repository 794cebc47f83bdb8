import ImportUsage.Automaton.Tree
import ImportUsage.Source.Contribution

/-! The contributions of statements, read off their trees. -/

namespace ImportUsage

namespace Tree

def line (t : Tree) : Nat := (t.firstToken?.map (·.start.line)).getD 0

mutual

def lastToken? : Tree → Option Token
  | .leaf t => some t
  | .node _ parts => lastOf parts
  | .group parts => lastOf parts

def lastOf : List Tree → Option Token
  | [] => none
  | t :: more => (lastOf more).orElse fun _ => lastToken? t

end

/-- The text from the first token of a tree to its last. -/
def covered? (t : Tree) : Option String := do
  let first ← t.firstToken?
  let last ← t.lastToken?
  some (String.ofList (first.start.rest.take (last.stop.offset - first.start.offset)))

/-- The characters between the quotes of a string, or those of a name. -/
def unquoted (t : Tree) : String :=
  match t.firstToken? with
  | some token =>
    if token.terminal = .string then
      String.ofList (((token.start.rest.take token.size).drop 1).dropLast)
    else token.text
  | none => ""

def isLiteral (s : String) (t : Tree) : Bool := t.isLeaf (.literal s)

def name? (t : Tree) : Option String := (t.parts.find? (·.isLeaf .name)).map (·.text)

mutual

/-- The names that a pattern binds, in order: not the names of properties, and nothing in the values
that are taken where there is none. -/
def boundNames : Tree → List String
  | .leaf t => if t.terminal = .name || (t.isKeyword && t.text ≠ "undefined") then [t.text] else []
  | .node .pairPattern [_, _, value] => boundNames value
  | .node .assignmentPattern [target, _, _] => boundNames target
  | .node .objectAssignmentPattern [target, _, _] => boundNames target
  | .node c parts =>
    if [Construct.pattern, .destructuringPattern, .objectPattern, .arrayPattern,
      .restPattern].contains c then boundNamesOf parts else []
  | .group parts => boundNamesOf parts

def boundNamesOf : List Tree → List String
  | [] => []
  | t :: more => boundNames t ++ boundNamesOf more

end

/-- The module that a `from` clause names. -/
def source? (t : Tree) : Option String :=
  match t.part? .fromClause with
  | some clause => (clause.parts.find? (·.isLeaf .string)).map unquoted
  | none => (t.parts.find? (·.isLeaf .string)).map unquoted

def specifier? (t : Tree) : Option Specifier :=
  match t.parts.reverse with
  | renamed :: mark :: imported :: _ =>
    if mark.isLiteral "as" then some ⟨imported.unquoted, some renamed.text⟩
    else some ⟨renamed.text, none⟩
  | name :: _ => some ⟨name.text, none⟩
  | [] => none

def importKind (clause : Tree) : Import.Kind :=
  let main := (clause.parts.find? fun t => t.isLeaf .name || t.isNode .importName).map text
  match clause.part? .namedImports, (clause.part? .namespaceImport).bind name?, main with
  | some named, _, main =>
    .named main ((named.parts.filter (·.isNode .importSpecifier)).filterMap specifier?)
  | none, some whole, _ => .whole whole
  | none, none, some name => .main name
  | none, none, none => .sideEffect

def importOf? (t : Tree) : Option Import :=
  match t.part? .importRequire with
  | some clause => do
    let source ← clause.source?
    some ⟨((clause.name?).map .whole).getD .sideEffect, source, t.line⟩
  | none => do
    let source ← t.source?
    some ⟨((t.part? .importClause).map importKind).getD .sideEffect, source, t.line⟩

/-- The kind of declaration that a construct is, if it declares one name. -/
def kindOf? : Construct → Option Declaration.Kind
  | .functionDeclaration | .generatorDeclaration | .functionSignature => some .function
  | .classDeclaration | .abstractClassDeclaration => some .classType
  | .interfaceDeclaration => some .interface
  | .typeAliasDeclaration => some .typeAlias
  | .enumDeclaration => some .enumType
  | .namespaceDeclaration | .moduleDeclaration => some .namespaceBlock
  | _ => none

/-- The name of a namespace. A module that is named by a string has none. -/
def namespaceName? (t : Tree) : Option String := do
  let body ← t.part? .moduleBody
  let name ← body.parts.head?
  if name.isLeaf .string then none else name.covered?

mutual

/-- The declarations that a tree makes, if it is a declaration or contains nothing else. -/
def declarations (exported : Bool) : Tree → List Declaration
  | .leaf _ => []
  | .group parts => declarationsOf exported parts
  | .node c parts =>
    let t := Tree.node c parts
    if [Construct.declaration, .ambientDeclaration, .expressionStatement,
        .expression].contains c then
      declarationsOf exported parts
    else if c = .lexicalDeclaration || c = .variableDeclaration then
      (t.parts.filter (·.isNode .variableDeclarator)).flatMap fun d =>
        ((d.parts.head?.map boundNames).getD []).map (⟨·, .variableBinding, exported, t.line⟩)
    else match kindOf? c with
      | none => []
      | some kind =>
        let name := if kind = .namespaceBlock then t.namespaceName? else t.name?
        (name.map (⟨·, kind, exported, t.line⟩)).toList

def declarationsOf (exported : Bool) : List Tree → List Declaration
  | [] => []
  | t :: more => declarations exported t ++ declarationsOf exported more

end

/-- The declaration that a function or class makes as the value of `export default`. -/
def valueDeclarations (value : Tree) : List Declaration :=
  match value.parts with
  | [.node .primary [inner]] =>
    match inner with
    | .node .functionExpression _ | .node .generatorExpression _ => named inner .function
    | .node .classExpression _ => named inner .classType
    | _ => []
  | _ => []
where
  named (t : Tree) (kind : Declaration.Kind) : List Declaration :=
    (t.name?.map (⟨·, kind, true, t.line⟩)).toList

def exportedNames (clause : Tree) : List (String × String) :=
  (clause.parts.filter (·.isNode .exportSpecifier)).filterMap fun s =>
    match (s.parts.filter (·.isNode .exportName)).map unquoted with
    | [name] => some (name, name)
    | name :: exported :: _ => some (name, exported)
    | [] => none

def exportContributions (t : Tree) : List Contribution :=
  match t.part? .declaration, t.part? .expression, t.part? .exportClause with
  | some d, _, _ => [.declares (d.declarations true)]
  | none, some value, _ =>
    if t.parts.any (isLiteral "default") then [.declares value.valueDeclarations] else []
  | none, none, some clause =>
    if (t.part? .fromClause).isSome then [] else [.exports clause.exportedNames]
  | none, none, none => []

def statementContributions (t : Tree) : List Contribution :=
  match t with
  | .node .statement [inner] =>
    match inner with
    | .node .importStatement _ => (inner.importOf?.map .imports).toList
    | .node .exportStatement _ => inner.exportContributions
    | _ => [.declares (inner.declarations false)]
  | _ => []

def contributions (program : Tree) : List Contribution :=
  program.parts.flatMap statementContributions

end Tree

end ImportUsage
