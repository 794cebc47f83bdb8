/-! The constructs of source text, from whole programs down to names of properties. -/

namespace ImportUsage

inductive Construct
  | program
  -- imports and exports
  | exportStatement
  | namespaceExport
  | exportClause
  | exportSpecifier
  | exportName
  | importWord
  | importStatement
  | importClause
  | fromClause
  | namespaceImport
  | namedImports
  | importSpecifier
  | importAttribute
  | importName
  | importRequire
  | importAlias
  -- statements
  | statement
  | declaration
  | expressionStatement
  | variableDeclaration
  | lexicalDeclaration
  | variableDeclarator
  | block
  | elseClause
  | ifStatement
  | switchStatement
  | forStatement
  | forInStatement
  | forHeader
  | whileStatement
  | doStatement
  | tryStatement
  | withStatement
  | breakStatement
  | continueStatement
  | debuggerStatement
  | returnStatement
  | throwStatement
  | emptyStatement
  | labeledStatement
  | switchBody
  | switchCase
  | switchDefault
  | catchClause
  | finallyClause
  | statementEnd
  | ambientDeclaration
  | moduleDeclaration
  | namespaceDeclaration
  | moduleBody
  | interfaceDeclaration
  | interfaceBody
  | enumDeclaration
  | enumBody
  | enumAssignment
  | typeAliasDeclaration
  -- expressions
  | parenthesized
  | expressions
  | expression
  | primary
  | yieldExpression
  | object
  | array
  | classExpression
  | functionExpression
  | generatorExpression
  | arrowFunction
  | optionalChain
  | callExpression
  | newExpression
  | awaitExpression
  | memberExpression
  | subscriptExpression
  | assignmentExpression
  | updatable
  | augmentedAssignment
  | initializer
  | spreadElement
  | conditionalExpression
  | binaryExpression
  | unaryExpression
  | updateExpression
  | sequenceExpression
  | template
  | templateSubstitution
  | nameOrUndefined
  | metaProperty
  | arguments
  | pair
  | propertyName
  | computedName
  | contextualWord
  | nonNullExpression
  | typeAssertion
  | asExpression
  | satisfiesExpression
  | instantiation
  -- patterns
  | pattern
  | assignable
  | destructuringPattern
  | objectPattern
  | arrayPattern
  | restPattern
  | pairPattern
  | assignmentPattern
  | objectAssignmentPattern
  -- markup
  | markup
  | element
  | emptyElement
  | openingTag
  | closingTag
  | tagStart
  | tagName
  | markupChild
  | markupExpression
  | markupWord
  | markupQualifiedName
  | dottedName
  | tagPart
  | attributeName
  | attributeValue
  | markupAttribute
  -- functions and classes
  | functionDeclaration
  | generatorDeclaration
  | functionSignature
  | callSignature
  | parameter
  | parameters
  | requiredParameter
  | optionalParameter
  | parameterName
  | classDeclaration
  | abstractClassDeclaration
  | classHeritage
  | extendsClause
  | extended
  | implementsClause
  | classBody
  | fieldDefinition
  | memberField
  | staticBlock
  | methodDefinition
  | methodSignature
  | abstractMethodSignature
  | accessModifier
  | overrideModifier
  | decorator
  | decoratorMember
  | decoratorCall
  | decoratorParenthesized
  -- types
  | type
  | primaryType
  | typeName
  | dottedTypeName
  | genericType
  | typeArguments
  | typeParameters
  | typeParameter
  | defaultType
  | constraint
  | typeAscription
  | omittingAscription
  | addingAscription
  | optionalAscription
  | importedMember
  | importedCall
  | assertion
  | assertionAscription
  | typePredicate
  | predicateAscription
  | parenthesizedType
  | predefinedType
  | objectType
  | callMember
  | constructMember
  | propertySignature
  | indexSignature
  | mappedTypeClause
  | arrayType
  | tupleType
  | tupleMember
  | tupleParameter
  | optionalTupleParameter
  | optionalType
  | restType
  | maybeType
  | typeQuery
  | queriedMember
  | queriedElement
  | queriedCall
  | queriedInstance
  | keyQuery
  | lookupType
  | existentialType
  | literalType
  | signedNumber
  | conditionalType
  | inferType
  | templateType
  | embeddedType
  | unionType
  | intersectionType
  | readonlyType
  | functionType
  | constructorType
  | extendsTypeClause
deriving DecidableEq, Hashable

end ImportUsage
