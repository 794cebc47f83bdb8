import ImportUsage.Grammar.Rule

/-! Declarations of types, enumerations and namespaces, and statements with annotations. -/

namespace ImportUsage.Grammar.Typed

open Rule Construct
open Terminal (name string)

def statementRules : List Definition := [
  ⟨declaration,
    oneOf [
      functionDeclaration, generatorDeclaration, classDeclaration, lexicalDeclaration,
      variableDeclaration, functionSignature, abstractClassDeclaration, moduleDeclaration,
      tier .declaration namespaceDeclaration, typeAliasDeclaration, enumDeclaration,
      interfaceDeclaration, importAlias, ambientDeclaration]⟩,
  ⟨variableDeclarator,
    oneOf [
      seq [oneOf [name, destructuringPattern], optional typeAscription, optional initializer],
      tier .declaration (seq [name, "!", typeAscription])]⟩,
  ⟨catchClause,
    seq [
      "catch",
      optional (seq ["(", oneOf [name, destructuringPattern], optional typeAscription, ")"]),
      block]⟩,
  ⟨ambientDeclaration,
    seq [
      "declare",
      oneOf [
        declaration, seq ["global", block], seq ["module", ".", name, ":", type, statementEnd]]]⟩,
  ⟨moduleDeclaration, seq ["module", moduleBody]⟩,
  ⟨namespaceDeclaration, seq ["namespace", moduleBody]⟩,
  ⟨moduleBody, right (seq [oneOf [string, name, dottedName], optional block])⟩,
  ⟨interfaceDeclaration,
    seq [
      "interface", typeName, optional typeParameters, optional extendsTypeClause, interfaceBody]⟩,
  ⟨extendsTypeClause, seq ["extends", listed (oneOf [typeName, dottedTypeName, genericType])]⟩,
  ⟨interfaceBody, objectType⟩,
  ⟨enumDeclaration, seq [optional "const", "enum", name, enumBody]⟩,
  ⟨enumBody,
    seq [
      openBrace, optional (seq [listed (oneOf [propertyName, enumAssignment]), optional ","]),
      closeBrace]⟩,
  ⟨enumAssignment, seq [propertyName, initializer]⟩,
  ⟨typeAliasDeclaration, seq ["type", typeName, optional typeParameters, "=", type, statementEnd]⟩]

end ImportUsage.Grammar.Typed
