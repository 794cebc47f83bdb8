import ImportUsage.Grammar.Rule

/-! Functions and classes with annotations and modifiers. -/

namespace ImportUsage.Grammar.Typed

open Rule Construct
open Terminal (name lineEnd signatureEnd)

def callableRules : List Definition := [
  ⟨functionSignature,
    seq [optional "async", "function", name, callSignature, oneOf [statementEnd, signatureEnd]]⟩,
  ⟨callSignature,
    seq [
      optional typeParameters, parameters,
      optional (oneOf [typeAscription, assertionAscription, predicateAscription])]⟩,
  ⟨parameter, oneOf [requiredParameter, optionalParameter]⟩,
  ⟨requiredParameter, seq [parameterName, optional typeAscription, optional initializer]⟩,
  ⟨optionalParameter, seq [parameterName, "?", optional typeAscription, optional initializer]⟩,
  ⟨parameterName,
    seq [
      many decorator, optional accessModifier, optional overrideModifier, optional "readonly",
      oneOf [pattern, "this"]]⟩,
  ⟨classDeclaration,
    leftIn .declaration (seq [
      many decorator, "class", typeName, optional typeParameters, optional classHeritage, classBody,
      optional lineEnd])⟩,
  ⟨abstractClassDeclaration,
    tier .declaration (seq [
      many decorator, "abstract", "class", typeName, optional typeParameters,
      optional classHeritage, classBody])⟩,
  ⟨classExpression,
    tier .literal (seq [
      many decorator, "class", optional typeName, optional typeParameters, optional classHeritage,
      classBody])⟩,
  ⟨classHeritage, oneOf [seq [extendsClause, optional implementsClause], implementsClause]⟩,
  ⟨extendsClause, seq ["extends", listed extended]⟩,
  ⟨extended, tier .heritage (seq [expression, optional typeArguments])⟩,
  ⟨implementsClause, seq ["implements", listed type]⟩,
  ⟨classBody,
    seq [
      openBrace,
      many (oneOf [
        decorator, seq [methodDefinition, optional statementEnd],
        seq [methodSignature, oneOf [signatureEnd, ","]], staticBlock,
        seq [
          oneOf [abstractMethodSignature, indexSignature, methodSignature, memberField],
          oneOf [statementEnd, ","]],
        ";"]),
      closeBrace]⟩,
  ⟨memberField,
    seq [
      many decorator,
      optional (oneOf [
        seq ["declare", optional accessModifier], seq [accessModifier, optional "declare"]]),
      oneOf [
        seq [optional "static", optional overrideModifier, optional "readonly"],
        seq [optional "abstract", optional "readonly"],
        seq [optional "readonly", optional "abstract"], optional "accessor"],
      propertyName, optional (oneOf ["?", "!"]), optional typeAscription, optional initializer]⟩,
  ⟨methodDefinition,
    left (seq [
      optional accessModifier, optional "static", optional overrideModifier, optional "readonly",
      optional "async", optional (oneOf ["get", "set", "*"]), propertyName, optional "?",
      callSignature, block])⟩,
  ⟨methodSignature,
    seq [
      optional accessModifier, optional "static", optional overrideModifier, optional "readonly",
      optional "async", optional (oneOf ["get", "set", "*"]), propertyName, optional "?",
      callSignature]⟩,
  ⟨abstractMethodSignature,
    seq [
      optional accessModifier, "abstract", optional overrideModifier,
      optional (oneOf ["get", "set", "*"]), propertyName, optional "?", callSignature]⟩,
  ⟨accessModifier, oneOf ["public", "private", "protected"]⟩,
  ⟨overrideModifier, "override"⟩,
  ⟨decorator, seq ["@", oneOf [name, decoratorMember, decoratorCall, decoratorParenthesized]]⟩,
  ⟨decoratorParenthesized, seq ["(", oneOf [name, decoratorMember, decoratorCall], ")"]⟩,
  ⟨decoratorCall,
    tier .call (seq [oneOf [name, decoratorMember], optional typeArguments, arguments])⟩]

end ImportUsage.Grammar.Typed
