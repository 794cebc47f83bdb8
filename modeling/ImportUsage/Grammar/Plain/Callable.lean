import ImportUsage.Grammar.Rule

/-! Functions and classes. -/

namespace ImportUsage.Grammar.Plain

open Rule Construct
open Terminal (name lineEnd staticGetLine)

def callableRules : List Definition := [
  ⟨functionDeclaration,
    rightIn .declaration (seq [
      optional "async", "function", name, callSignature, block, optional lineEnd])⟩,
  ⟨functionExpression,
    tier .literal (seq [optional "async", "function", optional name, callSignature, block])⟩,
  ⟨generatorDeclaration,
    rightIn .declaration (seq [
      optional "async", "function", "*", name, callSignature, block, optional lineEnd])⟩,
  ⟨generatorExpression,
    tier .literal (seq [optional "async", "function", "*", optional name, callSignature, block])⟩,
  ⟨arrowFunction,
    seq [
      optional "async", oneOf [oneOf [contextualWord, name], callSignature], "=>",
      oneOf [expression, block]]⟩,
  ⟨callSignature, parameters⟩,
  ⟨parameters, seq ["(", optional (seq [listed parameter, optional ","]), ")"]⟩,
  ⟨parameter, oneOf [pattern, assignmentPattern]⟩,
  ⟨classDeclaration,
    tier .declaration (seq [
      many decorator, "class", name, optional classHeritage, classBody, optional lineEnd])⟩,
  ⟨classExpression,
    tier .literal (seq [
      many decorator, "class", optional name, optional classHeritage, classBody])⟩,
  ⟨classHeritage, seq ["extends", expression]⟩,
  ⟨classBody,
    seq [
      openBrace,
      many (oneOf [
        seq [methodDefinition, optional ";"], seq [fieldDefinition, statementEnd], staticBlock,
        ";"]),
      closeBrace]⟩,
  ⟨fieldDefinition, seq [many decorator, optional "static", propertyName, optional initializer]⟩,
  ⟨methodDefinition,
    seq [
      many decorator, optional (oneOf ["static", staticGetLine]), optional "async",
      optional (oneOf ["get", "set", "*"]), propertyName, parameters, block]⟩,
  ⟨staticBlock, seq ["static", optional lineEnd, block]⟩,
  ⟨decorator, seq ["@", oneOf [name, decoratorMember, decoratorCall]]⟩,
  ⟨decoratorMember, tier .member (seq [oneOf [name, decoratorMember], ".", name])⟩,
  ⟨decoratorCall, tier .call (seq [oneOf [name, decoratorMember], arguments])⟩]

end ImportUsage.Grammar.Plain
