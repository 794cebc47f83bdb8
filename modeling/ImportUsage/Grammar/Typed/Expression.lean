import ImportUsage.Grammar.Rule

/-! Expressions with assertions about their types. With markup, a type between angle
brackets in front of an expression is no assertion. -/

namespace ImportUsage.Grammar.Typed

open Rule Construct
open Terminal (name number string regex)

def expressionRules (markedUp : Bool) : List Definition := [
  ⟨parenthesized,
    seq ["(", oneOf [seq [expression, optional typeAscription], sequenceExpression], ")"]⟩,
  ⟨expression,
    oneOf [
      asExpression, satisfiesExpression, instantiation, namespaceDeclaration,
      if markedUp then oneOf [primary, markup] else oneOf [typeAssertion, primary],
      assignmentExpression, augmentedAssignment, awaitExpression, unaryExpression,
      binaryExpression, conditionalExpression, updateExpression, newExpression, yieldExpression]⟩,
  ⟨primary,
    oneOf [
      subscriptExpression, memberExpression, parenthesized, nameOrUndefined, contextualWord, "this",
      "super", number, string, template, regex, "true", "false", "null", object, array,
      functionExpression, arrowFunction, generatorExpression, classExpression, metaProperty,
      callExpression, nonNullExpression]⟩,
  ⟨contextualWord,
    oneOf [
      "declare", "namespace", "type", "public", "private", "protected", "override", "readonly",
      "module", "any", "number", "boolean", "string", "symbol", "export", "object", "new",
      "get", "set", "async", "static", "let"]⟩,
  ⟨callExpression,
    oneOf [
      tier .call (seq [oneOf [expression, importWord], optional typeArguments, arguments]),
      tier .templateCall (seq [oneOf [primary, newExpression], template]),
      tier .member (seq [primary, "?.", optional typeArguments, arguments])]⟩,
  ⟨newExpression,
    rightIn .creation (seq ["new", primary, optional typeArguments, optional arguments])⟩,
  ⟨assignmentExpression,
    rightIn .assign (seq [optional "using", oneOf [parenthesized, assignable], "=", expression])⟩,
  ⟨updatable,
    oneOf [
      memberExpression, subscriptExpression, contextualWord, name, parenthesized,
      nonNullExpression]⟩,
  ⟨assignable,
    oneOf [
      memberExpression, subscriptExpression, nameOrUndefined, contextualWord,
      destructuringPattern, nonNullExpression]⟩,
  ⟨nonNullExpression, leftIn .unary (seq [expression, "!"])⟩,
  ⟨typeAssertion, leftIn .unary (seq [typeArguments, expression])⟩,
  ⟨asExpression, leftIn .binary (seq [expression, "as", oneOf ["const", type]])⟩,
  ⟨satisfiesExpression, leftIn .binary (seq [expression, "satisfies", type])⟩,
  ⟨instantiation, tier .instantiation (seq [expression, typeArguments])⟩]

end ImportUsage.Grammar.Typed
