import ImportUsage.Grammar.Rule

/-! Expressions. -/

namespace ImportUsage.Grammar.Plain

open Rule Construct
open Terminal (name privateName number string regex templateText escape conditionMark)

def operator (t : Tier) (mark : String) : Rule :=
  leftIn t (seq [expression, mark, expression])

def expressionRules : List Definition := [
  ⟨expressions, oneOf [expression, sequenceExpression]⟩,
  ⟨sequenceExpression, right (listed expression)⟩,
  ⟨parenthesized, seq ["(", expressions, ")"]⟩,
  ⟨expression,
    oneOf [
      primary, markup, assignmentExpression, augmentedAssignment, awaitExpression, unaryExpression,
      binaryExpression, conditionalExpression, updateExpression, newExpression, yieldExpression]⟩,
  ⟨primary,
    oneOf [
      subscriptExpression, memberExpression, parenthesized, nameOrUndefined, contextualWord, "this",
      "super", number, string, template, regex, "true", "false", "null", object, array,
      functionExpression, arrowFunction, generatorExpression, classExpression, metaProperty,
      callExpression]⟩,
  ⟨nameOrUndefined, oneOf ["undefined", name]⟩,
  ⟨contextualWord, oneOf ["get", "set", "async", "static", "export", "let"]⟩,
  ⟨yieldExpression, right (seq ["yield", oneOf [seq ["*", expression], optional expression]])⟩,
  ⟨awaitExpression, tier .unaryWord (seq ["await", expression])⟩,
  ⟨unaryExpression,
    leftIn .unaryWord (seq [oneOf ["!", "~", "-", "+", "typeof", "void", "delete"], expression])⟩,
  ⟨updateExpression,
    left (oneOf [seq [expression, oneOf ["++", "--"]], seq [oneOf ["++", "--"], expression]])⟩,
  ⟨binaryExpression,
    oneOf [
      operator .logicalAnd "&&", operator .logicalOr "||", operator .shift ">>",
      operator .shift ">>>", operator .shift "<<", operator .bitAnd "&", operator .bitXor "^",
      operator .bitOr "|", operator .sum "+", operator .sum "-", operator .product "*",
      operator .product "/", operator .product "%",
      rightIn .power (seq [expression, "**", expression]), operator .relation "<",
      operator .relation "<=", operator .equality "==", operator .equality "===",
      operator .equality "!=", operator .equality "!==", operator .relation ">=",
      operator .relation ">", operator .conditional "??", operator .relation "instanceof",
      leftIn .relation (seq [oneOf [expression, privateName], "in", expression])]⟩,
  ⟨conditionalExpression,
    rightIn .conditional (seq [expression, conditionMark, expression, ":", expression])⟩,
  ⟨assignmentExpression,
    rightIn .assign (seq [oneOf [parenthesized, assignable], "=", expression])⟩,
  ⟨augmentedAssignment,
    rightIn .assign (seq [
      updatable,
      oneOf [
        "+=", "-=", "*=", "/=", "%=", "^=", "&=", "|=", ">>=", ">>>=", "<<=", "**=", "&&=", "||=",
        "??="],
      expression])⟩,
  ⟨updatable, oneOf [memberExpression, subscriptExpression, contextualWord, name, parenthesized]⟩,
  ⟨assignable,
    oneOf [
      memberExpression, subscriptExpression, nameOrUndefined, contextualWord,
      destructuringPattern]⟩,
  ⟨initializer, seq ["=", expression]⟩,
  ⟨callExpression,
    oneOf [
      tier .call (seq [oneOf [expression, importWord], arguments]),
      tier .templateCall (seq [oneOf [primary, newExpression], template]),
      tier .member (seq [primary, optionalChain, arguments])]⟩,
  ⟨newExpression,
    rightIn .creation (seq ["new", oneOf [primary, newExpression], optional arguments])⟩,
  ⟨memberExpression,
    tier .member (seq [
      oneOf [expression, primary, importWord], oneOf [".", optionalChain],
      oneOf [privateName, name]])⟩,
  ⟨subscriptExpression,
    rightIn .member (seq [
      oneOf [expression, primary], optional optionalChain, "[", expressions, "]"])⟩,
  ⟨optionalChain, "?."⟩,
  ⟨arguments, seq ["(", list (optional (oneOf [expression, spreadElement])), ")"]⟩,
  ⟨spreadElement, seq ["...", expression]⟩,
  ⟨metaProperty, oneOf [seq ["new", ".", "target"], seq ["import", ".", "meta"]]⟩,
  ⟨template, seq [backquote, many (oneOf [templateText, escape, templateSubstitution]), backquote]⟩,
  ⟨templateSubstitution, seq [openSubstitution, expressions, closeBrace]⟩,
  ⟨array, seq ["[", list (optional (oneOf [expression, spreadElement])), "]"]⟩,
  ⟨object,
    tier .object (seq [
      openBrace,
      list (optional (oneOf [pair, spreadElement, methodDefinition, oneOf [name, contextualWord]])),
      closeBrace])⟩,
  ⟨pair, seq [propertyName, ":", expression]⟩,
  ⟨propertyName, oneOf [oneOf [name, contextualWord], privateName, string, number, computedName]⟩,
  ⟨computedName, seq ["[", expression, "]"]⟩]

end ImportUsage.Grammar.Plain
