import ImportUsage.Grammar.Rule

/-! Markup: elements with their attributes and children. -/

namespace ImportUsage.Grammar.Plain

open Rule Construct
open Terminal (name markupName markupString markupText characterReference)

def markupRules : List Definition := [
  ⟨markup, oneOf [element, emptyElement]⟩,
  ⟨element, seq [openingTag, many markupChild, closingTag]⟩,
  ⟨emptyElement, seq ["<", tagName, many tagPart, "/>"]⟩,
  ⟨openingTag, seq ["<", optional (seq [tagName, many tagPart]), ">"]⟩,
  ⟨closingTag, seq ["</", optional tagName, ">"]⟩,
  ⟨tagName, oneOf [markupWord, dottedName, markupQualifiedName]⟩,
  ⟨markupWord, oneOf [markupName, name]⟩,
  ⟨markupQualifiedName, seq [markupWord, ":", markupWord]⟩,
  ⟨dottedName, tier .member (seq [oneOf [name, dottedName], ".", name])⟩,
  ⟨markupChild, oneOf [markupText, characterReference, markup, markupExpression]⟩,
  ⟨markupExpression,
    seq [openBrace, optional (oneOf [expression, sequenceExpression, spreadElement]), closeBrace]⟩,
  ⟨tagPart, oneOf [markupAttribute, markupExpression]⟩,
  ⟨markupAttribute, seq [attributeName, optional (seq ["=", attributeValue])]⟩,
  ⟨attributeName, oneOf [markupWord, markupQualifiedName]⟩,
  ⟨attributeValue, oneOf [markupString, markupExpression, markup]⟩]

end ImportUsage.Grammar.Plain
