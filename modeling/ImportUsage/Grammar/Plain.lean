import ImportUsage.Grammar.Plain.Callable
import ImportUsage.Grammar.Plain.Expression
import ImportUsage.Grammar.Plain.Markup
import ImportUsage.Grammar.Plain.Module
import ImportUsage.Grammar.Plain.Pattern
import ImportUsage.Grammar.Plain.Statement

/-! The grammar of plain text. -/

namespace ImportUsage.Grammar.Plain

open Construct

def definitions : List Definition :=
  statementRules ++ moduleRules ++ expressionRules ++ patternRules ++ callableRules ++ markupRules

/-- Constructs that are only names for a choice or a sequence. -/
def inlined : List Construct :=
  [callSignature, parameter, expressions, statementEnd, nameOrUndefined, contextualWord, tagPart,
    tagName, markupChild, markup, attributeName, attributeValue, markupWord, assignable]

/-- The orders of ranks. Operators bind by the first, from the tightest on. -/
def orders : List RankOrder :=
  [[Tier.member, Tier.templateCall, Tier.call, updateExpression, Tier.unaryWord, Tier.power,
      Tier.product, Tier.sum, Tier.shift, Tier.relation, Tier.equality, Tier.bitAnd, Tier.bitXor,
      Tier.bitOr, Tier.logicalAnd, Tier.logicalOr, Tier.conditional, sequenceExpression,
      arrowFunction],
    [Tier.assign, primary],
    [Tier.member, Tier.templateCall, Tier.creation, Tier.call, expression],
    [Tier.declaration, Tier.literal],
    [primary, block, Tier.object],
    [metaProperty, importWord],
    [importStatement, importWord],
    [exportStatement, primary],
    [lexicalDeclaration, primary]]

end ImportUsage.Grammar.Plain

def ImportUsage.Grammar.plain : ImportUsage.Grammar :=
  ⟨Plain.definitions, Plain.inlined, Plain.orders⟩
