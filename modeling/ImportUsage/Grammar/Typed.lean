import ImportUsage.Grammar.Plain
import ImportUsage.Grammar.Typed.Callable
import ImportUsage.Grammar.Typed.Expression
import ImportUsage.Grammar.Typed.Markup
import ImportUsage.Grammar.Typed.Module
import ImportUsage.Grammar.Typed.Statement
import ImportUsage.Grammar.Typed.Type

/-! The grammars of text with types. They change some rules of plain text and add others. -/

namespace ImportUsage.Grammar

/-- Replaces the rules that `changes` defines too, and adds the others. -/
def override (definitions changes : List Definition) : List Definition :=
  definitions.map (fun d => (changes.find? (·.construct = d.construct)).getD d) ++
    changes.filter fun c => !definitions.any (·.construct = c.construct)

namespace Typed

open Construct

def definitions (markedUp : Bool) : List Definition :=
  override Plain.definitions
    (moduleRules ++ statementRules ++ expressionRules markedUp ++ callableRules ++ markupRules ++
      typeRules)

def inlined : List Construct :=
  Plain.inlined.filter (fun c => c ≠ parameter && c ≠ callSignature) ++ [typeName, tagStart]

/-- The orders of ranks that only text with types needs. -/
def typeOrders : List RankOrder :=
  [[Tier.call, Tier.instantiation, Tier.unary, Tier.binary, awaitExpression, arrowFunction],
    [Tier.heritage, Tier.instantiation],
    [intersectionType, unionType, conditionalType, functionType, type],
    [tupleType, arrayType, pattern, type],
    [readonlyType, pattern],
    [readonlyType, primaryType],
    [typeQuery, subscriptExpression, expression],
    [typeQuery, queriedElement],
    [dottedTypeName, genericType, primaryType, lookupType, keyQuery, type],
    [asExpression, satisfiesExpression, primaryType],
    [queriedMember, memberExpression],
    [memberExpression, importedMember],
    [queriedMember, primary],
    [queriedElement, subscriptExpression],
    [queriedElement, primary],
    [queriedCall, primary],
    [queriedInstance, primary],
    [typeQuery, primary],
    [overrideModifier, primary],
    [decoratorCall, decorator],
    [literalType, pattern],
    [predefinedType, pattern],
    [callExpression, queriedCall],
    [callExpression, importedCall],
    [newExpression, primary],
    [metaProperty, primary],
    [constructMember, propertyName],
    [accessModifier, primary],
    [unaryExpression, Tier.assign],
    [Tier.declaration, expression],
    [predefinedType, unaryExpression],
    [type, maybeType]]

end Typed

def typed (markedUp : Bool) : Grammar :=
  ⟨Typed.definitions markedUp, Typed.inlined, Plain.orders ++ Typed.typeOrders⟩

end ImportUsage.Grammar
