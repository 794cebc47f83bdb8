import ImportUsage.Grammar.Rule

/-! Types. -/

namespace ImportUsage.Grammar.Typed

open Rule Construct
open Terminal (name privateName number string templateText conditionMark)

def typeRules : List Definition := [
  ⟨type,
    oneOf [
      primaryType, functionType, readonlyType, constructorType, inferType,
      ranked (some (.value (-1))) none importedMember,
      ranked (some (.value (-1))) none importedCall]⟩,
  ⟨primaryType,
    oneOf [
      parenthesizedType, predefinedType, typeName, dottedTypeName, genericType, objectType,
      arrayType, tupleType, maybeType, typeQuery, keyQuery, "this", existentialType, literalType,
      lookupType, conditionalType, templateType, intersectionType, unionType, "const"]⟩,
  ⟨typeName, name⟩,
  ⟨dottedTypeName, tier .member (seq [oneOf [name, dottedName], ".", typeName])⟩,
  ⟨genericType, tier .call (seq [oneOf [typeName, dottedTypeName], typeArguments])⟩,
  ⟨typeArguments, seq ["<", listed type, optional ",", ">"]⟩,
  ⟨typeParameters, seq ["<", listed typeParameter, optional ",", ">"]⟩,
  ⟨typeParameter, seq [optional "const", typeName, optional constraint, optional defaultType]⟩,
  ⟨constraint, seq [oneOf ["extends", ":"], type]⟩,
  ⟨defaultType, seq ["=", type]⟩,
  ⟨typeAscription, seq [":", oneOf [type, importedMember, importedCall]]⟩,
  ⟨omittingAscription, seq ["-?:", type]⟩,
  ⟨addingAscription, seq ["+?:", type]⟩,
  ⟨optionalAscription, seq ["?:", type]⟩,
  ⟨importedMember,
    seq [oneOf [importWord, importedMember, importedCall], ".", oneOf [privateName, name]]⟩,
  ⟨importedCall, seq [oneOf [importWord, importedMember], arguments]⟩,
  ⟨assertion, seq ["asserts", oneOf [typePredicate, name, "this"]]⟩,
  ⟨assertionAscription, seq [":", assertion]⟩,
  ⟨typePredicate, seq [oneOf [name, "this", predefinedType], "is", type]⟩,
  ⟨predicateAscription, seq [":", typePredicate]⟩,
  ⟨parenthesizedType, seq ["(", type, ")"]⟩,
  ⟨predefinedType,
    oneOf [
      "any", "number", "boolean", "string", "symbol", seq ["unique", "symbol"], "void", "unknown",
      "never", "object"]⟩,
  ⟨literalType, oneOf [signedNumber, number, string, "true", "false", "null", "undefined"]⟩,
  ⟨signedNumber, ranked (some (.value 1)) (some .left) (seq [oneOf ["-", "+"], number])⟩,
  ⟨existentialType, "*"⟩,
  ⟨unionType, leftIn .union (seq [optional type, "|", type])⟩,
  ⟨intersectionType, leftIn .intersection (seq [optional type, "&", type])⟩,
  ⟨conditionalType,
    rightIn .conditionalType (seq [type, "extends", type, conditionMark, type, ":", type])⟩,
  ⟨inferType, right (seq ["infer", typeName, optional (seq ["extends", type])])⟩,
  ⟨readonlyType, seq ["readonly", type]⟩,
  ⟨maybeType, right (seq ["?", primaryType])⟩,
  ⟨arrayType, seq [primaryType, "[", "]"]⟩,
  ⟨tupleType, seq ["[", list tupleMember, optional ",", "]"]⟩,
  ⟨tupleMember, oneOf [tupleParameter, optionalTupleParameter, optionalType, restType, type]⟩,
  ⟨tupleParameter, seq [oneOf [name, restPattern], typeAscription]⟩,
  ⟨optionalTupleParameter, seq [name, "?", typeAscription]⟩,
  ⟨optionalType, seq [type, "?"]⟩,
  ⟨restType, seq ["...", type]⟩,
  ⟨lookupType, seq [primaryType, "[", type, "]"]⟩,
  ⟨keyQuery, seq ["keyof", primaryType]⟩,
  ⟨typeQuery,
    right (seq [
      "typeof",
      oneOf [queriedElement, queriedMember, queriedCall, queriedInstance, name, "this"]])⟩,
  ⟨queriedMember,
    seq [
      oneOf [name, "this", queriedElement, queriedMember, queriedCall], oneOf [".", "?."],
      oneOf [privateName, name]]⟩,
  ⟨queriedElement,
    seq [
      oneOf [name, "this", queriedElement, queriedMember, queriedCall], optional "?.", "[",
      oneOf [predefinedType, string, number], "]"]⟩,
  ⟨queriedCall, seq [oneOf [importWord, name, queriedMember, queriedElement], arguments]⟩,
  ⟨queriedInstance, seq [oneOf [importWord, name, queriedMember, queriedElement], typeArguments]⟩,
  ⟨templateType, seq [backquote, many (oneOf [templateText, embeddedType]), backquote]⟩,
  ⟨embeddedType, seq [openSubstitution, oneOf [primaryType, inferType], closeBrace]⟩,
  ⟨functionType,
    left (seq [optional typeParameters, parameters, "=>", oneOf [type, assertion, typePredicate]])⟩,
  ⟨constructorType,
    left (seq [optional "abstract", "new", optional typeParameters, parameters, "=>", type])⟩,
  ⟨objectType,
    seq [
      oneOf [openBrace, openExact],
      optional (seq [
        optional (oneOf [",", ";"]),
        separated (oneOf [",", statementEnd]) (oneOf [
          exportStatement, propertySignature, callMember, constructMember, indexSignature,
          methodSignature]),
        optional (oneOf [",", statementEnd])]),
      oneOf [closeBrace, closeExact]]⟩,
  ⟨propertySignature,
    seq [
      optional accessModifier, optional "static", optional overrideModifier, optional "readonly",
      propertyName, optional "?", optional typeAscription]⟩,
  ⟨callMember, callSignature⟩,
  ⟨constructMember,
    seq [optional "abstract", "new", optional typeParameters, parameters, optional typeAscription]⟩,
  ⟨indexSignature,
    seq [
      optional (seq [optional (oneOf ["-", "+"]), "readonly"]), "[",
      oneOf [seq [oneOf [name, contextualWord], ":", type], mappedTypeClause], "]",
      oneOf [typeAscription, omittingAscription, addingAscription, optionalAscription]]⟩,
  ⟨mappedTypeClause, seq [typeName, "in", type, optional (seq ["as", type])]⟩]

end ImportUsage.Grammar.Typed
