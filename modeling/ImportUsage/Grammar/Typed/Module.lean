import ImportUsage.Grammar.Rule

/-! Imports and exports where types may be imported and exported too. -/

namespace ImportUsage.Grammar.Typed

open Rule Construct
open Terminal (name string)

def moduleRules : List Definition := [
  ⟨exportStatement,
    oneOf [
      seq [
        "export",
        oneOf [
          seq ["*", fromClause], seq [namespaceExport, fromClause], seq [exportClause, fromClause],
          exportClause],
        statementEnd],
      seq [
        many decorator, "export",
        oneOf [
          declaration, seq ["default", oneOf [declaration, seq [expression, statementEnd]]]]],
      seq ["export", "type", exportClause, optional fromClause, statementEnd],
      seq ["export", "=", expression, statementEnd],
      seq ["export", "as", "namespace", name, statementEnd]]⟩,
  ⟨exportSpecifier,
    seq [optional (oneOf ["type", "typeof"]), exportName, optional (seq ["as", exportName])]⟩,
  ⟨importStatement,
    seq [
      "import", optional (oneOf ["type", "typeof"]),
      oneOf [seq [importClause, fromClause], importRequire, string], optional importAttribute,
      statementEnd]⟩,
  ⟨importClause,
    oneOf [
      namespaceImport, namedImports,
      seq [importName, optional (seq [",", oneOf [namespaceImport, namedImports]])]]⟩,
  ⟨importSpecifier,
    seq [
      optional (oneOf ["type", "typeof"]),
      oneOf [importName, seq [oneOf [exportName, "type"], "as", importName]]]⟩,
  ⟨importName, oneOf [name, "type"]⟩,
  ⟨importAttribute, seq [oneOf ["with", "assert"], object]⟩,
  ⟨importRequire, seq [name, "=", "require", "(", string, ")"]⟩,
  ⟨importAlias, seq ["import", name, "=", oneOf [name, dottedName], statementEnd]⟩]

end ImportUsage.Grammar.Typed
