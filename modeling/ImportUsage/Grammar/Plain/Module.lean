import ImportUsage.Grammar.Rule

/-! Imports and exports. -/

namespace ImportUsage.Grammar.Plain

open Rule Construct
open Terminal (name string)

def moduleRules : List Definition := [
  ⟨exportStatement,
    oneOf [
      seq [
        "export",
        oneOf [
          seq ["*", fromClause], seq [namespaceExport, fromClause], seq [exportClause, fromClause],
          exportClause],
        statementEnd],
      seq [
        many decorator, "export",
        oneOf [
          declaration, seq ["default", oneOf [declaration, seq [expression, statementEnd]]]]]]⟩,
  ⟨namespaceExport, seq ["*", "as", exportName]⟩,
  ⟨exportClause, seq [openBrace, list exportSpecifier, optional ",", closeBrace]⟩,
  ⟨exportSpecifier, seq [exportName, optional (seq ["as", exportName])]⟩,
  ⟨exportName, oneOf [name, string]⟩,
  ⟨importWord, "import"⟩,
  ⟨importStatement,
    seq [
      "import", oneOf [seq [importClause, fromClause], string], optional importAttribute,
      statementEnd]⟩,
  ⟨importClause,
    oneOf [
      namespaceImport, namedImports,
      seq [name, optional (seq [",", oneOf [namespaceImport, namedImports]])]]⟩,
  ⟨fromClause, seq ["from", string]⟩,
  ⟨namespaceImport, seq ["*", "as", name]⟩,
  ⟨namedImports, seq [openBrace, list importSpecifier, optional ",", closeBrace]⟩,
  ⟨importSpecifier, oneOf [name, seq [exportName, "as", name]]⟩,
  ⟨importAttribute, seq ["with", object]⟩]

end ImportUsage.Grammar.Plain
