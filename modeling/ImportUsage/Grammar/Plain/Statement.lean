import ImportUsage.Grammar.Rule

/-! Statements. -/

namespace ImportUsage.Grammar.Plain

open Rule Construct
open Terminal (name lineEnd)

def statementRules : List Definition := [
  ⟨program, repetition statement⟩,
  ⟨statement,
    oneOf [
      exportStatement, importStatement, debuggerStatement, expressionStatement, declaration, block,
      ifStatement, switchStatement, forStatement, forInStatement, whileStatement, doStatement,
      tryStatement, withStatement, breakStatement, continueStatement, returnStatement,
      throwStatement, emptyStatement, labeledStatement]⟩,
  ⟨declaration,
    oneOf [
      functionDeclaration, generatorDeclaration, classDeclaration, lexicalDeclaration,
      variableDeclaration]⟩,
  ⟨expressionStatement, seq [expressions, statementEnd]⟩,
  ⟨variableDeclaration, seq ["var", listed variableDeclarator, statementEnd]⟩,
  ⟨lexicalDeclaration, seq [oneOf ["let", "const"], listed variableDeclarator, statementEnd]⟩,
  ⟨variableDeclarator, seq [oneOf [name, destructuringPattern], optional initializer]⟩,
  ⟨block, right (seq [openBrace, many statement, closeBrace, optional lineEnd])⟩,
  ⟨ifStatement, right (seq ["if", parenthesized, statement, optional elseClause])⟩,
  ⟨elseClause, seq ["else", statement]⟩,
  ⟨switchStatement, seq ["switch", parenthesized, switchBody]⟩,
  ⟨switchBody, seq [openBrace, many (oneOf [switchCase, switchDefault]), closeBrace]⟩,
  ⟨switchCase, seq ["case", expressions, ":", many statement]⟩,
  ⟨switchDefault, seq ["default", ":", many statement]⟩,
  ⟨forStatement,
    seq [
      "for", "(",
      oneOf [lexicalDeclaration, variableDeclaration, seq [expressions, ";"], emptyStatement],
      oneOf [seq [expressions, ";"], emptyStatement], optional expressions, ")", statement]⟩,
  ⟨forInStatement, seq ["for", optional "await", forHeader, statement]⟩,
  ⟨forHeader,
    seq [
      "(",
      oneOf [
        assignable, parenthesized,
        seq ["var", oneOf [name, destructuringPattern], optional initializer],
        seq [oneOf ["let", "const"], oneOf [name, destructuringPattern], optional lineEnd]],
      oneOf ["in", "of"], expressions, ")"]⟩,
  ⟨whileStatement, seq ["while", parenthesized, statement]⟩,
  ⟨doStatement, right (seq ["do", statement, "while", parenthesized, optional statementEnd])⟩,
  ⟨tryStatement, seq ["try", block, optional catchClause, optional finallyClause]⟩,
  ⟨catchClause,
    seq ["catch", optional (seq ["(", oneOf [name, destructuringPattern], ")"]), block]⟩,
  ⟨finallyClause, seq ["finally", block]⟩,
  ⟨withStatement, seq ["with", parenthesized, statement]⟩,
  ⟨breakStatement, seq ["break", optional name, statementEnd]⟩,
  ⟨continueStatement, seq ["continue", optional name, statementEnd]⟩,
  ⟨debuggerStatement, seq ["debugger", statementEnd]⟩,
  ⟨returnStatement, seq ["return", optional expressions, statementEnd]⟩,
  ⟨throwStatement, seq ["throw", expressions, statementEnd]⟩,
  ⟨emptyStatement, ";"⟩,
  ⟨labeledStatement, seq [oneOf [name, contextualWord], ":", statement]⟩,
  ⟨statementEnd, oneOf [lineEnd, ";"]⟩]

end ImportUsage.Grammar.Plain
