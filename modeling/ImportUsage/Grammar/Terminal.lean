/-! The tokens of source text. -/

namespace ImportUsage

inductive Terminal
  /-- A keyword or a punctuation mark. -/
  | literal (text : String)
  | name
  | privateName
  | number
  | string
  | regex
  /-- The text of a template between its quotes and embedded expressions. -/
  | templateText
  | escape
  /-- The end of a statement that needs no semicolon. -/
  | lineEnd
  /-- The end of a function signature that needs no semicolon. -/
  | signatureEnd
  /-- The question mark of a conditional. -/
  | conditionMark
  /-- A name with a hyphen. -/
  | markupName
  | markupString
  | markupText
  | characterReference
  /-- The words `static get` with a line break after them. -/
  | staticGetLine
  | endOfText
deriving DecidableEq, Hashable

end ImportUsage
