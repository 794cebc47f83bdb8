import ImportUsage.Lexical.Word

/-! Markup: the names, strings and texts of elements. -/

namespace ImportUsage

/-- A character of a name in markup, hyphens apart. -/
def isMarkupChar (c : Char) : Bool := isLetter c || isDecimal c || c = '_' || c = '$'

def markupNameSize : Text → Nat
  | c :: s =>
    if isMarkupChar c && !isDecimal c then
      let n := 1 + sizeWhile isMarkupChar s
      match (c :: s).drop n with
      | '-' :: t => n + 1 + sizeWhile (fun d => isMarkupChar d || d = '-') t
      | _ => 0
    else 0
  | [] => 0

/-- The size of a run of one to `limit` characters of a class with a semicolon behind it. -/
def referenceTail (p : Char → Bool) (limit : Nat) (s : Text) : Nat :=
  let n := sizeWhile p (s.take limit)
  if n ≠ 0 && (s.drop n).head? = some ';' then n + 1 else 0

/-- The size of a character reference: a name or a number between `&` and `;`. -/
def referenceSize : Text → Nat
  | '&' :: '#' :: c :: s =>
    if c = 'x' || c = 'X' then plus 3 (referenceTail isHexDigit 6 s)
    else plus 2 (referenceTail isDecimal 5 (c :: s))
  | '&' :: s => plus 1 (referenceTail isLetter 30 s)
  | _ => 0
where
  plus (k n : Nat) : Nat := if n = 0 then 0 else k + n

/-- The size of the comments `<!--` and `-->` that begin here, within the bound. -/
def markupCommentsWithin : Bound → Text → Nat
  | [], _ => 0
  | _ :: bound, s =>
    match afterBlanks (fun c => isSpace c || isLineFeed c) markupCommentSize s with
    | 0 => 0
    | n => n + markupCommentsWithin bound (s.drop n)

/-- Where the reading of a string in markup stands: how many of the next characters belong to
something already known. -/
inductive MarkupPart
  | text (pending : Nat)
  | reference (pending : Nat)

/-- The size of a string in markup of which `n` characters are read, up to and with its closing
quote. It may hold character references, and any `&` that cannot begin one. Comments `<!--` and
`-->` are no part of its text at the front and behind a reference. -/
def markupStringTail (quote : Char) (n : Nat) : MarkupPart → Text → Nat
  | _, [] => 0
  | .text (pending + 1), _ :: s => markupStringTail quote (n + 1) (.text pending) s
  | .reference (pending + 1), _ :: s => markupStringTail quote (n + 1) (.reference pending) s
  | .reference 0, _ :: s =>
    markupStringTail quote (n + 1) (.text (markupCommentsWithin s s)) s
  | .text 0, c :: s =>
    if c = quote then n + 1
    else if isNull c then 0
    else if c = '&' then
      match referenceSize (c :: s), s with
      | m + 2, _ => markupStringTail quote (n + 1) (.reference m) s
      | _, d :: _ =>
        if isLetter d || d = '#' || isNull d then 0
        else markupStringTail quote (n + 1) (.text 1) s
      | _, [] => 0
    else markupStringTail quote (n + 1) (.text 0) s

def markupStringSize : Text → Nat
  | c :: s =>
    if c = '"' || c = '\x27' then markupStringTail c 1 (.text (markupCommentsWithin s s)) s else 0
  | [] => 0

/-- The size of the text of an element of which `n` characters are read. Blanks alone count only as
far as no line feed stands before them: `visible` tells whether something counted, `fresh` whether
there are only blanks since a line feed. -/
def markupTextTail (n : Nat) (visible fresh : Bool) : Text → Nat
  | [] => if visible then n else 0
  | c :: s =>
    if isNull c || c = '<' || c = '>' || c = '{' || c = '}' || c = '&' then
      if visible then n else 0
    else if c = '\n' then markupTextTail (n + 1) visible true s
    else
      let fresh := fresh && isSpace c
      markupTextTail (n + 1) (visible || !fresh) fresh s

def markupTextSize (s : Text) : Nat := markupTextTail 0 false false s

/-- The size of the text of a template of which `n` characters are read, up to its closing quote, an
escape or an embedded expression. -/
def templateTextTail (n : Nat) : Text → Nat
  | [] => 0
  | '$' :: '{' :: _ => n
  | c :: s =>
    if isNull c then 0 else if c = '\x60' || c = '\\' then n else templateTextTail (n + 1) s

def templateTextSize (s : Text) : Nat := templateTextTail 0 s

end ImportUsage
