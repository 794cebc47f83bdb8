import ImportUsage.Lexical.Word

/-! Literals: strings, numbers, regular expressions. Each reader begins at the first character
of the literal and tells its size. -/

namespace ImportUsage

def isOctal (c : Char) : Bool := '0' ≤ c && c ≤ '7'

/-- The size of an escape of a string or template, from its backslash on. -/
def escapeSize : Text → Nat
  | '\\' :: c :: s =>
    if isNull c then 0
    else if c = 'x' then if 2 ≤ sizeWhile isHexDigit (s.take 2) then 4 else 0
    else if c = 'u' then codePointSize ('\\' :: c :: s)
    else if isOctal c then 2 + sizeWhile isOctal (s.take 2)
    else if (c = '\r' || c = '?') && (s.head?.map isLineFeed).getD false then 3
    else 2
  | _ => 0

inductive StringPart
  /-- Inside, where the next `pending` characters belong to an escape or a comment. -/
  | inside (pending : Nat)
  /-- After a line break. -/
  | lineBreak

/-- The size of a string of which `n` characters are read, up to and with its closing quote. After a
line break only blanks may stand before that quote, but after a comment the string goes on. -/
def stringTail (quote : Char) (n : Nat) : StringPart → Text → Nat
  | _, [] => 0
  | .inside (pending + 1), _ :: s => stringTail quote (n + 1) (.inside pending) s
  | .inside 0, c :: s =>
    if c = quote then n + 1
    else if isNull c then 0
    else if c = '\\' then
      match escapeSize (c :: s) with
      | 0 => 0
      | m + 1 => stringTail quote (n + 1) (.inside m) s
    else if c = '\n' || c = '\r' then stringTail quote (n + 1) .lineBreak s
    else stringTail quote (n + 1) (.inside 0) s
  | .lineBreak, c :: s =>
    if c = quote then n + 1
    else if isBlank c then stringTail quote (n + 1) .lineBreak s
    else match commentSize (c :: s) with
      | 0 => 0
      | m + 1 => stringTail quote (n + 1) (.inside m) s

def stringSize : Text → Nat
  | c :: s => if c = '"' || c = '\x27' then stringTail c 1 (.inside 0) s else 0
  | [] => 0

/-- The size of digits of one class; single underscores may stand between them. -/
def digitsTail (digit : Char → Bool) (n : Nat) : Text → Nat
  | '_' :: c :: s => if digit c then digitsTail digit (n + 2) s else n
  | c :: s => if digit c then digitsTail digit (n + 1) s else n
  | [] => n

def digitsSize (digit : Char → Bool) : Text → Nat
  | c :: s => if digit c then digitsTail digit 1 s else 0
  | [] => 0

def exponentSize : Text → Nat
  | e :: s =>
    if e = 'e' || e = 'E' then
      let sign := if s.head? = some '+' || s.head? = some '-' then 1 else 0
      match digitsSize isDecimal (s.drop sign) with
      | 0 => 0
      | n => 1 + sign + n
    else 0
  | [] => 0

def radixSize (digit : Char → Bool) (s : Text) : Nat :=
  match digitsSize digit (s.drop 2) with
  | 0 => 1
  | n => if (s.drop (2 + n)).head? = some 'n' then n + 3 else n + 2

/-- The size of a number in decimal digits. A point or an exponent belongs to it unless the digits
begin with two zeros, or with a zero and an underscore. -/
def decimalSize (s : Text) : Nat :=
  match digitsSize isDecimal s with
  | 0 => 0
  | n =>
    let simple := match s with
      | '0' :: '0' :: _ => false
      | '0' :: '_' :: _ => false
      | _ => true
    match s.drop n with
    | 'n' :: _ => n + 1
    | '.' :: t =>
      if simple then
        let m := digitsSize isDecimal t
        n + 1 + m + exponentSize (t.drop m)
      else n
    | t => if simple then n + exponentSize t else n

def numberSize : Text → Nat
  | '0' :: c :: s =>
    if c = 'x' || c = 'X' then radixSize isHexDigit ('0' :: c :: s)
    else if c = 'b' || c = 'B' then radixSize (fun d => d = '0' || d = '1') ('0' :: c :: s)
    else if c = 'o' || c = 'O' then radixSize isOctal ('0' :: c :: s)
    else decimalSize ('0' :: c :: s)
  | '.' :: s =>
    match digitsSize isDecimal s with
    | 0 => 0
    | n => 1 + n + exponentSize (s.drop n)
  | s => decimalSize s

/-- The size of a regular expression of which `n` characters are read, up to and with its closing
slash; a slash inside a bracketed class does not close it. -/
def regexTail (n : Nat) (inClass : Bool) : Text → Nat
  | '\\' :: c :: s => if c = '\n' || isNull c then 0 else regexTail (n + 2) inClass s
  | c :: s =>
    if c = '\n' || c = '\\' || isNull c then 0
    else if inClass then regexTail (n + 1) (c ≠ ']') s
    else if c = '/' then n + 1
    else regexTail (n + 1) (c = '[') s
  | [] => 0

def regexSize : Text → Nat
  | '/' :: c :: s =>
    if c = '/' then 0
    else match regexTail 1 false (c :: s) with
      | 0 => 0
      | n => n + sizeWhile (fun d => 'a' ≤ d && d ≤ 'z') (('/' :: c :: s).drop n)
  | _ => 0

end ImportUsage
