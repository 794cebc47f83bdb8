import ImportUsage.Lexical.Text

/-! Words: names and keywords have one form, and the grammar decides which a word is. -/

namespace ImportUsage

def isHexDigit (c : Char) : Bool :=
  ('0' ≤ c && c ≤ '9') || ('a' ≤ c && c ≤ 'f') || ('A' ≤ c && c ≤ 'F')

def isDecimal (c : Char) : Bool := '0' ≤ c && c ≤ '9'

def isLetter (c : Char) : Bool := ('a' ≤ c && c ≤ 'z') || ('A' ≤ c && c ≤ 'Z')

/-- Characters that end a word although they are no blanks. -/
def punctuation : List Char :=
  [':', ';', '\x60', '"', '\x27', '@', '#', '.', ',', '|', '^', '&', '<', '=', '>', '+', '-', '*',
    '/', '\\', '%', '?', '!', '~', '(', ')', '[', ']', '{', '}']

def isWordChar (c : Char) : Bool :=
  32 ≤ c.toNat && !isBlank c && !punctuation.contains c

/-- The size of an escape by code point, `\uXXXX` or `\u{X...}`. -/
def codePointSize : Text → Nat
  | '\\' :: 'u' :: '{' :: s =>
    let n := sizeWhile isHexDigit s
    if n ≠ 0 && (s.drop n).head? = some '}' then n + 4 else 0
  | '\\' :: 'u' :: s => if 4 ≤ sizeWhile isHexDigit (s.take 4) then 6 else 0
  | _ => 0

/-- The size of a word of which `n` characters are read, where the next `pending` characters
belong to an escape. -/
def wordTail (n : Nat) : Nat → Text → Nat
  | _, [] => n
  | pending + 1, _ :: s => wordTail (n + 1) pending s
  | 0, c :: s =>
    if isWordChar c then wordTail (n + 1) 0 s
    else match codePointSize (c :: s) with
      | 0 => n
      | m + 1 => wordTail (n + 1) m s

def wordSize : Text → Nat
  | [] => 0
  | c :: s => if isDecimal c then 0 else wordTail 0 0 (c :: s)

end ImportUsage
