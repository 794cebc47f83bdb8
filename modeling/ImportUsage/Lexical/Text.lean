/-! Source text and the gaps between its tokens. Text is read from the front, so a place in
it is the text that remains there. A gap is a run of blanks and comments. Readers tell how many
characters they take: nothing is taken where they do not fit. -/

namespace ImportUsage

abbrev Text := List Char

/-- A blank of the ASCII range: tab, line feed, vertical tab, form feed, carriage return, space. -/
def isSpace (c : Char) : Bool :=
  c = ' ' || (9 ≤ c.toNat && c.toNat ≤ 13)

def isBlank (c : Char) : Bool :=
  isSpace c ||
  [0xA0, 0x1680, 0x2028, 0x2029, 0x202F, 0x205F, 0x2060, 0x3000, 0xFEFF].contains c.toNat ||
  (0x2000 ≤ c.toNat && c.toNat ≤ 0x200B)

/-- The separators that end a line: line feed, line separator, paragraph separator. -/
def isLineFeed (c : Char) : Bool :=
  c = '\n' || c.toNat = 0x2028 || c.toNat = 0x2029

/-- The character that belongs to no token and no comment. -/
def isNull (c : Char) : Bool := c.toNat = 0

/-- What ends a `//` comment. -/
def endsComment (c : Char) : Bool :=
  c = '\r' || isLineFeed c || isNull c

/-- What ends a `<!--` comment. -/
def endsMarkupComment (c : Char) : Bool :=
  isLineFeed c || isNull c

/-- The number of characters in front that satisfy `p`. -/
def sizeWhile (p : Char → Bool) (s : Text) : Nat := (s.takeWhile p).length

/-- The size of a block comment whose inside begins here and of which `n` characters are read. -/
def blockCommentSize (n : Nat) : Text → Nat
  | [] => 0
  | '*' :: '/' :: _ => n + 2
  | c :: s => if isNull c then 0 else blockCommentSize (n + 1) s

/-- The size of the comment that begins here. A block comment has to be closed. -/
def commentSize : Text → Nat
  | '/' :: '/' :: s => 2 + sizeWhile (fun c => !endsComment c) s
  | '/' :: '*' :: s => blockCommentSize 2 s
  | _ => 0

/-- The size of the comment that begins here with `<!--` or `-->`. -/
def markupCommentSize : Text → Nat
  | '<' :: '!' :: '-' :: '-' :: s => 4 + sizeWhile (fun c => !endsMarkupComment c) s
  | '-' :: '-' :: '>' :: s => 3 + sizeWhile (fun c => !endsMarkupComment c) s
  | _ => 0

/-- The size of what `reader` takes after blanks, together with the blanks. -/
def afterBlanks (blank : Char → Bool) (reader : Text → Nat) (s : Text) : Nat :=
  let n := sizeWhile blank s
  let m := reader (s.drop n)
  if m = 0 then 0 else n + m

/-- The size of the next comment with the blanks before it. Comments `<!--` and `-->` count
only with `markup`, and not after a blank beyond the ASCII range. -/
def nextComment (markup : Bool) (s : Text) : Nat :=
  let m := if markup then
    afterBlanks (fun c => isSpace c || isLineFeed c) markupCommentSize s else 0
  if m = 0 then afterBlanks isBlank commentSize s else m

/-- A limit on the number of steps of a loop, as a text: one step for each character. A reader
that takes at least one character in a step is limited by the text it reads. -/
abbrev Bound := Text

/-- Skips comments, and then blanks, within the bound. -/
def skipWithin : Bound → Text → Text
  | [], s => s.dropWhile isBlank
  | _ :: bound, s =>
    match nextComment true s with
    | 0 => s.dropWhile isBlank
    | n => skipWithin bound (s.drop n)

def skip (s : Text) : Text := skipWithin s s

/-- Removes `front` from the front of the text. -/
def after? : Text → Text → Option Text
  | [], s => some s
  | _ :: _, [] => none
  | c :: front, d :: s => if c = d then after? front s else none

def beginsWith (front s : Text) : Bool := (after? front s).isSome

def lineFeeds (s : Text) : Nat := s.count '\n'

/-- The number of lines between two places of a text, each given by what remains there. -/
def linesBetween (s t : Text) : Nat := lineFeeds s - lineFeeds t

structure Place where
  /-- The number of characters read. -/
  offset : Nat
  /-- The number of the line, from 1. -/
  line : Nat
  rest : Text

def Place.start (s : Text) : Place := ⟨0, 1, s⟩

/-- The place after `n` more characters. -/
def Place.advance : Nat → Place → Place
  | n + 1, ⟨offset, line, c :: s⟩ =>
    Place.advance n ⟨offset + 1, if c = '\n' then line + 1 else line, s⟩
  | _, p => p

end ImportUsage
