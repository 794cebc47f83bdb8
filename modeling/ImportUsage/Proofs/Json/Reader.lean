import ImportUsage.Json.Value
import ImportUsage.Proofs.Text.Transduce

/-! A reader of JSON texts, first from characters to tokens and then from tokens to a value. Of the
values it knows those that reports are made of: a text with a null, a fraction or a negative number
is refused like one that is no JSON at all. -/

namespace ImportUsage.Json

inductive Token
  | mark (c : Char)
  | text (s : String)
  | number (n : Nat)
  | word (s : String)
deriving DecidableEq, Repr

/- What the reader is in, with the characters of it read so far, the last one first. A character
outside the basic plane may be given by two codes, the first of which is `high`. -/
inductive Mode
  | between
  | inNumber (n : Nat)
  | inWord (read : List Char)
  | inText (read : List Char)
  | escape (read : List Char)
  | code (read : List Char) (high : Option Nat) (count value : Nat)
  | half (read : List Char) (high : Nat)
  | halfEscape (read : List Char) (high : Nat)
deriving DecidableEq, Repr

def isBlank (c : Char) : Bool := c = ' ' || c = '\t' || c = '\n' || c = '\r'

def marks : List Char := ['{', '}', '[', ']', ':', ',']

def hexValue? (c : Char) : Option Nat :=
  if c.isDigit then some (c.toNat - '0'.toNat)
  else if 'a' ≤ c ∧ c ≤ 'f' then some (c.toNat - 'a'.toNat + 10)
  else if 'A' ≤ c ∧ c ≤ 'F' then some (c.toNat - 'A'.toNat + 10)
  else none

/-- What a letter or mark after a backslash stands for. -/
def escapes : List (Char × Char) :=
  [('"', '"'), ('\\', '\\'), ('/', '/'), ('b', '\x08'), ('f', '\x0c'), ('n', '\n'), ('r', '\r'),
    ('t', '\t')]

namespace Mode

def start (c : Char) : Option (List Token × Mode) :=
  if isBlank c then some ([], .between)
  else if c ∈ marks then some ([.mark c], .between)
  else if c = '"' then some ([], .inText [])
  else if c.isDigit then some ([], .inNumber (c.toNat - '0'.toNat))
  else if c.isLower then some ([], .inWord [c])
  else none

/-- Takes a code, whose four digits have been read. -/
def take (read : List Char) (high : Option Nat) (value : Nat) : Option Mode :=
  let isHigh := 0xD800 ≤ value ∧ value < 0xDC00
  let isLow := 0xDC00 ≤ value ∧ value < 0xE000
  match high with
  | none =>
    if isHigh then some (.half read value)
    else if isLow then none
    else some (.inText (Char.ofNat value :: read))
  | some first =>
    if isLow then
      some (.inText (Char.ofNat (0x10000 + (first - 0xD800) * 0x400 + (value - 0xDC00)) :: read))
    else none

def step : Mode → Char → Option (List Token × Mode)
  | .between, c => start c
  | .inNumber n, c =>
    if c.isDigit then
      -- a number with more than one digit does not begin with a zero
      if n = 0 then none else some ([], .inNumber (10 * n + (c.toNat - '0'.toNat)))
    else (start c).map fun (ts, next) => (.number n :: ts, next)
  | .inWord read, c =>
    if c.isLower then some ([], .inWord (c :: read))
    else (start c).map fun (ts, next) => (.word (String.ofList read.reverse) :: ts, next)
  | .inText read, c =>
    if c = '"' then some ([.text (String.ofList read.reverse)], .between)
    else if c = '\\' then some ([], .escape read)
    else if c.toNat < 32 then none
    else some ([], .inText (c :: read))
  | .escape read, c =>
    if c = 'u' then some ([], .code read none 0 0)
    else (escapes.lookup c).map fun d => ([], .inText (d :: read))
  | .code read high count value, c => do
    let value := 16 * value + (← hexValue? c)
    if count < 3 then some ([], .code read high (count + 1) value)
    else (take read high value).map fun next => ([], next)
  | .half read high, c => if c = '\\' then some ([], .halfEscape read high) else none
  | .halfEscape read high, c => if c = 'u' then some ([], .code read (some high) 0 0) else none

end Mode

/-- What is open around a value, with what came before it, the last one first. -/
inductive Context
  | top
  | list (before : List JsonValue) (outer : Context)
  | object (before : List (String × JsonValue)) (key : String) (outer : Context)

inductive State
  | value (k : Context)
  | firstItem (k : Context)
  | firstKey (k : Context)
  | key (before : List (String × JsonValue)) (k : Context)
  | colon (before : List (String × JsonValue)) (key : String) (k : Context)
  | after (v : JsonValue) (k : Context)

namespace State

/-- Begins a value, or takes it whole. -/
def start (k : Context) : Token → Option State
  | .mark '[' => some (.firstItem k)
  | .mark '{' => some (.firstKey k)
  | .text s => some (.after (.text s) k)
  | .number n => some (.after (.number n) k)
  | .word "true" => some (.after (.flag true) k)
  | .word "false" => some (.after (.flag false) k)
  | _ => none

def step : State → Token → Option State
  | .value k, t => start k t
  | .firstItem k, t => if t = .mark ']' then some (.after (.list []) k) else start (.list [] k) t
  | .firstKey k, .mark '}' => some (.after (.object []) k)
  | .firstKey k, .text s => some (.colon [] s k)
  | .key before k, .text s => some (.colon before s k)
  | .colon before name k, .mark ':' => some (.value (.object before name k))
  | .after v (.list before k), .mark ',' => some (.value (.list (v :: before) k))
  | .after v (.list before k), .mark ']' => some (.after (.list (v :: before).reverse) k)
  | .after v (.object before name k), .mark ',' => some (.key ((name, v) :: before) k)
  | .after v (.object before name k), .mark '}' =>
    some (.after (.object ((name, v) :: before).reverse) k)
  | _, _ => none

def result? : State → Option JsonValue
  | .after v .top => some v
  | _ => none

end State

/-- The value of a text. The end of the text counts as a blank. -/
def read? (text : String) : Option JsonValue := do
  let (tokens, mode) ← transduce Mode.step .between (text.toList ++ ['\n'])
  if mode = .between then
    (← tokens.foldlM State.step (.value .top)).result?
  else none

end ImportUsage.Json
