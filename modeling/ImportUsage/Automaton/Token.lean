import ImportUsage.Automaton.State
import ImportUsage.Lexical.LineEnd
import ImportUsage.Lexical.Literal
import ImportUsage.Lexical.Markup

/-! Tokens. What a token is depends on the state: only what the state expects is looked for, and
of that the longest is taken. -/

namespace ImportUsage

structure Token where
  terminal : Terminal
  start : Place
  size : Nat

namespace Token

def stop (t : Token) : Place := t.start.advance t.size

def text (t : Token) : String := String.ofList (t.start.rest.take t.size)

def same (t u : Token) : Bool :=
  t.terminal = u.terminal && t.start.offset = u.start.offset && t.size = u.size

def isKeyword (t : Token) : Bool :=
  match t.terminal with
  | .literal s => s.toList.any isLetter
  | _ => false

end Token

structure Expectation where
  dialect : Dialect
  marks : List Text
  expects : Terminal → Bool

namespace Expectation

/-- The question mark of a conditional, if one stands after `n` characters. -/
def condition? (e : Expectation) (p : Place) (n : Nat) : Option Token :=
  (conditionMark? e.dialect (p.rest.drop n)).map fun m =>
    ⟨.conditionMark, p.advance (n + m), 1⟩

/-- The end of a statement, if one is expected and the statement ends here. If it goes on, a
question mark may be what makes it go on. -/
def ending? (e : Expectation) (p : Place) : Option Token :=
  let outlook : Outlook :=
    ⟨e.dialect, e.expects (.literal "||"), e.expects .signatureEnd⟩
  match outlook.look p.rest with
  | .ends => some ⟨if e.expects .lineEnd then .lineEnd else .signatureEnd, p, 0⟩
  | .goesOn n commented =>
    if !commented && e.expects .conditionMark && (p.rest.drop n).head? = some '?' then
      e.condition? p n
    else none

/-- Tokens in which blanks and comments mean something, if the state expects them. -/
def special? (e : Expectation) (p : Place) : Option Token :=
  if e.expects .templateText then
    if e.expects .lineEnd then none else token? .templateText (templateTextSize p.rest)
  else
    match if e.expects .markupText then token? .markupText (markupTextSize p.rest) else none with
    | some t => some t
    | none =>
      if e.expects .lineEnd || e.expects .signatureEnd then e.ending? p
      else if e.expects .conditionMark then e.condition? p 0
      else none
where
  token? (t : Terminal) (n : Nat) : Option Token := if n = 0 then none else some ⟨t, p, n⟩

/-- Do comments `<!--` and `-->` count here? They do not where an operator may stand. -/
def takesMarkupComments (e : Expectation) : Bool :=
  !(e.expects .templateText || e.expects .lineEnd || e.expects .signatureEnd ||
    e.expects .conditionMark || e.expects (.literal "||") || e.expects .escape)

def markSize? (e : Expectation) (s : Text) : Option (Terminal × Nat) :=
  e.marks.findSome? fun mark =>
    if beginsWith mark s then
      let t := Terminal.literal (String.ofList mark)
      if e.expects t then some (t, mark.length) else none
    else none

/-- The word in front of a text: a keyword if it is expected as one, else a name. -/
def word? (e : Expectation) (s : Text) : Option (Terminal × Nat) :=
  match wordSize s with
  | 0 => none
  | n =>
    let keyword := Terminal.literal (String.ofList (s.take n))
    some (if e.expects keyword then keyword else .name, n)

/-- The size of the words `static get` with a line break after them. -/
def staticGetLineSize (s : Text) : Nat :=
  match after? ['s', 't', 'a', 't', 'i', 'c'] s with
  | none => 0
  | some t =>
    let n := sizeWhile isBlank t
    match if n = 0 then none else after? ['g', 'e', 't'] (t.drop n) with
    | none => 0
    | some u =>
      let blanks := u.takeWhile isBlank
      if blanks.contains '\n' then 9 + n + blanks.length else 0

/-- The longer of two tokens, the first of two that are equally long. -/
def longer : Option (Terminal × Nat) → Option (Terminal × Nat) → Option (Terminal × Nat)
  | none, b => b
  | a, none => a
  | some (t, n), some (u, m) => if n < m then some (u, m) else some (t, n)

def longest? (e : Expectation) (s : Text) : Option (Terminal × Nat) :=
  [(Terminal.number, numberSize), (.string, stringSize), (.markupString, markupStringSize),
    (.regex, regexSize), (.characterReference, referenceSize), (.privateName, privateNameSize)]
  |>.foldl (fun best (t, size) => longer best (class? t size)) (e.markSize? s)
  |> (longer · (e.word? s))
  |> (longer · (class? .markupName markupNameSize))
  |> (longer · (class? .staticGetLine staticGetLineSize))
where
  class? (t : Terminal) (size : Text → Nat) : Option (Terminal × Nat) :=
    if e.expects t then
      match size s with
      | 0 => none
      | n => some (t, n)
    else none
  privateNameSize : Text → Nat
    | '#' :: t => if wordSize t = 0 then 0 else 1 + wordSize t
    | _ => 0

/-- Reads a token after a gap, within the bound. If there is none that could be meant, the result
is the place after the gap. -/
def readWithin (e : Expectation) : Bound → Place → Except Place Token
  | [], p => .error p
  | _ :: bound, p =>
    match e.special? p with
    | some t => .ok t
    | none =>
      let escape := if e.expects .escape then escapeSize p.rest else 0
      if escape ≠ 0 then .ok ⟨.escape, p, escape⟩
      else match nextComment e.takesMarkupComments p.rest with
        | 0 =>
          let q := p.advance (sizeWhile isBlank p.rest)
          if q.rest.isEmpty then .ok ⟨.endOfText, q, 0⟩
          else match e.longest? q.rest with
            | some (t, n) => .ok ⟨t, q, n⟩
            | none => .error q
        | n => e.readWithin bound (p.advance n)

def read (e : Expectation) (p : Place) : Except Place Token :=
  e.readWithin ('\n' :: p.rest) p

end Expectation

end ImportUsage
