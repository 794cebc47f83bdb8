import ImportUsage.Lexical.Word

/-! Statements that end without a semicolon, and the mark of a conditional expression. Both depend
on the text that follows and on what else the grammar allows at the place. -/

namespace ImportUsage

/-- The forms of source text: plain, with type annotations, with annotations and markup.
Plain text may hold markup too. -/
inductive Dialect
  | plain
  | typed
  | typedMarkup
deriving DecidableEq, Repr

def Dialect.hasTypes : Dialect → Bool
  | .plain => false
  | _ => true

/-- Where the passing over blanks and comments stands. -/
inductive Trail
  | between
  | lineComment
  | blockComment

inductive Passed
  /-- A slash that opens no comment. -/
  | slash
  /-- The end of a block comment. -/
  | comment (broken : Bool)
  | token
deriving DecidableEq

structure Passage where
  met : Passed
  size : Nat
  commented : Bool
  rest : Text

/-- Passes over ASCII blanks and comments. With `pausing` it stops after a block comment, unless a
slash follows at once. `broken` tells whether a block comment held a line break. -/
def pass (pausing : Bool) (n : Nat) (broken commented : Bool) : Trail → Text → Passage
  | .between, '/' :: '/' :: s => pass pausing (n + 2) broken true .lineComment s
  | .between, '/' :: '*' :: s => pass pausing (n + 2) broken commented .blockComment s
  | .between, '/' :: s => ⟨.slash, n + 1, commented, s⟩
  | .between, c :: s =>
    if isSpace c then pass pausing (n + 1) broken commented .between s
    else ⟨.token, n, commented, c :: s⟩
  | .lineComment, c :: s =>
    if c = '\n' then pass pausing (n + 1) broken commented .between s
    else if endsMarkupComment c then ⟨.token, n, commented, c :: s⟩
    else pass pausing (n + 1) broken commented .lineComment s
  | .blockComment, '*' :: '/' :: s =>
    if pausing && s.head? ≠ some '/' then ⟨.comment broken, n + 2, true, s⟩
    else pass pausing (n + 2) broken true .between s
  | .blockComment, c :: s =>
    if isNull c then ⟨.token, n, commented, c :: s⟩
    else pass pausing (n + 1) (broken || isLineFeed c) commented .blockComment s
  | _, [] => ⟨.token, n, commented, []⟩

/-- What a look at the text after a construct shows. -/
inductive Look
  /-- The statement ends here. -/
  | ends
  /-- It goes on; `size` characters were looked at, and a comment was among them or not. -/
  | goesOn (size : Nat) (commented : Bool)

/-- What may follow a construct, as far as it decides whether a statement ends. -/
structure Outlook where
  dialect : Dialect
  /-- May an operator follow? -/
  operator : Bool
  /-- May the body of a function follow? -/
  body : Bool

namespace Outlook

/-- Does the text after a line break begin a new statement? If not, the number of characters that
show it. -/
def continues (o : Outlook) : Text → Option Nat
  | [] => none
  | c :: s =>
    if [',', ';', '*', '%', '>', '<', '=', '?', '^', '|', '&', '/', ':', '\x60'].contains c then
      some 0
    else if c = '.' then
      if o.dialect.hasTypes then some 0
      else if (s.head?.map isDecimal).getD false then none
      else some 1
    else if c = '{' then if o.body && o.dialect.hasTypes then some 0 else none
    else if c = '(' || c = '[' then if o.dialect.hasTypes && !o.operator then none else some 0
    else if c = '+' || c = '-' then if s.head? = some c then none else some 1
    else if c = '!' then if s.head? = some '=' then some 1 else none
    else if c = 'i' then
      match after? ['n'] s with
      | none => none
      | some t =>
        if !(t.head?.map isLetter).getD false then some 2
        else match after? ['s', 't', 'a', 'n', 'c', 'e', 'o', 'f'] t with
          | none => none
          | some u => if (u.head?.map isLetter).getD false then none else some 10
    else none

/-- What the text after a line break shows, where `n` characters stand before it. -/
def afterBreak (o : Outlook) (n : Nat) (commented : Bool) (s : Text) : Look :=
  let p := pass false n false commented .between s
  if p.met = .slash then .goesOn p.size p.commented
  else match o.continues p.rest with
    | none => .ends
    | some m => .goesOn (p.size + m) p.commented

/-- What the text shows in the typed dialects: a statement ends at the end of the text, before a
closing brace, and before a line break after which a new statement begins. -/
def lookTyped (o : Outlook) (n : Nat) : Text → Look
  | [] => .ends
  | c :: s =>
    if isNull c then .ends
    else if c = '}' then
      let m := sizeWhile isSpace s
      if (s.drop m).head? = some ':' && !o.operator then .goesOn (n + 1 + m) false else .ends
    else if c = '\n' then o.afterBreak (n + 1) false s
    else if isSpace c then o.lookTyped (n + 1) s
    else .goesOn n false

/-- What the text shows in the plain dialect. Comments are passed over; where no operator may
follow, a comment that reaches over a line break ends the statement, unless a comma or an equals
sign follows. -/
def lookPlain (o : Outlook) : Bound → (n : Nat) → (commented : Bool) → Text → Look
  | [], n, commented, s => if s.isEmpty then .ends else .goesOn n commented
  | _ :: _, _, _, [] => .ends
  | _ :: bound, n, commented, c :: s =>
    if isNull c then .ends
    else
      let p := if c = '/' then pass true n false commented .between (c :: s)
        else ⟨.comment false, n, commented, c :: s⟩
      if p.met = .slash then .goesOn p.size p.commented
      else if c = '/' && p.met ≠ .comment false && !o.operator &&
          p.rest.head? ≠ some ',' && p.rest.head? ≠ some '=' then .ends
      else match p.rest with
        | [] => .goesOn p.size p.commented
        | d :: t =>
          if d = '}' then .ends
          else if isLineFeed d then o.afterBreak (p.size + 1) p.commented t
          else if isSpace d then o.lookPlain bound (p.size + 1) p.commented t
          else .goesOn p.size p.commented

def look (o : Outlook) (s : Text) : Look :=
  if o.dialect.hasTypes then o.lookTyped 0 s else o.lookPlain ('\n' :: s) 0 false s

end Outlook

/-- The number of blanks before the question mark of a conditional, if one stands here. In the
typed dialects a question mark before a colon, a comma or a closing parenthesis marks something
optional. -/
def conditionMark? (d : Dialect) (s : Text) : Option Nat :=
  let n := sizeWhile isSpace s
  match s.drop n with
  | '?' :: t =>
    match t with
    | '?' :: _ => none
    | '.' :: u => if (u.head?.map isDecimal).getD false then some n else none
    | _ =>
      match (t.dropWhile isSpace).head? with
      | some c => if d.hasTypes && (c = ':' || c = ')' || c = ',') then none else some n
      | none => some n
  | _ => none

end ImportUsage
