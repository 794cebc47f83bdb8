/-! JSON values and their text, one member or item to a line. -/

namespace ImportUsage

inductive JsonValue
  | text (s : String)
  | number (n : Nat)
  | flag (b : Bool)
  | list (items : List JsonValue)
  | object (members : List (String × JsonValue))

namespace JsonValue

/-- A character inside a JSON text: quotes, backslashes and control characters are escaped. -/
def escaped (c : Char) : List Char :=
  if c = '"' then ['\\', '"']
  else if c = '\\' then ['\\', '\\']
  else if c = '\n' then ['\\', 'n']
  else if c = '\r' then ['\\', 'r']
  else if c = '\t' then ['\\', 't']
  else if c.toNat = 8 then ['\\', 'b']
  else if c.toNat = 12 then ['\\', 'f']
  else if c.toNat < 32 then
    ['\\', 'u', '0', '0', Nat.digitChar (c.toNat / 16), Nat.digitChar (c.toNat % 16)]
  else [c]

def quoted (s : String) : List Char := '"' :: s.toList.flatMap escaped ++ ['"']

/-- A line break and two blanks for each level. -/
def newLine (level : Nat) : List Char := '\n' :: List.replicate (2 * level) ' '

mutual

def write (level : Nat) : JsonValue → List Char
  | .text s => quoted s
  | .number n => Nat.toDigits 10 n
  | .flag b => if b then "true".toList else "false".toList
  | .list [] => ['[', ']']
  | .list (v :: vs) =>
    '[' :: newLine (level + 1) ++ write (level + 1) v ++ writeItems (level + 1) vs ++
      newLine level ++ [']']
  | .object [] => ['{', '}']
  | .object ((k, v) :: ms) =>
    '{' :: newLine (level + 1) ++ quoted k ++ [':', ' '] ++ write (level + 1) v ++
      writeMembers (level + 1) ms ++ newLine level ++ ['}']

def writeItems (level : Nat) : List JsonValue → List Char
  | [] => []
  | v :: vs => ',' :: newLine level ++ write level v ++ writeItems level vs

def writeMembers (level : Nat) : List (String × JsonValue) → List Char
  | [] => []
  | (k, v) :: ms =>
    ',' :: newLine level ++ quoted k ++ [':', ' '] ++ write level v ++ writeMembers level ms

end

def render (v : JsonValue) : String := String.ofList (v.write 0)

end JsonValue

end ImportUsage
