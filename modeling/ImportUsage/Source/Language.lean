import ImportUsage.FileTree.Path
import ImportUsage.Lexical.LineEnd

/-! Languages of source files, told by their extensions. -/

namespace ImportUsage

/-- Lower-cases a character as far as the result can be an ASCII letter: the capital letters and
the kelvin sign. -/
def lowerToAscii (c : Char) : Char :=
  if 'A' ≤ c && c ≤ 'Z' then Char.ofNat (c.toNat + 32)
  else if c.toNat = 0x212A then 'k'
  else c

/-- Lower-cases a text for comparison with an ASCII word. -/
def lowerText (s : String) : String := String.ofList (s.toList.map lowerToAscii)

inductive Language
  | javascript
  | jsx
  | typescript
  | tsx
deriving DecidableEq, Repr

namespace Language

/-- The language of files with this extension, whatever its case. -/
def ofExtension? (extension : String) : Option Language :=
  let e := lowerText extension
  if ["js", "mjs", "cjs"].contains e then some .javascript
  else if e = "jsx" then some .jsx
  else if ["ts", "mts", "cts"].contains e then some .typescript
  else if e = "tsx" then some .tsx
  else none

def dialect : Language → Dialect
  | .javascript | .jsx => .plain
  | .typescript => .typed
  | .tsx => .typedMarkup

end Language

end ImportUsage
