import ImportUsage.Digest.Sha256

/-! Colours of edges. A module has one colour everywhere, since it is taken from a digest of its
name. -/

namespace ImportUsage

def hexDigit (n : Nat) : Char := Nat.digitChar (n % 16)

def hexByte (b : UInt8) : List Char := [hexDigit (b.toNat / 16), hexDigit b.toNat]

/-- The colour of the edges of a module: the first three bytes of the digest of its name. -/
def edgeColor (name : String) : String :=
  let bytes := (Sha256.digest name.toUTF8.data.toList).take 3
  String.ofList ('#' :: bytes.flatMap hexByte)

end ImportUsage
