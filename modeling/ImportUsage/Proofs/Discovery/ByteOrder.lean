import Mathlib.Data.List.Basic

/-! Names compared by their bytes. In UTF-8 the order of bytes is the order of characters. -/

namespace ImportUsage

/-- The bytes of a text in UTF-8. -/
def utf8 (s : String) : List UInt8 := s.toByteArray.data.toList

theorem utf8_eq_flatMap (s : String) : utf8 s = s.toList.flatMap String.utf8EncodeChar := by
  have encoded : s.toByteArray = s.toList.utf8Encode := by simp
  rw [utf8, encoded, List.utf8Encode, List.toList_data_toByteArray]

theorem code_lt (c : Char) : c.val.toNat < 0x110000 := by
  have valid := c.valid
  simp only [UInt32.isValidChar, Nat.isValidChar] at valid
  omega

/-- The bytes of a smaller character come first, whatever follows them. -/
theorem utf8EncodeChar_lt (c d : Char) (less : c < d) (r s : List UInt8) :
    String.utf8EncodeChar c ++ r < String.utf8EncodeChar d ++ s := by
  have smaller : c.val.toNat < d.val.toNat := less
  have limit := code_lt d
  -- All digits in base 64 are taken from the quotients by 64, so that they can be compared.
  have digits : ∀ v : Nat, v / 4096 = v / 64 / 64 ∧ v / 262144 = v / 64 / 64 / 64 := by
    intro v
    simp [Nat.div_div_eq_div_mul]
  simp only [String.utf8EncodeChar, (digits _).1, (digits _).2]
  generalize c.val.toNat = v at smaller
  generalize d.val.toNat = w at smaller limit
  split_ifs <;>
    simp only [List.cons_append, List.nil_append, List.cons_lt_cons_iff, UInt8.lt_iff_toNat_lt,
      ← UInt8.toNat_inj, UInt8.toNat_ofNat'] <;>
    omega

theorem flatMap_utf8EncodeChar_lt (as bs : List Char) (less : as < bs) :
    as.flatMap String.utf8EncodeChar < bs.flatMap String.utf8EncodeChar := by
  induction less with
  | @nil c rest =>
    rw [List.flatMap_nil, List.flatMap_cons]
    cases bytes : String.utf8EncodeChar c with
    | nil => exact absurd bytes String.utf8EncodeChar_ne_nil
    | cons byte more => exact .nil
  | rel smaller =>
    rw [List.flatMap_cons, List.flatMap_cons]
    exact utf8EncodeChar_lt _ _ smaller _ _
  | cons _ ih =>
    rw [List.flatMap_cons, List.flatMap_cons]
    exact List.append_left_lt ih

theorem utf8_lt (a b : String) (less : a < b) : utf8 a < utf8 b := by
  rw [utf8_eq_flatMap, utf8_eq_flatMap]
  exact flatMap_utf8EncodeChar_lt a.toList b.toList less

end ImportUsage
