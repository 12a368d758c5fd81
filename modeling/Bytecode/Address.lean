import Bytecode.Numeral

/-!
# Addresses

An address is the byte offset of an instruction in its stream, a 32-bit word. Here are its two
written forms that need no context: the eight digits of the address column, and the raw reference
with its `$` marker.
-/

namespace Bytecode

abbrev Address := UInt32

/-- The highest address. -/
def Address.last : Address := 0xFFFFFFFF

theorem Address.le_last (a : Address) : a ≤ Address.last := by
  rw [UInt32.le_iff_toNat_le]
  have := a.toNat_lt
  have : Address.last.toNat = 4294967295 := rfl
  omega

/-- The greater of two addresses is one of them, and no lower than either. -/
instance Address.lawfulOrderMax : Std.LawfulOrderMax Address :=
  .of_max_le_iff
    (fun a b c => by
      change (if a ≤ b then b else a) ≤ c ↔ _
      split <;> grind)
    (fun a b => by
      change (if a ≤ b then b else a) = a ∨ (if a ≤ b then b else a) = b
      split <;> simp)

/-- Eight upper-case hexadecimal digits. -/
def Address.column (a : Address) : String := String.ofList (Numeral.upperHex 8 a.toNat)

/-- A reference by number: `$` and eight digits. -/
def Address.raw (a : Address) : String := "$" ++ a.column

end Bytecode
