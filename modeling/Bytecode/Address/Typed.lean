import Bytecode.Label
import Bytecode.Text.Blank

/-!
# Addresses as users type them

White space around the text is dropped. A text that starts with a hexadecimal marker is a hexadecimal
number or nothing; any other is a decimal number, or else a label with the stem in use.
-/

namespace Bytecode.Address

/-- The text after a hexadecimal marker, one of `0x`, `0X` and `$`. -/
def afterMarker? : List Char → Option (List Char)
  | '0' :: 'x' :: cs => some cs
  | '0' :: 'X' :: cs => some cs
  | '$' :: cs => some cs
  | _ => none

/-- A 32-bit word in the given radix. -/
def word? (radix : Nat) (cs : List Char) : Option Address :=
  (Numeral.read? radix UInt32.size cs).map UInt32.ofNat

def ofText? (text stem : String) : Option Address :=
  let cs := Text.trim text.toList
  match afterMarker? cs with
  | some digits => word? 16 digits
  | none =>
    match word? 10 cs with
    | some a => some a
    | none =>
      match Label.ofText? (String.ofList cs) with
      | some l => if l.stem = stem then some l.address else none
      | none => none

end Bytecode.Address
