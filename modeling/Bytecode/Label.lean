import Bytecode.Address

/-!
# Labels

A label names an address by a stem, an underscore and the address in hexadecimal. Labels carry no
state of their own: two labels with one stem and one address are the same label.

* `Label.text`: at least four upper-case digits after the last underscore;
* `Label.ofText?`: the text is split at its last underscore, so a stem may hold underscores.
-/

namespace Bytecode

structure Label where
  /-- Text before the address, such as `loc` in `loc_001C`. -/
  stem : String
  address : Address
  deriving DecidableEq, Repr

namespace Label

def text (l : Label) : String :=
  l.stem ++ "_" ++ String.ofList (Numeral.upperHex 4 l.address.toNat)

/-- The parts before and after the last occurrence of `mark`. -/
def splitLast? (mark : Char) : List Char → Option (List Char × List Char)
  | [] => none
  | c :: cs =>
    match splitLast? mark cs with
    | some (before, after) => some (c :: before, after)
    | none => if c = mark then some ([], cs) else none

/-- Reads a label; neither part may be empty. -/
def ofText? (s : String) : Option Label :=
  match splitLast? '_' s.toList with
  | some (c :: stem, tail) =>
    (Numeral.read? 16 UInt32.size tail).map fun n => ⟨String.ofList (c :: stem), UInt32.ofNat n⟩
  | _ => none

end Label

end Bytecode
