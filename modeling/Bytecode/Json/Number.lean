import Bytecode.Decimal.Layout

/-!
# Numbers

A number of a document is an integer of at most 64 bits or a double. Doubles are written with their
shortest digits: without an exponent from a hundred-thousandth up to ten to the sixteenth, and then
always with a fraction.
-/

namespace Bytecode.Json

inductive Number where
  | integer (value : Int)
  | float (value : Float)
  deriving DecidableEq, Repr

namespace Number

/-- Ties of equally short and near decimals go to the even digit. -/
def layout : Decimal.Layout := ⟨.toEven, fun lead => -5 ≤ lead && lead < 16, true⟩

def integerText (n : Int) : List Char :=
  if n < 0 then '-' :: Numeral.decimal n.natAbs else Numeral.decimal n.natAbs

/-- A double that is not finite has no number to stand for it. -/
def floatText (x : Float) : List Char :=
  match Decimal.Reading.ofBits x.toBits with
  | .finite negative size => layout.finiteText negative size
  | _ => ['n', 'u', 'l', 'l']

def text : Number → List Char
  | .integer n => integerText n
  | .float x => floatText x

end Number

end Bytecode.Json
