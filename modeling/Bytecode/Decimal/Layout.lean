import Bytecode.Decimal.Shortest
import Bytecode.Numeral

/-!
# Layouts of decimals

How the shortest digits of a double are set out. A layout says which way ties go, between which
powers of ten a number is written without an exponent, and whether a whole number keeps a `.0`.
-/

namespace Bytecode.Decimal

structure Layout where
  tie : Tie
  /-- Whether a number whose leading digit has this power of ten is written without an exponent. -/
  positional : Int → Bool
  /-- Whether a positional number always has a fraction. -/
  keepsFraction : Bool

namespace Layout

/-- Digits around the point; `lead` is the power of ten of the first of them. -/
def positionalText (layout : Layout) (digits : List Char) (lead : Int) : List Char :=
  if lead < 0 then ['0', '.'] ++ List.replicate (-lead - 1).toNat '0' ++ digits
  else
    let whole := digits.take (lead.toNat + 1)
    let fraction := digits.drop (lead.toNat + 1)
    let filled := whole ++ List.replicate (lead.toNat + 1 - whole.length) '0'
    if fraction = [] then
      if layout.keepsFraction then filled ++ ['.', '0'] else filled
    else filled ++ ['.'] ++ fraction

/-- One digit, the others after a point, and a signed exponent. -/
def exponentText (digits : List Char) (lead : Int) : List Char :=
  let tail := digits.drop 1
  digits.take 1 ++ (if tail = [] then [] else '.' :: tail) ++ ['e', if lead < 0 then '-' else '+'] ++
    Numeral.decimal lead.natAbs

/-- The text of a finite double of either sign. -/
def finiteText (layout : Layout) (negative : Bool) (b : Binary) : List Char :=
  let d := b.shortest layout.tie
  let digits := Numeral.decimal d.digits
  let lead := d.exponent + digits.length - 1
  let size :=
    if b.mantissa = 0 then layout.positionalText ['0'] 0
    else if layout.positional lead then layout.positionalText digits lead
    else exponentText digits lead
  if negative then '-' :: size else size

end Layout

end Bytecode.Decimal
