/-!
# Shortest decimals

The decimal with the fewest digits among those that round to a given double, and of these the one
nearest to it.

* `Reading.ofBits`: what a bit pattern stands for, a finite one as an exact `mantissa * 2 ^ exponent`;
* `Binary.contains`: whether a decimal is among the reals that round to the double;
* `Binary.shortest`: for one digit, two digits and so on, the two neighbours of the double with that
  many digits are tried. If any decimal of a grid rounds to the double, so does a neighbour.
-/

namespace Bytecode.Decimal

/-- Which of two equally near decimals is taken. -/
inductive Tie where
  | toEven
  | up
  deriving DecidableEq, Repr

/-- The number `digits * 10 ^ exponent`. -/
structure Scaled where
  digits : Nat
  exponent : Int
  deriving DecidableEq, Repr

/-- The number `mantissa * 2 ^ exponent`. In a `steep` one the double below is at half the distance
of the double above. -/
structure Binary where
  mantissa : Nat
  exponent : Int
  steep : Bool := false
  deriving DecidableEq, Repr

/-- What a double stands for. -/
inductive Reading where
  | finite (negative : Bool) (size : Binary)
  | infinite (negative : Bool)
  | noNumber
  deriving DecidableEq, Repr

def Reading.ofBits (bits : UInt64) : Reading :=
  let negative := decide (0x8000000000000000 ≤ bits.toNat)
  let biased : Nat := bits.toNat / 0x10000000000000 % 0x800
  let fraction : Nat := bits.toNat % 0x10000000000000
  if biased = 2047 then
    if fraction = 0 then .infinite negative else .noNumber
  else if biased = 0 then .finite negative ⟨fraction, -1074, false⟩
  else .finite negative ⟨0x10000000000000 + fraction, (biased : Int) - 1075, fraction = 0 ∧ biased ≠ 1⟩

/-- How many decimal digits a number has. -/
def digitCount (n : Nat) : Nat :=
  if n < 10 then 1 else digitCount (n / 10) + 1
termination_by n
decreasing_by exact Nat.div_lt_self (by omega) (by omega)

/-- The same number without zeros at the end of its digits. -/
def Scaled.reduce (d : Scaled) : Scaled :=
  if d.digits % 10 = 0 ∧ d.digits ≠ 0 then reduce ⟨d.digits / 10, d.exponent + 1⟩ else d
termination_by d.digits
decreasing_by exact Nat.div_lt_self (by omega) (by omega)

namespace Binary

/-- The weight of one digit at place `e`, in quarters of the last binary place. -/
def step (b : Binary) (e : Int) : Nat :=
  4 * Nat.pow 10 e.toNat * Nat.pow 2 (-b.exponent).toNat

/-- The factor that makes quarters of the last binary place whole numbers beside `step`. -/
def scale (b : Binary) (e : Int) : Nat :=
  Nat.pow 10 (-e).toNat * Nat.pow 2 b.exponent.toNat

/-- Whether a decimal is among the reals that round to `b`. Halfway points round to the even
mantissa, so an even one owns the ends. -/
def contains (b : Binary) (d : Scaled) : Bool :=
  let low := (4 * b.mantissa - if b.steep then 1 else 2) * b.scale d.exponent
  let high := (4 * b.mantissa + 2) * b.scale d.exponent
  let point := d.digits * b.step d.exponent
  if b.mantissa % 2 = 0 then low ≤ point && point ≤ high else low < point && point < high

/-- The power of ten of the leading digit. No double but zero is below `4 * 10 ^ (-324)`. -/
def leading (b : Binary) : Int :=
  digitCount (b.mantissa * Nat.pow 2 b.exponent.toNat * Nat.pow 10 324 /
    Nat.pow 2 (-b.exponent).toNat) - 325

/-- The nearest decimal with its last digit at place `e` that rounds to `b`, if there is one. -/
def nearest? (tie : Tie) (b : Binary) (e : Int) : Option Scaled :=
  let size := 4 * b.mantissa * b.scale e
  let below : Scaled := ⟨size / b.step e, e⟩
  let above : Scaled := ⟨below.digits + 1, e⟩
  let excess := 2 * (size % b.step e)
  match b.contains below, b.contains above with
  | true, true =>
    if excess < b.step e then some below
    else if b.step e < excess then some above
    else match tie with
      | .toEven => some (if below.digits % 2 = 0 then below else above)
      | .up => some above
  | true, false => some below
  | false, true => some above
  | false, false => none

/-- The fewest digits that read back, without zeros at their end. Seventeen always suffice. -/
def shortest (tie : Tie) (b : Binary) : Scaled :=
  match (List.range 17).findSome? fun (n : Nat) => nearest? tie b (b.leading - n) with
  | some d => d.reduce
  | none => ⟨b.mantissa, 0⟩

end Binary

end Bytecode.Decimal
