/-!
# Whole numbers as text

Written forms of natural numbers in a radix of at most sixteen, and the strict reading of them.

* `digits`: the digits of a number, most significant first, without leading zeros;
* `decimal`, `lowerHex`, `upperHex`: the three written forms;
* `read?`: an optional single `+`, then one or more digits of either case, below a bound.
-/

namespace Bytecode.Numeral

/-! ## Digits -/

/-- The digits of `n`, most significant first; zero has one digit. -/
def digits (radix n : Nat) : List Nat :=
  if n < radix ∨ radix < 2 then [n] else digits radix (n / radix) ++ [n % radix]
termination_by n
decreasing_by exact Nat.div_lt_self (by omega) (by omega)

/-- The number that `ds` spells after the digits of `n`. -/
def append (radix : Nat) : Nat → List Nat → Nat
  | n, [] => n
  | n, d :: ds => append radix (n * radix + d) ds

theorem append_concat (radix n d : Nat) (ds : List Nat) :
    append radix n (ds ++ [d]) = append radix n ds * radix + d := by
  induction ds generalizing n with
  | nil => rfl
  | cons e ds ih => exact ih _

/-- The digits of a number spell it. -/
theorem append_digits (radix n : Nat) : append radix 0 (digits radix n) = n := by
  fun_induction digits radix n with
  | case1 n h => simp [append]
  | case2 n h ih => rw [append_concat, ih, Nat.mul_comm]; exact Nat.div_add_mod n radix

/-! ## Writing -/

def lowerDigit (d : Nat) : Char :=
  if d < 10 then Char.ofNat (48 + d) else Char.ofNat (87 + d)

def upperDigit (d : Nat) : Char :=
  if d < 10 then Char.ofNat (48 + d) else Char.ofNat (55 + d)

def decimal (n : Nat) : List Char := (digits 10 n).map lowerDigit

def lowerHex (n : Nat) : List Char := (digits 16 n).map lowerDigit

/-- Upper-case hexadecimal, filled with zeros on the left up to `width` digits. -/
def upperHex (width n : Nat) : List Char := ((digits 16 n).map upperDigit).leftpad width '0'

/-! ## Reading -/

/-- The value of a digit of either case, if the radix has it. -/
def digitValue? (radix : Nat) (c : Char) : Option Nat :=
  let value :=
    if 48 ≤ c.toNat ∧ c.toNat ≤ 57 then some (c.toNat - 48)
    else if 65 ≤ c.toNat ∧ c.toNat ≤ 70 then some (c.toNat - 55)
    else if 97 ≤ c.toNat ∧ c.toNat ≤ 102 then some (c.toNat - 87)
    else none
  value.filter (· < radix)

/-- The values of all characters, if each is a digit. -/
def digitValues? (radix : Nat) : List Char → Option (List Nat)
  | [] => some []
  | c :: cs =>
    match digitValue? radix c, digitValues? radix cs with
    | some d, some ds => some (d :: ds)
    | _, _ => none

/-- The number spelled by one or more digits and nothing else. -/
def unsigned? (radix : Nat) : List Char → Option Nat
  | [] => none
  | c :: cs => (digitValues? radix (c :: cs)).map (append radix 0)

/-- Reads a number below `bound`; one leading `+` is allowed. -/
def read? (radix bound : Nat) (cs : List Char) : Option Nat :=
  let body := match cs with
    | '+' :: rest => rest
    | _ => cs
  (unsigned? radix body).filter (· < bound)

end Bytecode.Numeral
