import Bytecode.Json.Fault

/-!
# Spelled numbers

A number as it stands in a document, and the number it means.

* `Spelling.scan?`: a sign, whole digits without a needless zero, a fraction, an exponent;
* `Spelling.magnitude?`: a double near the spelled one. The digits are gathered in a 64-bit word and
  multiplied or divided once by a power of ten, so the result may be off in its last place;
* `readNumber`: integers that fit in 64 bits stay integers, everything else is a double.
-/

namespace Bytecode.Json

structure Spelling where
  negative : Bool
  whole : List Nat
  /-- Empty without a point: a point has at least one digit after it. -/
  fraction : List Nat := []
  /-- Whether the exponent is negative, and its digits. -/
  exponent : Option (Bool × List Nat) := none
  deriving DecidableEq, Repr

def isDigit (b : UInt8) : Bool := 0x30 ≤ b && b ≤ 0x39

/-- The digits at the start, and what follows them. -/
def takeDigits (s : List UInt8) : List Nat × List UInt8 :=
  ((s.takeWhile isDigit).map fun b => b.toNat - 48, s.dropWhile isDigit)

/-- At least one digit; `atEnd` is the cause of a fault where the bytes end. -/
def someDigits (ending : Ending) (atEnd : Cause) (s : List UInt8) :
    Except Fault (List Nat × List UInt8) :=
  match s with
  | [] => .error (cutOff ending atEnd)
  | b :: r => if isDigit b then .ok (takeDigits s) else .error (.placed .invalidNumber r.length)

/-- What follows a number is looked at, so a reader that fails there fails the number. -/
def lookPast (ending : Ending) (s : List UInt8) : Except Fault Unit :=
  match ending, s with
  | .broken error, [] => .error (.floating (.source error) [])
  | _, _ => .ok ()

namespace Spelling

/-- Whole digits; a zero stands alone. -/
def scanWhole (ending : Ending) (atEnd : Cause) (s : List UInt8) :
    Except Fault (List Nat × List UInt8) :=
  match s with
  | b :: c :: r =>
    if b = 0x30 then
      if isDigit c then .error (.placed .invalidNumber r.length) else .ok ([0], c :: r)
    else someDigits ending atEnd s
  | _ => someDigits ending atEnd s

def scanFraction (ending : Ending) (atEnd : Cause) (s : List UInt8) :
    Except Fault (List Nat × List UInt8) :=
  match s with
  | b :: r => if b = 0x2E then someDigits ending atEnd r else .ok ([], s)
  | [] => .ok ([], [])

/-- An optional sign: whether it is a minus. -/
def scanSign (s : List UInt8) : Bool × List UInt8 :=
  match s with
  | b :: r => if b = 0x2D then (true, r) else if b = 0x2B then (false, r) else (false, s)
  | [] => (false, [])

def scanExponent (ending : Ending) (atEnd : Cause) (s : List UInt8) :
    Except Fault (Option (Bool × List Nat) × List UInt8) :=
  match s with
  | b :: r =>
    if b = 0x65 ∨ b = 0x45 then
      match someDigits ending atEnd (scanSign r).2 with
      | .ok (digits, rest) => .ok (some ((scanSign r).1, digits), rest)
      | .error f => .error f
    else .ok (none, s)
  | [] => .ok (none, [])

/-- The spelling at the start, after an optional minus. -/
def scan (ending : Ending) (atEnd : Cause) (s : List UInt8) :
    Except Fault (Spelling × List UInt8) := do
  let negative := s.head? = some 0x2D
  let (whole, s) ← scanWhole ending atEnd (if negative then s.tail else s)
  let (fraction, s) ← scanFraction ending atEnd s
  let (exponent, s) ← scanExponent ending atEnd s
  return (⟨negative, whole, fraction, exponent⟩, s)

/-! ## The double that is meant -/

/-- Gathers digits after `n` as long as the number stays below `2 ^ 64`, and gives the others. -/
def gather : Nat → List Nat → Nat × List Nat
  | n, [] => (n, [])
  | n, d :: ds => if n * 10 + d < UInt64.size then gather (n * 10 + d) ds else (n, d :: ds)

/-- The gathered digits and the power of ten that goes with them. Whole digits that find no room
count as tens; the digits of a fraction are tried again on the same number. -/
def gathered (sp : Spelling) : Decimal.Scaled :=
  let (n, wholeLeft) := gather 0 sp.whole
  let (n, fractionLeft) := gather n sp.fraction
  ⟨n, (wholeLeft.length : Int) - (sp.fraction.length - fractionLeft.length : Nat)⟩

/-- Divides by ten to the `n`, at most 308 places at a time. -/
def divided (x : Float) (n : Nat) : Float :=
  if n ≤ 308 then x / Float.ofScientific 1 false n
  else if x == 0 then x
  else divided (x / Float.ofScientific 1 false 308) (n - 308)
termination_by n

/-- The nearest double of the digits, scaled; none if that is infinite. -/
def scaled? (d : Decimal.Scaled) : Option Float :=
  let x := Float.ofNat d.digits
  if d.exponent < 0 then some (divided x d.exponent.natAbs)
  else if d.exponent ≤ 308 then
    let y := x * Float.ofScientific 1 false d.exponent.toNat
    if y.isInf then none else some y
  else if x == 0 then some x
  else none

/-- If the digits of an exponent pass the 32-bit range, how many follow the one that does. -/
def passesWord? : Nat → List Nat → Option Nat
  | _, [] => none
  | n, d :: ds => if 0x80000000 ≤ n * 10 + d then some ds.length else passesWord? (n * 10 + d) ds

/-- An exponent of either sign. -/
def exponentValue : Option (Bool × List Nat) → Int
  | none => 0
  | some (true, digits) => -(Numeral.append 10 0 digits : Int)
  | some (false, digits) => Numeral.append 10 0 digits

/-- The size of the double that is meant; `rest` follows the spelling. -/
def magnitude (ending : Ending) (sp : Spelling) (rest : List UInt8) : Except Fault Float :=
  let d := sp.gathered
  match sp.exponent.bind fun (_, digits) => passesWord? 0 digits with
  | some after =>
    if d.digits ≠ 0 ∧ sp.exponent.any (fun e => !e.1) then
      .error (.placed .numberOutOfRange (after + rest.length))
    else do
      lookPast ending rest
      return 0
  | none => do
    lookPast ending rest
    match scaled? ⟨d.digits, d.exponent + exponentValue sp.exponent⟩ with
    | some x => return x
    | none => throw (.placed .numberOutOfRange (rest.length - 1))

/-- The integer that is meant, if the spelling is one and it fits in 64 bits. A negative zero is no
integer. -/
def integer? (sp : Spelling) : Option Int :=
  let n := Numeral.append 10 0 sp.whole
  if sp.fraction ≠ [] ∨ sp.exponent.isSome then none
  else if sp.negative then if 0 < n ∧ n ≤ 0x8000000000000000 then some (-(n : Int)) else none
  else if n < UInt64.size then some n else none

end Spelling

/-- The number at the start. -/
def readNumber (ending : Ending) (s : List UInt8) : Except Fault (Number × List UInt8) := do
  let (sp, rest) ← Spelling.scan ending .valueEnds s
  match sp.integer? with
  | some n =>
    lookPast ending rest
    return (.integer n, rest)
  | none =>
    let x ← sp.magnitude ending rest
    return (.float (if sp.negative then -x else x), rest)

/-- Skips a number without asking what it means. -/
def skipNumber (ending : Ending) (s : List UInt8) : Except Fault (List UInt8) := do
  let (_, rest) ← Spelling.scan ending .invalidNumber s
  lookPast ending rest
  return rest

/-! ## Each number takes up bytes -/

theorem someDigits_length {ending : Ending} {atEnd : Cause} {s r : List UInt8} {ds : List Nat}
    (h : someDigits ending atEnd s = .ok (ds, r)) : r.length < s.length := by
  unfold someDigits at h
  split at h
  · cases h
  · rename_i b t
    split at h
    · rename_i hb
      simp only [Except.ok.injEq, takeDigits, Prod.mk.injEq] at h
      obtain ⟨_, rfl⟩ := h
      simp only [List.dropWhile_cons, hb, ↓reduceIte, List.length_cons]
      exact Nat.lt_succ_of_le (List.dropWhile_suffix _).length_le
    · cases h

namespace Spelling

theorem scanWhole_length {ending : Ending} {atEnd : Cause} {s r : List UInt8} {ds : List Nat}
    (h : scanWhole ending atEnd s = .ok (ds, r)) : r.length < s.length := by
  unfold scanWhole at h
  split at h
  · split at h
    · split at h
      · cases h
      · cases h; simp
    · exact someDigits_length h
  · exact someDigits_length h

theorem scanFraction_length {ending : Ending} {atEnd : Cause} {s r : List UInt8} {ds : List Nat}
    (h : scanFraction ending atEnd s = .ok (ds, r)) : r.length ≤ s.length := by
  unfold scanFraction at h
  split at h
  · split at h
    · have := someDigits_length h
      simp only [List.length_cons]; omega
    · cases h; simp
  · cases h; simp

theorem scanSign_length (s : List UInt8) : (scanSign s).2.length ≤ s.length := by
  unfold scanSign
  split
  · split
    · simp
    · split <;> simp
  · simp

theorem scanExponent_length {ending : Ending} {atEnd : Cause} {s r : List UInt8}
    {e : Option (Bool × List Nat)} (h : scanExponent ending atEnd s = .ok (e, r)) :
    r.length ≤ s.length := by
  unfold scanExponent at h
  split at h
  · rename_i b t
    split at h
    · split at h
      · rename_i digits rest hd
        cases h
        have := someDigits_length hd
        have := scanSign_length t
        simp only [List.length_cons]; omega
      · cases h
    · cases h; simp
  · cases h; simp

theorem scan_length {ending : Ending} {atEnd : Cause} {s r : List UInt8} {sp : Spelling}
    (h : scan ending atEnd s = .ok (sp, r)) : r.length < s.length := by
  simp only [scan, bind, Except.bind, pure, Except.pure] at h
  split at h
  · cases h
  · rename_i whole hw
    split at h
    · cases h
    · rename_i fraction hf
      split at h
      · cases h
      · rename_i exponent he
        cases h
        have l₁ := scanWhole_length hw
        have l₂ := scanFraction_length hf
        have l₃ := scanExponent_length he
        split at l₁
        · simp only [List.length_tail] at l₁; omega
        · omega

end Spelling

theorem readNumber_length {ending : Ending} {s r : List UInt8} {n : Number}
    (h : readNumber ending s = .ok (n, r)) : r.length < s.length := by
  simp only [readNumber, bind, Except.bind, pure, Except.pure] at h
  split at h
  · cases h
  · rename_i p hp
    have l : p.2.length < s.length := Spelling.scan_length hp
    split at h
    · split at h
      · cases h
      · cases h; exact l
    · split at h
      · cases h
      · cases h; exact l

theorem skipNumber_length {ending : Ending} {s r : List UInt8}
    (h : skipNumber ending s = .ok r) : r.length < s.length := by
  simp only [skipNumber, bind, Except.bind, pure, Except.pure] at h
  split at h
  · cases h
  · rename_i p hp
    have l : p.2.length < s.length := Spelling.scan_length hp
    split at h
    · cases h
    · cases h; exact l

end Bytecode.Json
