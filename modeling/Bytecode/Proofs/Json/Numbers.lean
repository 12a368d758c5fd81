import Bytecode.Json.Spelling
import Bytecode.Text.Utf8

/-!
# Integers that are read back

An integer that fits in 64 bits is written with its decimal digits, and reading them stops where
they stop, as long as what follows may follow a value (`Delimited`). A zero has one digit and no
other number starts with one (`eq_zero_of_head_digits`), so the digits are never refused.
-/

namespace Bytecode

namespace Numeral

/-! ## Digits -/

theorem lt_of_mem_digits {radix n d : Nat} (h : 1 < radix) (hd : d ∈ digits radix n) :
    d < radix := by
  fun_induction digits radix n with
  | case1 n hn =>
    rw [List.mem_singleton.mp hd]
    omega
  | case2 n hn ih =>
    rcases List.mem_append.mp hd with hd | hd
    · exact ih hd
    · rw [List.mem_singleton.mp hd]
      exact Nat.mod_lt _ (by omega)

theorem digits_ne_nil (radix n : Nat) : digits radix n ≠ [] := by
  unfold digits
  split <;> simp

theorem digits_ten_eq_cons (n : Nat) : ∃ d ds, digits 10 n = d :: ds ∧ d < 10 := by
  cases hd : digits 10 n with
  | nil => exact absurd hd (digits_ne_nil 10 n)
  | cons d ds =>
    have hmem : d ∈ digits 10 n := by simp [hd]
    exact ⟨d, ds, rfl, lt_of_mem_digits (by omega) hmem⟩

/-- No number but zero starts with a zero. -/
theorem eq_zero_of_head_digits {radix n : Nat} (h : (digits radix n).head? = some 0) : n = 0 := by
  fun_induction digits radix n with
  | case1 n hn => simpa using h
  | case2 n hn ih =>
    have hzero : n / radix = 0 := by
      cases hds : digits radix (n / radix) with
      | nil => exact absurd hds (digits_ne_nil _ _)
      | cons d ds =>
        rw [hds] at h ih
        exact ih (by simpa using h)
    have hr : radix ≤ n := by omega
    have hpos : 0 < n / radix := Nat.div_pos hr (by omega)
    omega

/-- The byte of a decimal digit. -/
def digitByte (d : Nat) : UInt8 := UInt8.ofNat (48 + d)

theorem encode_digits {ds : List Nat} (h : ∀ d ∈ ds, d < 10) :
    Text.encode (ds.map lowerDigit) = ds.map digitByte := by
  induction ds with
  | nil => rfl
  | cons d ds ih =>
    have hd : ∀ d < 10, String.utf8EncodeChar (lowerDigit d) = [digitByte d] := by decide
    have hcons : Text.encode ((d :: ds).map lowerDigit) =
      String.utf8EncodeChar (lowerDigit d) ++ Text.encode (ds.map lowerDigit) := rfl
    rw [hcons, hd d (h d List.mem_cons_self), ih fun e he => h e (List.mem_cons_of_mem _ he)]
    rfl

theorem encode_decimal (n : Nat) : Text.encode (decimal n) = (digits 10 n).map digitByte :=
  encode_digits fun _ => lt_of_mem_digits (by omega)

end Numeral

namespace Json

/-! ## Where values end -/

/-- What may stand after a value: white space, a comma or a closing bracket. -/
def endsValue (b : UInt8) : Bool := isBlank b || b = 0x2C || b = 0x5D || b = 0x7D

/-- What follows does not go on with the value before it. -/
def Delimited (rest : List UInt8) : Prop := ∀ b ∈ rest.head?, endsValue b = true

theorem endsValue_no_number {b : UInt8} (h : endsValue b = true) :
    isDigit b = false ∧ b ≠ 0x2E ∧ ¬ (b = 0x65 ∨ b = 0x45) := by
  simp only [endsValue, isBlank, Bool.or_eq_true, decide_eq_true_eq] at h
  rcases h with (((((h | h) | h) | h) | h) | h) | h
  all_goals rw [h]; decide

/-! ## Scanning -/

open Numeral

theorem takeDigits_append {ds : List Nat} (hds : ∀ d ∈ ds, d < 10) {rest : List UInt8}
    (hrest : Delimited rest) : takeDigits (ds.map digitByte ++ rest) = (ds, rest) := by
  induction ds with
  | nil =>
    cases rest with
    | nil => rfl
    | cons b rest =>
      have hb := (endsValue_no_number (hrest b rfl)).1
      simp [takeDigits, hb]
  | cons d ds ih =>
    have hdigit : ∀ d < 10, isDigit (digitByte d) = true ∧ (digitByte d).toNat - 48 = d := by decide
    obtain ⟨h₁, h₂⟩ := hdigit d (hds d List.mem_cons_self)
    have := ih fun e he => hds e (List.mem_cons_of_mem _ he)
    simp only [takeDigits, Prod.mk.injEq] at this
    simp [takeDigits, h₁, h₂, this]

theorem someDigits_append (ending : Ending) (atEnd : Cause) {ds : List Nat} (hne : ds ≠ [])
    (hds : ∀ d ∈ ds, d < 10) {rest : List UInt8} (hrest : Delimited rest) :
    someDigits ending atEnd (ds.map digitByte ++ rest) = .ok (ds, rest) := by
  cases ds with
  | nil => exact absurd rfl hne
  | cons d ds =>
    have hdigit : ∀ d < 10, isDigit (digitByte d) = true := by decide
    have htake := takeDigits_append hds hrest
    rw [List.map_cons, List.cons_append] at htake ⊢
    rw [someDigits, if_pos (hdigit d (hds d List.mem_cons_self)), htake]

namespace Spelling

theorem scanWhole_digits (ending : Ending) (atEnd : Cause) (n : Nat) {rest : List UInt8}
    (hrest : Delimited rest) :
    scanWhole ending atEnd ((digits 10 n).map digitByte ++ rest) = .ok (digits 10 n, rest) := by
  have hds : ∀ d ∈ digits 10 n, d < 10 := fun _ => lt_of_mem_digits (by omega)
  have hsome := someDigits_append ending atEnd (digits_ne_nil 10 n) hds hrest
  by_cases hn : n = 0
  · subst hn
    have hzero : digits 10 0 = [0] := by unfold digits; simp
    rw [hzero] at hsome ⊢
    cases rest with
    | nil => exact hsome
    | cons c rest =>
      have hc := (endsValue_no_number (hrest c rfl)).1
      simp [scanWhole, digitByte, hc]
  · obtain ⟨d, ds, hd, hlt⟩ := digits_ten_eq_cons n
    have hbyte : ∀ d < 10, digitByte d = 0x30 → d = 0 := by decide
    have hne : digitByte d ≠ 0x30 := by
      intro hb
      have hhead : (digits 10 n).head? = some 0 := by rw [hd, hbyte d hlt hb]; rfl
      exact hn (eq_zero_of_head_digits hhead)
    rw [hd] at hsome ⊢
    rw [List.map_cons, List.cons_append] at hsome ⊢
    unfold scanWhole
    split
    · rename_i b c r hs
      obtain rfl : digitByte d = b := (List.cons.inj hs).1
      rw [if_neg hne]
      exact hsome
    · exact hsome

theorem scanFraction_delimited (ending : Ending) (atEnd : Cause) {rest : List UInt8}
    (hrest : Delimited rest) : scanFraction ending atEnd rest = .ok ([], rest) := by
  cases rest with
  | nil => rfl
  | cons b rest =>
    have hb := (endsValue_no_number (hrest b rfl)).2.1
    simp [scanFraction, hb]

theorem scanExponent_delimited (ending : Ending) (atEnd : Cause) {rest : List UInt8}
    (hrest : Delimited rest) : scanExponent ending atEnd rest = .ok (none, rest) := by
  cases rest with
  | nil => rfl
  | cons b rest =>
    have hb := (endsValue_no_number (hrest b rfl)).2.2
    simp [scanExponent, hb]

/-- The written digits of a number, with or without a sign before them, are scanned as they are. -/
theorem scan_decimal (ending : Ending) (atEnd : Cause) (negative : Bool) (n : Nat)
    {rest : List UInt8} (hrest : Delimited rest) :
    scan ending atEnd ((if negative then [0x2D] else []) ++ (digits 10 n).map digitByte ++ rest) =
      .ok (⟨negative, digits 10 n, [], none⟩, rest) := by
  have hwhole := scanWhole_digits ending atEnd n hrest
  cases negative with
  | true =>
    simp [scan, hwhole, scanFraction_delimited ending atEnd hrest,
      scanExponent_delimited ending atEnd hrest, bind, Except.bind, pure, Except.pure]
  | false =>
    have hbyte : ∀ d < 10, digitByte d ≠ 0x2D := by decide
    have hhead : ((digits 10 n).map digitByte ++ rest).head? ≠ some 0x2D := by
      obtain ⟨d, ds, hd, hlt⟩ := digits_ten_eq_cons n
      rw [hd]
      simpa using hbyte d hlt
    simp only [Bool.false_eq_true, ↓reduceIte, List.nil_append, scan, hhead, decide_false, hwhole,
      scanFraction_delimited ending atEnd hrest, scanExponent_delimited ending atEnd hrest, bind,
      Except.bind, pure, Except.pure]

end Spelling

/-- **An integer that fits in 64 bits is read back.** -/
theorem readNumber_integerText {n : Int} (low : -0x8000000000000000 ≤ n)
    (high : n < 0x10000000000000000) {rest : List UInt8} (hrest : Delimited rest) :
    readNumber .complete (Text.encode (Number.integerText n) ++ rest) = .ok (.integer n, rest) := by
  have htext : Text.encode (Number.integerText n) =
      (if decide (n < 0) then [0x2D] else []) ++ (digits 10 n.natAbs).map digitByte := by
    rw [← encode_decimal]
    unfold Number.integerText
    by_cases hn : n < 0
    · rw [if_pos hn, if_pos (decide_eq_true hn)]
      rfl
    · rw [if_neg hn, if_neg (by simpa using hn), List.nil_append]
  have hint : Spelling.integer? ⟨decide (n < 0), digits 10 n.natAbs, [], none⟩ = some n := by
    unfold Spelling.integer?
    simp only [append_digits]
    by_cases hn : n < 0
    · have hfits : 0 < n.natAbs ∧ n.natAbs ≤ 0x8000000000000000 := by omega
      have hvalue : -(n.natAbs : Int) = n := by omega
      rw [if_neg (by simp), if_pos (decide_eq_true hn), if_pos hfits, hvalue]
    · have hfits : n.natAbs < UInt64.size := by
        show n.natAbs < 0x10000000000000000
        omega
      have hvalue : (n.natAbs : Int) = n := by omega
      rw [if_neg (by simp), if_neg (by simpa using hn), if_pos hfits, hvalue]
  rw [htext, readNumber, Spelling.scan_decimal _ _ _ _ hrest]
  simp only [bind, Except.bind, hint]
  cases rest <;> rfl

end Json

end Bytecode
