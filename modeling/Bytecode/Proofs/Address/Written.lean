import Bytecode.Label
import Bytecode.Proofs.Json.Numbers
import Mathlib.Algebra.Group.Nat.Defs

/-!
# Written addresses

An address has two written forms beside its label: eight upper-case digits, and the same with a `$`
in front. The digits of each form, padded or not, spell the address (`unsigned?_upperHex`), so no
two addresses share a form. A label holds an underscore and a number does not, so neither is ever
taken for the other (`text_ne_raw`).
-/

namespace Bytecode

namespace Numeral

/-- The upper-case digits, lowest first. -/
def upperAlphabet : List Char := "0123456789ABCDEF".toList

theorem upperDigit_spec : ∀ d < 16,
    digitValue? 16 (upperDigit d) = some d ∧ upperDigit d ∈ upperAlphabet := by
  decide

theorem upperHex_eq_map (width n : Nat) :
    upperHex width n = ((digits 16 n).leftpad width 0).map upperDigit := by
  rw [upperHex, List.leftpad, List.leftpad, List.map_append, List.map_replicate, List.length_map]
  rfl

theorem lt_of_mem_padded {width n d : Nat} (hd : d ∈ (digits 16 n).leftpad width 0) : d < 16 := by
  rcases List.mem_append.mp hd with hd | hd
  · rw [(List.mem_replicate.mp hd).2]
    omega
  · exact lt_of_mem_digits (by omega) hd

theorem mem_upperAlphabet {width n : Nat} {c : Char} (hc : c ∈ upperHex width n) :
    c ∈ upperAlphabet := by
  rw [upperHex_eq_map] at hc
  obtain ⟨d, hd, rfl⟩ := List.mem_map.mp hc
  exact (upperDigit_spec d (lt_of_mem_padded hd)).2

/-! ## Reading the digits back -/

/-- Digits of either case are read back. -/
theorem digitValues?_map {write : Nat → Char} (hwrite : ∀ d < 16, digitValue? 16 (write d) = some d)
    {ds : List Nat} (h : ∀ d ∈ ds, d < 16) : digitValues? 16 (ds.map write) = some ds := by
  induction ds with
  | nil => rfl
  | cons d ds ih =>
    have hd := hwrite d (h d List.mem_cons_self)
    rw [List.map_cons, digitValues?, hd, ih fun e he => h e (List.mem_cons_of_mem _ he)]

/-- Zeros in front do not change what digits spell. -/
theorem append_leftpad (radix width : Nat) (ds : List Nat) :
    append radix 0 (ds.leftpad width 0) = append radix 0 ds := by
  rw [List.leftpad]
  induction width - ds.length with
  | zero => rfl
  | succ k ih =>
    rw [List.replicate_succ, List.cons_append, append, Nat.zero_mul, Nat.zero_add]
    exact ih

theorem unsigned?_upperHex (width n : Nat) : unsigned? 16 (upperHex width n) = some n := by
  have hread : digitValues? 16 (((digits 16 n).leftpad width 0).map upperDigit) = some _ :=
    digitValues?_map (fun d hd => (upperDigit_spec d hd).1) fun _ => lt_of_mem_padded
  have hspell := append_leftpad 16 width (digits 16 n)
  rw [append_digits] at hspell
  rw [← upperHex_eq_map] at hread
  cases hcs : upperHex width n with
  | nil =>
    -- Even zero is written with a digit.
    have hnil : digits 16 n = [] := by
      rw [upperHex, List.leftpad, List.append_eq_nil_iff, List.map_eq_nil_iff] at hcs
      exact hcs.2
    exact absurd hnil (digits_ne_nil 16 n)
  | cons c cs =>
    rw [unsigned?, ← hcs, hread, Option.map_some, hspell]

theorem upperHex_inj {width n m : Nat} (h : upperHex width n = upperHex width m) : n = m := by
  have hn := unsigned?_upperHex width n
  rw [h, unsigned?_upperHex] at hn
  exact (Option.some.inj hn).symm

/-! ## The number of digits -/

theorem length_digits_le {radix : Nat} (k n : Nat) (h : n < radix ^ (k + 1)) :
    (digits radix n).length ≤ k + 1 := by
  induction k generalizing n with
  | zero =>
    rw [digits, if_pos (Or.inl (by simpa using h))]
    simp
  | succ k ih =>
    rw [digits]
    split
    · simp
    · have hdiv : n / radix < radix ^ (k + 1) :=
        Nat.div_lt_of_lt_mul (by rwa [Nat.pow_succ'] at h)
      have := ih _ hdiv
      simp only [List.length_append, List.length_singleton]
      omega

theorem length_upperHex {width n : Nat} (hw : 0 < width) (h : n < 16 ^ width) :
    (upperHex width n).length = width := by
  obtain ⟨k, rfl⟩ := Nat.exists_eq_succ_of_ne_zero (Nat.ne_of_gt hw)
  have := length_digits_le k n h
  rw [upperHex, List.leftpad, List.length_append, List.length_replicate, List.length_map]
  omega

end Numeral

/-! ## Numbers -/

namespace Address

theorem toList_raw (a : Address) : a.raw.toList = '$' :: Numeral.upperHex 8 a.toNat := by
  simp [raw, column]

/-- The address column is eight upper-case digits that spell the address. -/
theorem column_spec (a : Address) :
    a.column.toList.length = 8 ∧ (∀ d ∈ a.column.toList, d ∈ Numeral.upperAlphabet) ∧
      Numeral.unsigned? 16 a.column.toList = some a.toNat := by
  rw [column, String.toList_ofList]
  exact ⟨Numeral.length_upperHex (by omega) a.toNat_lt, fun _ => Numeral.mem_upperAlphabet,
    Numeral.unsigned?_upperHex 8 a.toNat⟩

/-- A reference by number is a `$` and eight upper-case digits that spell the address. -/
theorem raw_spec (a : Address) :
    ∃ ds : List Char, a.raw = "$" ++ String.ofList ds ∧ ds.length = 8 ∧
      (∀ d ∈ ds, d ∈ Numeral.upperAlphabet) ∧ Numeral.unsigned? 16 ds = some a.toNat :=
  ⟨a.column.toList, by rw [String.ofList_toList, raw], a.column_spec⟩

theorem raw_inj {a b : Address} (h : a.raw = b.raw) : a = b := by
  have hlist := congrArg String.toList h
  rw [toList_raw, toList_raw, List.cons.injEq] at hlist
  exact UInt32.toNat_inj.mp (Numeral.upperHex_inj hlist.2)

end Address

/-! ## Labels -/

namespace Label

theorem toList_text (l : Label) :
    l.text.toList = l.stem.toList ++ '_' :: Numeral.upperHex 4 l.address.toNat := by
  simp [text]

/-- With one stem, labels of different addresses have different texts. -/
theorem address_eq_of_text {stem : String} {a b : Address}
    (h : Label.text ⟨stem, a⟩ = Label.text ⟨stem, b⟩) : a = b := by
  have hlist := congrArg String.toList h
  rw [toList_text, toList_text, List.append_cancel_left_eq, List.cons.injEq] at hlist
  exact UInt32.toNat_inj.mp (Numeral.upperHex_inj hlist.2)

/-- No label reads like a number. -/
theorem text_ne_raw (l : Label) (b : Address) : l.text ≠ b.raw := by
  intro h
  have hmem : '_' ∈ b.raw.toList := by
    rw [← h, toList_text]
    simp
  rw [Address.toList_raw, List.mem_cons] at hmem
  rcases hmem with hmem | hmem
  · exact absurd hmem (by decide)
  · exact absurd (Numeral.mem_upperAlphabet hmem) (by decide)

end Label

end Bytecode
