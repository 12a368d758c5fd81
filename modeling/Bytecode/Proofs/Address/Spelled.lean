import Bytecode.Proofs.Address.Typed

/-!
# Spelled numbers

Which texts are numbers, said without a reader: digits of either case, each worth its place, after
at most one sign. The reader of numbers takes exactly these, as long as they are below its bound.

* `IsDigit`: a character and the value it stands for;
* `Spells`: digits and the number they spell, place by place;
* `Signed`: the same after a sign that may be missing;
* `read?_eq_some_iff`: the reader is sound and complete for `Signed`.
-/

namespace Bytecode.Numeral

/-- The lower-case digits, lowest first. -/
def lowerAlphabet : List Char := "0123456789abcdef".toList

/-- The character is the digit of this value, in either case. -/
def IsDigit (radix : Nat) (c : Char) (d : Nat) : Prop :=
  d < radix ∧ (upperAlphabet[d]? = some c ∨ lowerAlphabet[d]? = some c)

/-- One or more digits spell a number: each counts as much as its place says. -/
inductive Spells (radix : Nat) : List Char → Nat → Prop where
  | last {c : Char} {d : Nat} (digit : IsDigit radix c d) : Spells radix [c] d
  | cons {c : Char} {cs : List Char} {d n : Nat} (digit : IsDigit radix c d)
      (rest : Spells radix cs n) : Spells radix (c :: cs) (d * radix ^ cs.length + n)

/-- A spelled number after a `+`, or without one. -/
def Signed (radix : Nat) (cs : List Char) (n : Nat) : Prop :=
  Spells radix cs n ∨ ∃ ds, cs = '+' :: ds ∧ Spells radix ds n

/-! ## Digits -/

theorem alphabets_spec : ∀ d < 16,
    upperAlphabet[d]? = some (upperDigit d) ∧ lowerAlphabet[d]? = some (lowerDigit d) ∧
      digitValue? 16 (upperDigit d) = some d ∧ digitValue? 16 (lowerDigit d) = some d := by
  decide

theorem eq_digit_of_digitValue? {radix d : Nat} {c : Char} (h : digitValue? radix c = some d) :
    d < radix ∧ d < 16 ∧ (c = upperDigit d ∨ c = lowerDigit d) := by
  have hchar : ∀ n, c.toNat = n → c = Char.ofNat n := by
    intro n hn
    rw [← hn, Char.ofNat_toNat]
  unfold digitValue? at h
  rw [Option.filter_eq_some_iff, decide_eq_true_eq] at h
  obtain ⟨hvalue, hd⟩ := h
  refine ⟨hd, ?_⟩
  unfold upperDigit lowerDigit
  -- The three ranges: decimal digits, upper-case letters, lower-case letters.
  split at hvalue
  · cases hvalue
    rw [if_pos (by omega)]
    exact ⟨by omega, Or.inl (hchar _ (by omega))⟩
  · split at hvalue
    · cases hvalue
      rw [if_neg (by omega)]
      exact ⟨by omega, Or.inl (hchar _ (by omega))⟩
    · split at hvalue
      · cases hvalue
        rw [if_neg (by omega), if_neg (by omega)]
        exact ⟨by omega, Or.inr (hchar _ (by omega))⟩
      · cases hvalue

theorem digitValue?_of_lt {radix d : Nat} {c : Char} (h : digitValue? 16 c = some d)
    (hd : d < radix) : digitValue? radix c = some d := by
  unfold digitValue? at h ⊢
  rw [Option.filter_eq_some_iff] at h ⊢
  exact ⟨h.1, decide_eq_true hd⟩

theorem digitValue?_eq_some_iff {radix d : Nat} {c : Char} :
    digitValue? radix c = some d ↔ IsDigit radix c d := by
  constructor
  · intro h
    obtain ⟨hradix, hd, hc⟩ := eq_digit_of_digitValue? h
    obtain ⟨hupper, hlower, _⟩ := alphabets_spec d hd
    rcases hc with rfl | rfl
    · exact ⟨hradix, Or.inl hupper⟩
    · exact ⟨hradix, Or.inr hlower⟩
  · rintro ⟨hradix, hc⟩
    have hd : d < 16 := by
      rcases hc with hc | hc
      · exact (List.getElem?_eq_some_iff.mp hc).1
      · exact (List.getElem?_eq_some_iff.mp hc).1
    obtain ⟨hupper, hlower, hup, hlow⟩ := alphabets_spec d hd
    rw [hupper, hlower, Option.some.injEq, Option.some.injEq] at hc
    rcases hc with rfl | rfl
    · exact digitValue?_of_lt hup hradix
    · exact digitValue?_of_lt hlow hradix

/-! ## Spelled numbers -/

/-- What was spelled before some digits counts as much as their number says. -/
theorem append_eq_add (radix n : Nat) (ds : List Nat) :
    append radix n ds = n * radix ^ ds.length + append radix 0 ds := by
  induction ds generalizing n with
  | nil => simp [append]
  | cons d ds ih =>
    rw [append, append, ih, ih (0 * radix + d), List.length_cons, Nat.pow_succ', Nat.add_mul,
      Nat.zero_mul, Nat.zero_add, Nat.mul_assoc, Nat.add_assoc]

theorem length_of_digitValues? {radix : Nat} {cs : List Char} {ds : List Nat}
    (h : digitValues? radix cs = some ds) : ds.length = cs.length := by
  induction cs generalizing ds with
  | nil =>
    cases h
    rfl
  | cons c cs ih =>
    rw [digitValues?] at h
    split at h
    · next d es _ hes =>
      cases h
      rw [List.length_cons, List.length_cons, ih hes]
    · cases h

theorem spells_of_digitValues? {radix : Nat} {c : Char} {cs : List Char} {ds : List Nat}
    (h : digitValues? radix (c :: cs) = some ds) : Spells radix (c :: cs) (append radix 0 ds) := by
  induction cs generalizing c ds with
  | nil =>
    simp only [digitValues?] at h
    split at h
    · next d es hd hes =>
      cases hes
      cases h
      rw [append, append, Nat.zero_mul, Nat.zero_add]
      exact .last (digitValue?_eq_some_iff.mp hd)
    · cases h
  | cons e cs ih =>
    rw [digitValues?] at h
    split at h
    · next d es hd hes =>
      cases h
      rw [append, Nat.zero_mul, Nat.zero_add, append_eq_add, length_of_digitValues? hes]
      exact .cons (digitValue?_eq_some_iff.mp hd) (ih hes)
    · cases h

theorem Spells.digitValues? {radix n : Nat} {cs : List Char} (h : Spells radix cs n) :
    ∃ ds, digitValues? radix cs = some ds ∧ append radix 0 ds = n := by
  induction h with
  | @last c d digit =>
    refine ⟨[d], ?_, by simp [append]⟩
    simp [Numeral.digitValues?, digitValue?_eq_some_iff.mpr digit]
  | @cons c cs d n digit rest ih =>
    obtain ⟨ds, hds, hn⟩ := ih
    refine ⟨d :: ds, by rw [Numeral.digitValues?, digitValue?_eq_some_iff.mpr digit, hds], ?_⟩
    rw [append, Nat.zero_mul, Nat.zero_add, append_eq_add, length_of_digitValues? hds, hn]

theorem unsigned?_eq_some_iff {radix n : Nat} {cs : List Char} :
    unsigned? radix cs = some n ↔ Spells radix cs n := by
  cases cs with
  | nil =>
    constructor
    · intro h
      cases h
    · intro h
      cases h
  | cons c cs =>
    rw [unsigned?, Option.map_eq_some_iff]
    constructor
    · rintro ⟨ds, hds, rfl⟩
      exact spells_of_digitValues? hds
    · exact Spells.digitValues?

/-! ## The reader of numbers -/

theorem not_spells_plus {radix n : Nat} {cs : List Char} : ¬ Spells radix ('+' :: cs) n := by
  intro h
  have hplus : digitValue? radix '+' = none := rfl
  rw [← unsigned?_eq_some_iff, unsigned?_eq_none_of_mem hplus List.mem_cons_self] at h
  cases h

/-- The reader takes the signed numbers below its bound, and nothing else. -/
theorem read?_eq_some_iff {radix bound n : Nat} {cs : List Char} :
    read? radix bound cs = some n ↔ n < bound ∧ Signed radix cs n := by
  unfold read?
  dsimp only
  rw [Option.filter_eq_some_iff, unsigned?_eq_some_iff, decide_eq_true_eq, and_comm]
  refine and_congr_right fun _ => ?_
  split
  · next rest =>
    constructor
    · intro h
      exact Or.inr ⟨rest, rfl, h⟩
    · rintro (h | ⟨ds, heq, h⟩)
      · exact absurd h not_spells_plus
      · cases heq
        exact h
  · next hplus =>
    constructor
    · exact Or.inl
    · rintro (h | ⟨ds, rfl, _⟩)
      · exact h
      · exact absurd rfl (hplus ds)

end Bytecode.Numeral
