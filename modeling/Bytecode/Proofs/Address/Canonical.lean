import Bytecode.Proofs.Address.Grammar

/-!
# Canonical labels

A label has one written form and may be read from many: its number may have a sign, lower-case
digits and any number of zeros in front. The written form is the one that has none of these, beyond
the zeros that fill it up to four digits (`Canonical`). Stem and number are told apart by the last
underscore, so no two labels share a written form, whatever underscores and digits a stem ends in.

* `Numeral.digits_append`: digits that start with no zero are the digits of the number they spell;
* `Numeral.leftpad_digits_append`: any other digits are, once zeros fill them up;
* `Numeral.upperHex_eq_iff`: of all spellings of a number the canonical one is written;
* `Label.read_and_written`: what is read, what is written, and when the two are the same text.
-/

namespace Bytecode

namespace Numeral

/-- How numbers are written when they are filled up to a width: in upper-case digits without a sign,
and with no zero in front of more digits than are asked for. -/
structure Canonical (width : Nat) (cs : List Char) : Prop where
  no_sign : '+' ∉ cs
  no_lower : ∀ c ∈ cs, c.isLower = false
  width_le : width ≤ cs.length
  no_zero : width < cs.length → cs.head? ≠ some '0'

/-! ## The digits of a spelled number -/

theorem digits_concat {radix n d : Nat} (hradix : 1 < radix) (hn : 0 < n) (hd : d < radix) :
    digits radix (n * radix + d) = digits radix n ++ [d] := by
  have hge : radix ≤ n * radix := Nat.le_mul_of_pos_left radix hn
  have hquotient : (n * radix + d) / radix = n := by
    rw [Nat.mul_comm, Nat.mul_add_div (by omega), Nat.div_eq_of_lt hd, Nat.add_zero]
  have hremainder : (n * radix + d) % radix = d := by
    rw [Nat.mul_comm, Nat.mul_add_mod, Nat.mod_eq_of_lt hd]
  rw [digits, if_neg (by omega), hquotient, hremainder]

theorem digits_append_of_pos {radix n : Nat} (hradix : 1 < radix) (hn : 0 < n) {ds : List Nat}
    (hds : ∀ d ∈ ds, d < radix) : digits radix (append radix n ds) = digits radix n ++ ds := by
  induction ds generalizing n with
  | nil => rw [append, List.append_nil]
  | cons d ds ih =>
    obtain ⟨hd, hrest⟩ := List.forall_mem_cons.mp hds
    have hpos : 0 < n * radix + d := by
      have := Nat.mul_pos hn (show 0 < radix by omega)
      omega
    rw [append, ih hpos hrest, digits_concat hradix hn hd, List.append_assoc, List.singleton_append]

/-- Digits that start with no zero are those of the number they spell. -/
theorem digits_append {radix d : Nat} (hradix : 1 < radix) (hd : 0 < d) {ds : List Nat}
    (hds : ∀ e ∈ d :: ds, e < radix) : digits radix (append radix 0 (d :: ds)) = d :: ds := by
  obtain ⟨hlt, hrest⟩ := List.forall_mem_cons.mp hds
  rw [append, Nat.zero_mul, Nat.zero_add, digits_append_of_pos hradix hd hrest, digits,
    if_pos (Or.inl hlt), List.singleton_append]

theorem leftpad_of_length_le {α : Type} {width : Nat} {x : α} {xs : List α}
    (h : width ≤ xs.length) : xs.leftpad width x = xs := by
  rw [List.leftpad, Nat.sub_eq_zero_of_le h]
  rfl

/-- Any digits are those of the number they spell, filled up with zeros. -/
theorem leftpad_digits_append {radix : Nat} (hradix : 1 < radix) {ds : List Nat} (hne : ds ≠ [])
    (hds : ∀ d ∈ ds, d < radix) : (digits radix (append radix 0 ds)).leftpad ds.length 0 = ds := by
  induction ds with
  | nil => exact absurd rfl hne
  | cons d ds ih =>
    cases d with
    | succ d =>
      rw [digits_append hradix (Nat.succ_pos d) hds, leftpad_of_length_le (Nat.le_refl _)]
    | zero =>
      rw [append, Nat.zero_mul, Nat.zero_add]
      cases ds with
      | nil =>
        rw [append, digits, if_pos (Or.inl (by omega)), leftpad_of_length_le (Nat.le_refl _)]
      | cons e ds =>
        -- One more zero in front fills up one more place.
        have hrest := ih (List.cons_ne_nil e ds) fun c hc => hds c (List.mem_cons_of_mem _ hc)
        have hlen := congrArg List.length hrest
        rw [List.length_leftpad] at hlen
        rw [List.leftpad] at hrest
        rw [List.leftpad, List.length_cons, Nat.sub_add_comm (by omega), List.replicate_succ,
          List.cons_append, hrest]

/-! ## The canonical spelling -/

theorem upperDigit_eq {d : Nat} {c : Char} (hd : digitValue? 16 c = some d)
    (hc : c.isLower = false) : upperDigit d = c := by
  have hlow : ∀ d < 16, (lowerDigit d).isLower = false → upperDigit d = lowerDigit d := by decide
  obtain ⟨hlt, _, rfl | rfl⟩ := eq_digit_of_digitValue? hd
  · rfl
  · exact hlow d hlt hc

theorem map_upperDigit_eq {cs : List Char} {ds : List Nat} (h : digitValues? 16 cs = some ds)
    (hcs : ∀ c ∈ cs, c.isLower = false) : ds.map upperDigit = cs := by
  induction cs generalizing ds with
  | nil =>
    cases h
    rfl
  | cons c cs ih =>
    obtain ⟨hc, hrest⟩ := List.forall_mem_cons.mp hcs
    rw [digitValues?] at h
    split at h
    · next d es hd hes =>
      cases h
      rw [List.map_cons, upperDigit_eq hd hc, ih hes hrest]
    · cases h

theorem lt_of_mem_digitValues {radix : Nat} {cs : List Char} {ds : List Nat}
    (h : digitValues? radix cs = some ds) {d : Nat} (hd : d ∈ ds) : d < radix := by
  induction cs generalizing ds with
  | nil =>
    cases h
    cases hd
  | cons c cs ih =>
    rw [digitValues?] at h
    split at h
    · next e es he hes =>
      cases h
      rcases List.mem_cons.mp hd with rfl | hd
      · exact (eq_digit_of_digitValue? he).1
      · exact ih hes hd
    · cases h

theorem length_upperHex_eq_max (width n : Nat) :
    (upperHex width n).length = max width (digits 16 n).length := by
  rw [upperHex, List.length_leftpad, List.length_map]

theorem canonical_upperHex {width : Nat} (hwidth : 0 < width) (n : Nat) :
    Canonical width (upperHex width n) where
  no_sign hmem := absurd (mem_upperAlphabet hmem) (by decide)
  no_lower c hc := by
    have halphabet : (upperAlphabet.all fun c => !c.isLower) = true := by decide
    simpa using List.all_eq_true.mp halphabet c (mem_upperAlphabet hc)
  width_le := by
    rw [length_upperHex_eq_max]
    exact Nat.le_max_left _ _
  no_zero hlong hhead := by
    have hzero : ∀ d < 16, upperDigit d = '0' → d = 0 := by decide
    -- So many digits are not filled up, and only the number zero starts with a zero.
    have hlen : width < (digits 16 n).length := by
      rw [length_upperHex_eq_max] at hlong
      omega
    rw [upperHex_eq_map, leftpad_of_length_le (Nat.le_of_lt hlen), List.head?_map,
      Option.map_eq_some_iff] at hhead
    obtain ⟨d, hd, hchar⟩ := hhead
    have hlt := lt_of_mem_digits (by omega) (List.mem_of_head? hd)
    rw [hzero d hlt hchar] at hd
    obtain rfl := eq_zero_of_head_digits hd
    rw [digits, if_pos (Or.inl (by omega)), List.length_singleton] at hlen
    omega

/-- Of all spellings of a number the canonical one is written. -/
theorem upperHex_eq_iff {width n : Nat} {cs : List Char} (hwidth : 0 < width)
    (h : Signed 16 cs n) : upperHex width n = cs ↔ Canonical width cs := by
  constructor
  · rintro rfl
    exact canonical_upperHex hwidth n
  · intro hcs
    have hspelled : Spells 16 cs n := by
      rcases h with h | ⟨ds, rfl, _⟩
      · exact h
      · exact absurd List.mem_cons_self hcs.no_sign
    obtain ⟨ds, hds, rfl⟩ := hspelled.digitValues?
    have hchars : ds.map upperDigit = cs := map_upperDigit_eq hds hcs.no_lower
    have hlt : ∀ d ∈ ds, d < 16 := fun d => lt_of_mem_digitValues hds
    have hlength := length_of_digitValues? hds
    have hle := hcs.width_le
    rw [upperHex_eq_map]
    rcases Nat.eq_or_lt_of_le hle with heq | hlong
    · have hne : ds ≠ [] := by
        rintro rfl
        rw [List.length_nil] at hlength
        omega
      rw [heq, ← hlength, leftpad_digits_append (by omega) hne hlt, hchars]
    · cases ds with
      | nil =>
        rw [List.length_nil] at hlength
        omega
      | cons d ds =>
        have hd : 0 < d := by
          refine Nat.pos_of_ne_zero fun hzero => hcs.no_zero hlong ?_
          rw [← hchars, hzero]
          rfl
        rw [digits_append (by omega) hd hlt, leftpad_of_length_le (hlength ▸ hle), hchars]

end Numeral

/-! ## Labels -/

namespace Label

/-- Labels of different stems or addresses have different texts. -/
theorem text_inj {l l' : Label} (h : l.text = l'.text) : l = l' := by
  have hsplit : ∀ l : Label, splitLast? '_' l.text.toList =
      some (l.stem.toList, Numeral.upperHex 4 l.address.toNat) := fun l => by
    rw [toList_text, splitLast?_append _ (underscore_not_mem_upperHex 4 _)]
  have hparts := hsplit l
  rw [h, hsplit l', Option.some.injEq, Prod.mk.injEq] at hparts
  obtain ⟨stem, address⟩ := l
  obtain ⟨stem', address'⟩ := l'
  obtain rfl := String.toList_inj.mp hparts.1
  obtain rfl := UInt32.toNat_inj.mp (Numeral.upperHex_inj hparts.2)
  rfl

theorem text_eq_iff {l : Label} {text : String} {ds : List Char}
    (htext : text.toList = l.stem.toList ++ '_' :: ds)
    (hds : Numeral.Signed 16 ds l.address.toNat) : l.text = text ↔ Numeral.Canonical 4 ds := by
  rw [← String.toList_inj, toList_text, htext, List.append_cancel_left_eq, List.cons.injEq,
    and_iff_right rfl]
  exact Numeral.upperHex_eq_iff (by omega) hds

/-- **Labels are written in one way and read in many.** A written label is read back, unless its
stem is empty, and no two labels are written alike. A text is read as a label exactly if it is a
stem, an underscore and a hexadecimal number below 2³², with a sign or without; what is read is
written as the same text exactly if that number is canonical for four digits. -/
theorem read_and_written :
    (∀ l : Label, ofText? l.text = if l.stem = "" then none else some l) ∧
    Function.Injective text ∧
    (∀ (s stem : String) (n : Nat),
      (ofText? s).map (fun l => (l.stem, l.address.toNat)) = some (stem, n) ↔
        stem ≠ "" ∧ ∃ ds, s = stem ++ "_" ++ String.ofList ds ∧ Numeral.Signed 16 ds n ∧
          n < 2 ^ 32) ∧
    ∀ (s : String) (l : Label), ofText? s = some l →
      ∃ ds, s = l.stem ++ "_" ++ String.ofList ds ∧ (l.text = s ↔ Numeral.Canonical 4 ds) := by
  have hlist : ∀ (s stem : String) (ds : List Char),
      s = stem ++ "_" ++ String.ofList ds ↔ s.toList = stem.toList ++ '_' :: ds := by
    intro s stem ds
    rw [← String.toList_inj]
    simp
  refine ⟨ofText?_text, fun l l' => text_inj, fun s stem n => ?_, fun s l hl => ?_⟩
  · simp only [hlist]
    constructor
    · intro h
      obtain ⟨l, hl, hparts⟩ := Option.map_eq_some_iff.mp h
      obtain ⟨rfl, rfl⟩ := Prod.mk.inj hparts
      obtain ⟨hne, ds, htext, hds⟩ := ofText?_eq_some_iff.mp hl
      exact ⟨hne, ds, htext, hds, l.address.toNat_lt⟩
    · rintro ⟨hne, ds, htext, hds, hlt⟩
      have hn : (UInt32.ofNat n).toNat = n := UInt32.toNat_ofNat_of_lt' hlt
      have hl : ofText? s = some ⟨stem, UInt32.ofNat n⟩ :=
        ofText?_eq_some_iff.mpr ⟨hne, ds, htext, by rwa [hn]⟩
      rw [hl, Option.map_some, hn]
  · obtain ⟨_, ds, htext, hds⟩ := ofText?_eq_some_iff.mp hl
    exact ⟨ds, (hlist s l.stem ds).mpr htext, text_eq_iff htext hds⟩

/-- A stem that ends like a label, and a number that is read and never written. -/
example : ofText? "loc_001C_+0001f" = some ⟨"loc_001C", 0x1F⟩ := by decide

end Label

end Bytecode
