import Bytecode.Json.Skip
import Bytecode.Json.Value

/-!
# Strings that are read

A string is read character by character. An escape is read as the character that it stands for
(`readBytes_escape`), and the bytes of every other character stand for themselves, since none of
them is a quote, a backslash or a control character (`isPlain_of_mem_utf8EncodeChar`).
-/

namespace Bytecode.Json

/-- A byte that stands for itself inside a string. -/
def isPlain (b : UInt8) : Bool := b ≠ 0x22 && b ≠ 0x5C && 0x20 ≤ b

theorem readBytes_plain (ending : Ending) {bs : List UInt8} (h : ∀ b ∈ bs, isPlain b = true)
    (done tail : List UInt8) :
    readBytes ending done (bs ++ tail) = readBytes ending (bs.reverse ++ done) tail := by
  induction bs generalizing done with
  | nil => rfl
  | cons b bs ih =>
    have hb := h b List.mem_cons_self
    simp only [isPlain, Bool.and_eq_true, decide_eq_true_eq] at hb
    obtain ⟨⟨hquote, hslash⟩, hlow⟩ := hb
    rw [List.cons_append, readBytes, if_neg hquote, if_neg hslash,
      if_neg (UInt8.not_lt.mpr hlow), ih fun c hc => h c (List.mem_cons_of_mem _ hc)]
    simp

theorem readBytes_escape {ending : Ending} {r r' : List UInt8} {c : Char}
    (h : readEscape ending r = .ok (c, r')) (done : List UInt8) :
    readBytes ending done (0x5C :: r) =
      readBytes ending ((String.utf8EncodeChar c).reverse ++ done) r' := by
  rw [readBytes, if_neg (by decide), if_pos rfl]
  split
  · rename_i f hf
    rw [h] at hf; cases hf
  · rename_i d t hd
    rw [h] at hd; cases hd
    rfl

theorem skipString_escape {ending : Ending} {s r : List UInt8} (h : skipEscape ending s = .ok r) :
    skipString ending (0x5C :: s) = skipString ending r := by
  rw [skipString, if_neg (by decide), if_pos rfl]
  split
  · rename_i f hf
    rw [h] at hf; cases hf
  · rename_i t ht
    rw [h] at ht; cases ht
    rfl

private theorem isPlain_of_high {n : Nat} (low : 0x80 ≤ n) (high : n < 0x100) :
    isPlain (UInt8.ofNat n) = true := by
  have hn : (UInt8.ofNat n).toNat = n := by
    rw [UInt8.toNat_ofNat']
    omega
  simp only [isPlain, Bool.and_eq_true, decide_eq_true_eq, ne_eq, ← UInt8.toNat_inj,
    UInt8.le_iff_toNat_le, hn]
  refine ⟨⟨?_, ?_⟩, ?_⟩
  · show ¬ n = 0x22
    omega
  · show ¬ n = 0x5C
    omega
  · show 0x20 ≤ n
    omega

theorem isPlain_of_mem_utf8EncodeChar {c : Char} (hquote : c ≠ '"') (hslash : c ≠ '\\')
    (hlow : 0x20 ≤ c.toNat) {b : UInt8} (hb : b ∈ String.utf8EncodeChar c) : isPlain b = true := by
  have hv : c.val.toNat = c.toNat := rfl
  simp only [String.utf8EncodeChar, hv] at hb
  split at hb
  · rename_i hle
    obtain rfl := List.mem_singleton.mp hb
    have hn : (UInt8.ofNat c.toNat).toNat = c.toNat := by
      rw [UInt8.toNat_ofNat']
      omega
    have hne : ∀ d : Char, c ≠ d → c.toNat ≠ d.toNat := fun d hd he => hd (Char.toNat_inj.mp he)
    simp only [isPlain, Bool.and_eq_true, decide_eq_true_eq, ne_eq, ← UInt8.toNat_inj,
      UInt8.le_iff_toNat_le, hn]
    exact ⟨⟨hne _ hquote, hne _ hslash⟩, hlow⟩
  · split at hb
    · simp only [List.mem_cons, List.not_mem_nil, or_false] at hb
      rcases hb with rfl | rfl
      all_goals exact isPlain_of_high (by omega) (by omega)
    · split at hb
      · simp only [List.mem_cons, List.not_mem_nil, or_false] at hb
        rcases hb with rfl | rfl | rfl
        all_goals exact isPlain_of_high (by omega) (by omega)
      · simp only [List.mem_cons, List.not_mem_nil, or_false] at hb
        rcases hb with rfl | rfl | rfl | rfl
        all_goals exact isPlain_of_high (by omega) (by omega)

end Bytecode.Json
