import Bytecode.Json.Fault
import Bytecode.Text.Utf8

/-!
# Quoted strings

Strings of a document, from after their opening quote. A string that is kept must be UTF-8 once its
escapes are undone, and its surrogate escapes must pair up; a string that is skipped need not.

* `readString`: the text of a string;
* `skipString`: only its end.
-/

namespace Bytecode.Json

/-- The value of a byte as a hexadecimal digit of either case. -/
def hexValue? (b : UInt8) : Option Nat := Numeral.digitValue? 16 (Char.ofNat b.toNat)

/-- The four digits of an escape by code unit. All four are read before any is looked at. -/
def hexEscape (ending : Ending) (s : List UInt8) : Except Fault (Nat × List UInt8) :=
  match s with
  | a :: b :: c :: d :: r =>
    match hexValue? a, hexValue? b, hexValue? c, hexValue? d with
    | some a, some b, some c, some d => .ok (Numeral.append 16 0 [a, b, c, d], r)
    | _, _, _, _ => .error (.placed .invalidEscape r.length)
  | _ => .error (cutOff ending .stringEnds)

/-- The character that one letter after a backslash stands for. -/
def letterEscape? (b : UInt8) : Option Char :=
  if b = 0x22 then some '"'
  else if b = 0x5C then some '\\'
  else if b = 0x2F then some '/'
  else if b = 0x62 then some '\x08'
  else if b = 0x66 then some '\x0c'
  else if b = 0x6E then some '\n'
  else if b = 0x72 then some '\r'
  else if b = 0x74 then some '\t'
  else none

/-- One byte that has to be `b`, between the two halves of a surrogate pair. -/
def pairByte (ending : Ending) (b : UInt8) (s : List UInt8) : Except Fault (List UInt8) :=
  match s with
  | [] => .error (cutOff ending .stringEnds)
  | c :: r => if c = b then .ok r else .error (.placed .unfinishedSurrogate r.length)

/-- The code point of two halves. -/
def joinSurrogates (high low : Nat) : Nat := 0x10000 + (high - 0xD800) * 0x400 + (low - 0xDC00)

/-- The character of an escape by code unit: one unit, or a high and a low surrogate. -/
def unicodeEscape (ending : Ending) (s : List UInt8) : Except Fault (Char × List UInt8) :=
  match hexEscape ending s with
  | .error f => .error f
  | .ok (n, r) =>
    if 0xDC00 ≤ n ∧ n ≤ 0xDFFF then .error (.placed .loneSurrogate r.length)
    else if 0xD800 ≤ n ∧ n ≤ 0xDBFF then
      match pairByte ending 0x5C r with
      | .error f => .error f
      | .ok r =>
        match pairByte ending 0x75 r with
        | .error f => .error f
        | .ok r =>
          match hexEscape ending r with
          | .error f => .error f
          | .ok (low, r) =>
            if 0xDC00 ≤ low ∧ low ≤ 0xDFFF then .ok (Char.ofNat (joinSurrogates n low), r)
            else .error (.placed .loneSurrogate r.length)
    else .ok (Char.ofNat n, r)

/-- The character of an escape, from after its backslash. -/
def readEscape (ending : Ending) (s : List UInt8) : Except Fault (Char × List UInt8) :=
  match s with
  | [] => .error (cutOff ending .stringEnds)
  | b :: r =>
    if b = 0x75 then unicodeEscape ending r
    else match letterEscape? b with
      | some c => .ok (c, r)
      | none => .error (.placed .invalidEscape r.length)

/-- The end of an escape, which need not stand for a character. -/
def skipEscape (ending : Ending) (s : List UInt8) : Except Fault (List UInt8) :=
  match s with
  | [] => .error (cutOff ending .stringEnds)
  | b :: r =>
    if b = 0x75 then (hexEscape ending r).map (·.2)
    else if (letterEscape? b).isSome then .ok r
    else .error (.placed .invalidEscape r.length)

/-! ## What an escape by code unit may be -/

theorem pairByte_eq_ok_iff {ending : Ending} {b : UInt8} {s r : List UInt8} :
    pairByte ending b s = .ok r ↔ s = b :: r := by
  unfold pairByte
  constructor
  · intro h
    split at h
    · cases h
    · split at h
      · rename_i hb
        cases h
        rw [hb]
      · cases h
  · rintro rfl
    exact if_pos rfl

/-- It is one unit that is no surrogate, or a high and a low one with `\u` between them. -/
theorem unicodeEscape_eq_ok_iff {ending : Ending} {s r : List UInt8} {c : Char} :
    unicodeEscape ending s = .ok (c, r) ↔
      (∃ n, hexEscape ending s = .ok (n, r) ∧ ¬ (0xDC00 ≤ n ∧ n ≤ 0xDFFF) ∧
        ¬ (0xD800 ≤ n ∧ n ≤ 0xDBFF) ∧ Char.ofNat n = c) ∨
      ∃ n low t, hexEscape ending s = .ok (n, 0x5C :: 0x75 :: t) ∧ (0xD800 ≤ n ∧ n ≤ 0xDBFF) ∧
        hexEscape ending t = .ok (low, r) ∧ (0xDC00 ≤ low ∧ low ≤ 0xDFFF) ∧
        Char.ofNat (joinSurrogates n low) = c := by
  constructor
  · intro h
    unfold unicodeEscape at h
    split at h
    · cases h
    rename_i n r₁ hfirst
    split at h
    · cases h
    rename_i hnolow
    split at h
    · rename_i hhigh
      split at h
      · cases h
      rename_i r₂ hslash
      split at h
      · cases h
      rename_i r₃ hletter
      split at h
      · cases h
      rename_i low r₄ hsecond
      split at h
      · rename_i hlow
        obtain ⟨hc, rfl⟩ := Prod.mk.inj (Except.ok.inj h)
        rw [pairByte_eq_ok_iff] at hslash hletter
        exact Or.inr ⟨n, low, r₃, by rw [hfirst, hslash, hletter], hhigh, hsecond, hlow, hc⟩
      · cases h
    · rename_i hnohigh
      obtain ⟨hc, rfl⟩ := Prod.mk.inj (Except.ok.inj h)
      exact Or.inl ⟨n, hfirst, hnolow, hnohigh, hc⟩
  · rintro (⟨n, hfirst, hnolow, hnohigh, rfl⟩ | ⟨n, low, t, hfirst, hhigh, hsecond, hlow, rfl⟩)
    · simp only [unicodeEscape, hfirst, if_neg hnolow, if_neg hnohigh]
    · have hnolow : ¬ (0xDC00 ≤ n ∧ n ≤ 0xDFFF) := by omega
      have hslash : pairByte ending 0x5C (0x5C :: 0x75 :: t) = .ok (0x75 :: t) :=
        pairByte_eq_ok_iff.mpr rfl
      have hletter : pairByte ending 0x75 (0x75 :: t) = .ok t := pairByte_eq_ok_iff.mpr rfl
      simp only [unicodeEscape, hfirst, if_neg hnolow, if_pos hhigh, hslash, hletter, hsecond,
        if_pos hlow]

/-! ## Each step leaves fewer bytes -/

theorem hexEscape_length {ending : Ending} {s r : List UInt8} {n : Nat}
    (h : hexEscape ending s = .ok (n, r)) : r.length < s.length := by
  unfold hexEscape at h
  split at h
  · split at h
    · simp only [Except.ok.injEq, Prod.mk.injEq] at h
      obtain ⟨_, rfl⟩ := h
      simp only [List.length_cons]; omega
    · cases h
  · cases h

theorem unicodeEscape_length {ending : Ending} {s r : List UInt8} {c : Char}
    (h : unicodeEscape ending s = .ok (c, r)) : r.length < s.length := by
  rcases unicodeEscape_eq_ok_iff.mp h with ⟨n, hfirst, _⟩ | ⟨n, low, t, hfirst, _, hsecond, _⟩
  · exact hexEscape_length hfirst
  · have l₁ := hexEscape_length hfirst
    have l₂ := hexEscape_length hsecond
    simp only [List.length_cons] at l₁
    omega

theorem readEscape_length {ending : Ending} {s r : List UInt8} {c : Char}
    (h : readEscape ending s = .ok (c, r)) : r.length < s.length := by
  unfold readEscape at h
  split at h
  · cases h
  · split at h
    · have := unicodeEscape_length h
      simp only [List.length_cons]; omega
    · split at h
      · cases h; simp
      · cases h

theorem skipEscape_length {ending : Ending} {s r : List UInt8}
    (h : skipEscape ending s = .ok r) : r.length < s.length := by
  unfold skipEscape at h
  split at h
  · cases h
  · split at h
    · rename_i b t _
      cases h₁ : hexEscape ending t with
      | error f => rw [h₁] at h; cases h
      | ok p =>
        rw [h₁] at h; cases h
        have := hexEscape_length h₁
        simp only [List.length_cons]; omega
    · split at h
      · cases h; simp
      · cases h

/-! ## Whole strings -/

/-- The bytes of a string with its escapes undone, after `done` in reverse, and what follows the
closing quote. -/
def readBytes (ending : Ending) (done : List UInt8) (s : List UInt8) :
    Except Fault (List UInt8 × List UInt8) :=
  match s with
  | [] => .error (cutOff ending .stringEnds)
  | b :: r =>
    if b = 0x22 then .ok (done.reverse, r)
    else if b = 0x5C then
      match _h : readEscape ending r with
      | .error f => .error f
      | .ok (c, r') => readBytes ending ((String.utf8EncodeChar c).reverse ++ done) r'
    else if b < 0x20 then .error (.placed .controlCharacter r.length)
    else readBytes ending (b :: done) r
termination_by s.length
decreasing_by
  · have := readEscape_length _h
    simp only [List.length_cons]; omega
  · simp

/-- The text of a string. Where it is not UTF-8 the fault lies as many bytes before the closing quote
as are left over from the last whole character on. -/
def readString (ending : Ending) (s : List UInt8) : Except Fault (String × List UInt8) :=
  match readBytes ending [] s with
  | .error f => .error f
  | .ok (bytes, r) =>
    match Text.decode bytes with
    | (cs, []) => .ok (String.ofList cs, r)
    | (_, b :: left) => .error (.placed .invalidCodePoint (r.length + (b :: left).length))

/-- What follows the closing quote of a string. -/
def skipString (ending : Ending) (s : List UInt8) : Except Fault (List UInt8) :=
  match s with
  | [] => .error (cutOff ending .stringEnds)
  | b :: r =>
    if b = 0x22 then .ok r
    else if b = 0x5C then
      match _h : skipEscape ending r with
      | .error f => .error f
      | .ok r' => skipString ending r'
    else if b < 0x20 then .error (.placed .controlCharacter r.length)
    else skipString ending r
termination_by s.length
decreasing_by
  · have := skipEscape_length _h
    simp only [List.length_cons]; omega
  · simp

theorem readBytes_length {ending : Ending} {done s bytes r : List UInt8}
    (h : readBytes ending done s = .ok (bytes, r)) : r.length < s.length := by
  fun_induction readBytes ending done s with
  | case1 => cases h
  | case2 done r' => cases h; simp
  | case3 => cases h
  | case4 done r' c r'' he _ ih =>
    have := ih h
    have := readEscape_length he
    simp only [List.length_cons]; omega
  | case5 => cases h
  | case6 done b r' _ _ _ ih =>
    have := ih h
    simp only [List.length_cons]; omega

theorem readString_length {ending : Ending} {s r : List UInt8} {text : String}
    (h : readString ending s = .ok (text, r)) : r.length < s.length := by
  unfold readString at h
  split at h
  · cases h
  · rename_i bytes r' hb
    split at h
    · cases h; exact readBytes_length hb
    · cases h

theorem skipString_length {ending : Ending} {s r : List UInt8}
    (h : skipString ending s = .ok r) : r.length < s.length := by
  fun_induction skipString ending s with
  | case1 => cases h
  | case2 r' => cases h; simp
  | case3 => cases h
  | case4 r' r'' he _ ih =>
    have := ih h
    have := skipEscape_length he
    simp only [List.length_cons]; omega
  | case5 => cases h
  | case6 b r' _ _ _ ih =>
    have := ih h
    simp only [List.length_cons]; omega

end Bytecode.Json
