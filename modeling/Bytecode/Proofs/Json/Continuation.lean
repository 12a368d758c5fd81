import Bytecode.Proofs.Json.Strings
import Bytecode.Proofs.Sequencing

/-!
# Bytes that come later

What a reader has read does not change when more bytes come behind. A string, a word or a colon is
read to its end, so nothing that comes later is part of it. A number ends only where a byte stands
that cannot go on with it; if the bytes end first, what comes later may be more of the number, and
so may it be for a skipped value. These are read the same if any byte was left behind them.
-/

namespace Bytecode.Json

variable {ending : Ending} {s r : List UInt8}

theorem skipBlank_more {b : UInt8} (h : skipBlank s = b :: r) (more : List UInt8) :
    skipBlank (s ++ more) = b :: (r ++ more) := by
  rw [skipBlank] at h ⊢
  rw [List.dropWhile_append, h]
  rfl

theorem ne_nil_of_length_lt (h : r.length < s.length) : s ≠ [] :=
  List.ne_nil_of_length_pos (Nat.zero_lt_of_lt h)

theorem ne_nil_of_length_le (h : r.length ≤ s.length) (hr : r ≠ []) : s ≠ [] :=
  List.ne_nil_of_length_pos (Nat.lt_of_lt_of_le (List.length_pos_iff.mpr hr) h)

/-! ## Strings -/

theorem hexEscape_more {n : Nat} (h : hexEscape ending s = .ok (n, r)) (more : List UInt8) :
    hexEscape ending (s ++ more) = .ok (n, r ++ more) := by
  unfold hexEscape at h
  split at h
  · split at h
    · rename_i a b c d t _ _ _ _ ha hb hc hd
      cases h
      simp only [List.cons_append, hexEscape, ha, hb, hc, hd]
    · cases h
  · cases h

theorem unicodeEscape_more {c : Char} (h : unicodeEscape ending s = .ok (c, r))
    (more : List UInt8) : unicodeEscape ending (s ++ more) = .ok (c, r ++ more) := by
  rw [unicodeEscape_eq_ok_iff] at h ⊢
  rcases h with ⟨n, hfirst, h⟩ | ⟨n, low, t, hfirst, hhigh, hsecond, h⟩
  · exact Or.inl ⟨n, hexEscape_more hfirst more, h⟩
  · exact Or.inr ⟨n, low, t ++ more, hexEscape_more hfirst more, hhigh,
      hexEscape_more hsecond more, h⟩

theorem readEscape_more {c : Char} (h : readEscape ending s = .ok (c, r)) (more : List UInt8) :
    readEscape ending (s ++ more) = .ok (c, r ++ more) := by
  unfold readEscape at h
  split at h
  · cases h
  · rename_i b t
    split at h
    · rename_i hb
      rw [List.cons_append, readEscape, if_pos hb, unicodeEscape_more h]
    · rename_i hb
      split at h
      · rename_i hletter
        cases h
        simp only [List.cons_append, readEscape, if_neg hb, hletter]
      · cases h

theorem skipEscape_more (h : skipEscape ending s = .ok r) (more : List UInt8) :
    skipEscape ending (s ++ more) = .ok (r ++ more) := by
  unfold skipEscape at h
  split at h
  · cases h
  · rename_i b t
    rw [List.cons_append, skipEscape]
    split at h
    · rename_i hb
      cases hhex : hexEscape ending t with
      | error f => rw [hhex] at h; cases h
      | ok p =>
        rw [hhex] at h; cases h
        rw [if_pos hb, hexEscape_more hhex]
        rfl
    · rename_i hb
      split at h
      · rename_i hletter
        cases h
        rw [if_neg hb, if_pos hletter]
      · cases h

theorem readBytes_more {done bytes : List UInt8} (h : readBytes ending done s = .ok (bytes, r))
    (more : List UInt8) : readBytes ending done (s ++ more) = .ok (bytes, r ++ more) := by
  fun_induction readBytes ending done s with
  | case1 => cases h
  | case2 done t => cases h; rw [List.cons_append, readBytes, if_pos rfl]
  | case3 => cases h
  | case4 done t c t' hescape _ ih =>
    rw [List.cons_append, readBytes_escape (readEscape_more hescape more) done, ih h]
  | case5 => cases h
  | case6 done b t hquote hslash hcontrol ih =>
    rw [List.cons_append, readBytes, if_neg hquote, if_neg hslash, if_neg hcontrol, ih h]

theorem readString_more {text : String} (h : readString ending s = .ok (text, r))
    (more : List UInt8) : readString ending (s ++ more) = .ok (text, r ++ more) := by
  unfold readString at h
  split at h
  · cases h
  · rename_i bytes t hbytes
    split at h
    · rename_i cs hdecode
      cases h
      simp only [readString, readBytes_more hbytes, hdecode]
    · cases h

theorem skipString_more (h : skipString ending s = .ok r) (more : List UInt8) :
    skipString ending (s ++ more) = .ok (r ++ more) := by
  fun_induction skipString ending s with
  | case1 => cases h
  | case2 t => cases h; rw [List.cons_append, skipString, if_pos rfl]
  | case3 => cases h
  | case4 t t' hescape _ ih =>
    rw [List.cons_append, skipString_escape (skipEscape_more hescape more), ih h]
  | case5 => cases h
  | case6 b t hquote hslash hcontrol ih =>
    rw [List.cons_append, skipString, if_neg hquote, if_neg hslash, if_neg hcontrol, ih h]

/-! ## Numbers -/

theorem lookPast_of_ne_nil (hs : s ≠ []) : lookPast ending s = .ok () := by
  cases s with
  | nil => exact absurd rfl hs
  | cons b s => cases ending <;> rfl

theorem lookPast_more (hs : s ≠ []) (more : List UInt8) :
    lookPast ending (s ++ more) = .ok () :=
  lookPast_of_ne_nil (List.append_ne_nil_of_left_ne_nil hs more)

/-- Digits that something follows are all the digits there are. -/
theorem takeDigits_more (s : List UInt8) (hr : (takeDigits s).2 ≠ []) (more : List UInt8) :
    takeDigits (s ++ more) = ((takeDigits s).1, (takeDigits s).2 ++ more) := by
  induction s with
  | nil => exact absurd rfl hr
  | cons b s ih =>
    cases hb : isDigit b with
    | false => simp [takeDigits, hb]
    | true =>
      simp only [takeDigits, List.cons_append, List.takeWhile_cons, List.dropWhile_cons, hb,
        ↓reduceIte, List.map_cons, Prod.mk.injEq, List.cons.injEq, true_and] at ih hr ⊢
      exact ih hr

theorem someDigits_more {atEnd : Cause} {ds : List Nat}
    (h : someDigits ending atEnd s = .ok (ds, r)) (hr : r ≠ []) (more : List UInt8) :
    someDigits ending atEnd (s ++ more) = .ok (ds, r ++ more) := by
  unfold someDigits at h
  split at h
  · cases h
  · rename_i b t
    split at h
    · rename_i hb
      have hdigits := Except.ok.inj h
      rw [List.cons_append, someDigits, if_pos hb, ← List.cons_append,
        takeDigits_more _ (by rw [hdigits]; exact hr), hdigits]
    · cases h

namespace Spelling

theorem scanWhole_more {atEnd : Cause} {ds : List Nat}
    (h : scanWhole ending atEnd s = .ok (ds, r)) (hr : r ≠ []) (more : List UInt8) :
    scanWhole ending atEnd (s ++ more) = .ok (ds, r ++ more) := by
  match s, h with
  | [], h => cases h
  | [b], h =>
    -- One digit leaves nothing behind.
    exact absurd (List.length_eq_zero_iff.mp (Nat.lt_one_iff.mp (scanWhole_length h))) hr
  | b :: c :: t, h =>
    simp only [scanWhole, List.cons_append] at h ⊢
    split at h
    · rename_i hzero
      rw [if_pos hzero]
      split at h
      · cases h
      · rename_i hc
        cases h
        rw [if_neg hc]
        rfl
    · rename_i hzero
      rw [if_neg hzero]
      exact someDigits_more h hr more

theorem scanFraction_more {atEnd : Cause} {ds : List Nat}
    (h : scanFraction ending atEnd s = .ok (ds, r)) (hr : r ≠ []) (more : List UInt8) :
    scanFraction ending atEnd (s ++ more) = .ok (ds, r ++ more) := by
  unfold scanFraction at h
  split at h
  · rename_i b t
    rw [List.cons_append, scanFraction]
    split at h
    · rename_i hpoint
      rw [if_pos hpoint]
      exact someDigits_more h hr more
    · rename_i hpoint
      cases h
      rw [if_neg hpoint]
      rfl
  · cases h
    exact absurd rfl hr

theorem scanSign_more (hs : (scanSign s).2 ≠ []) (more : List UInt8) :
    scanSign (s ++ more) = ((scanSign s).1, (scanSign s).2 ++ more) := by
  cases s with
  | nil => exact absurd rfl hs
  | cons b t =>
    rw [List.cons_append, scanSign, scanSign]
    split
    · rfl
    · split <;> rfl

theorem scanExponent_more {atEnd : Cause} {e : Option (Bool × List Nat)}
    (h : scanExponent ending atEnd s = .ok (e, r)) (hr : r ≠ []) (more : List UInt8) :
    scanExponent ending atEnd (s ++ more) = .ok (e, r ++ more) := by
  unfold scanExponent at h
  split at h
  · rename_i b t
    rw [List.cons_append, scanExponent]
    split at h
    · rename_i hmark
      split at h
      · rename_i digits rest hdigits
        cases h
        rw [if_pos hmark, scanSign_more (ne_nil_of_length_lt (someDigits_length hdigits))]
        simp only [someDigits_more hdigits hr more]
      · cases h
    · rename_i hmark
      cases h
      rw [if_neg hmark]
      rfl
  · cases h
    exact absurd rfl hr

theorem scan_more {atEnd : Cause} {sp : Spelling} (h : scan ending atEnd s = .ok (sp, r))
    (hr : r ≠ []) (more : List UInt8) : scan ending atEnd (s ++ more) = .ok (sp, r ++ more) := by
  have hs : s ≠ [] := ne_nil_of_length_lt (scan_length h)
  obtain ⟨⟨whole, s₁⟩, hwhole, h⟩ := ok_of_bind h
  obtain ⟨⟨fraction, s₂⟩, hfraction, h⟩ := ok_of_bind h
  obtain ⟨⟨exponent, s₃⟩, hexponent, h⟩ := ok_of_bind h
  cases h
  have hr₂ : s₂ ≠ [] := ne_nil_of_length_le (scanExponent_length hexponent) hr
  have hr₁ : s₁ ≠ [] := ne_nil_of_length_le (scanFraction_length hfraction) hr₂
  have hhead : (s ++ more).head? = s.head? := by
    cases s with
    | nil => exact absurd rfl hs
    | cons b t => rfl
  have hstart : (if s.head? = some 0x2D then (s ++ more).tail else s ++ more) =
      (if s.head? = some 0x2D then s.tail else s) ++ more := by
    rw [List.tail_append_of_ne_nil hs]
    split <;> rfl
  unfold scan
  simp only [hhead, hstart, scanWhole_more hwhole hr₁ more, scanFraction_more hfraction hr₂ more,
    scanExponent_more hexponent hr more, bind, Except.bind, pure, Except.pure]

/-- The size of a number does not depend on what follows, as long as something does. -/
theorem magnitude_more {sp : Spelling} {x : Float} (h : sp.magnitude ending r = .ok x)
    (hr : r ≠ []) (more : List UInt8) : sp.magnitude ending (r ++ more) = .ok x := by
  simp only [magnitude, lookPast_of_ne_nil hr, lookPast_more hr, bind, Except.bind] at h ⊢
  split at h
  · split at h
    · cases h
    · rename_i hzero
      rw [if_neg hzero]
      exact h
  · split at h
    · exact h
    · cases h

end Spelling

theorem readNumber_more {n : Number} (h : readNumber ending s = .ok (n, r)) (hr : r ≠ [])
    (more : List UInt8) : readNumber ending (s ++ more) = .ok (n, r ++ more) := by
  obtain ⟨⟨sp, rest⟩, hscan, h⟩ := ok_of_bind h
  unfold readNumber
  cases hint : sp.integer? with
  | some i =>
    simp only [hint] at h
    obtain ⟨_, hlook, h⟩ := ok_of_bind h
    cases h
    simp only [Spelling.scan_more hscan hr more, bind, Except.bind, hint, lookPast_more hr]
    rfl
  | none =>
    simp only [hint] at h
    obtain ⟨x, hsize, h⟩ := ok_of_bind h
    cases h
    simp only [Spelling.scan_more hscan hr more, bind, Except.bind, hint,
      Spelling.magnitude_more hsize hr more]
    rfl

theorem skipNumber_more (h : skipNumber ending s = .ok r) (hr : r ≠ []) (more : List UInt8) :
    skipNumber ending (s ++ more) = .ok (r ++ more) := by
  obtain ⟨⟨sp, rest⟩, hscan, h⟩ := ok_of_bind h
  obtain ⟨_, hlook, h⟩ := ok_of_bind h
  cases h
  unfold skipNumber
  simp only [Spelling.scan_more hscan hr more, bind, Except.bind, lookPast_more hr]
  rfl

/-! ## Skipped values -/

theorem readWord_more {word : List UInt8} (h : readWord ending word s = .ok r)
    (more : List UInt8) : readWord ending word (s ++ more) = .ok (r ++ more) := by
  fun_induction readWord ending word s with
  | case1 s => cases h; rw [readWord]
  | case2 => cases h
  | case3 word b t ih => rw [List.cons_append, readWord, if_pos rfl, ih h]
  | case4 => cases h

theorem readColon_more (h : readColon ending s = .ok r) (more : List UInt8) :
    readColon ending (s ++ more) = .ok (r ++ more) := by
  unfold readColon at h
  split at h
  · cases h
  · rename_i b t hs
    split at h
    · rename_i hb
      cases h
      simp only [readColon, skipBlank_more hs, if_pos hb]
    · cases h

theorem skipKey_more (h : skipKey ending s = .ok r) (more : List UInt8) :
    skipKey ending (s ++ more) = .ok (r ++ more) := by
  unfold skipKey at h
  split at h
  · cases h
  · rename_i b t hs
    split at h
    · rename_i hb
      split at h
      · cases h
      · rename_i t' hstring
        simp only [skipKey, skipBlank_more hs, if_pos hb, skipString_more hstring,
          readColon_more h]
    · cases h

theorem Frame.enter_more {frame : Frame} (h : frame.enter ending s = .ok r)
    (more : List UInt8) : frame.enter ending (s ++ more) = .ok (r ++ more) := by
  cases frame with
  | list => cases h; rfl
  | object => exact skipKey_more h more

theorem skipScalar_more {b : UInt8} (h : skipScalar ending b s = .ok r) (hr : r ≠ [])
    (more : List UInt8) : skipScalar ending b (s ++ more) = .ok (r ++ more) := by
  unfold skipScalar at h ⊢
  split at h
  · rename_i hnull
    rw [if_pos hnull]
    exact readWord_more h more
  rename_i hnull
  rw [if_neg hnull]
  split at h
  · rename_i htrue
    rw [if_pos htrue]
    exact readWord_more h more
  rename_i htrue
  rw [if_neg htrue]
  split at h
  · rename_i hfalse
    rw [if_pos hfalse]
    exact readWord_more h more
  rename_i hfalse
  rw [if_neg hfalse]
  split at h
  · rename_i hnumber
    rw [if_pos hnumber]
    exact skipNumber_more h hr more
  rename_i hnumber
  rw [if_neg hnumber]
  split at h
  · rename_i hquote
    rw [if_pos hquote]
    exact skipString_more h more
  · cases h

/-- A value that something follows is skipped the same, however many lists and objects are open
around it. -/
theorem skipFrom_more {mode : Mode} {frames : List Frame}
    (h : skipFrom ending mode frames s = .ok r) (hr : r ≠ []) (more : List UInt8) :
    skipFrom ending mode frames (s ++ more) = .ok (r ++ more) := by
  fun_induction skipFrom ending mode frames s with
  | case1 => cases h
  | case2 frames s t hs ih =>
    rw [skipFrom_value (skipBlank_more hs more), if_pos rfl, ih h]
  | case3 frames s t hs hlist ih =>
    rw [skipFrom_value (skipBlank_more hs more), if_neg hlist, if_pos rfl, ih h]
  | case4 => cases h
  | case5 frames s b t hs hlist hobject t' hscalar ih =>
    -- The rest of the value leaves something behind, so the scalar did.
    have ht' : t' ≠ [] := ne_nil_of_length_le (skipFrom_length h).1 hr
    rw [skipFrom_value (skipBlank_more hs more), if_neg hlist, if_neg hobject,
      skipScalar_more hscalar ht', Except.bind, ih h]
  | case6 => cases h
  | case7 frames s frame t hs ih =>
    rw [skipFrom_opened (skipBlank_more hs more), if_pos rfl, ih h]
  | case8 => cases h
  | case9 frames s frame b t hs hclosing t' henter ih =>
    rw [skipFrom_opened (skipBlank_more hs more), if_neg hclosing, ← List.cons_append,
      Frame.enter_more henter, Except.bind, ih h]
  | case10 s => cases h; rw [skipFrom]
  | case11 => cases h
  | case12 s frame frames t hs ih =>
    rw [skipFrom_after (skipBlank_more hs more), if_pos rfl, ih h]
  | case13 => cases h
  | case14 s frame frames t t' henter hs hclosing ih =>
    rw [skipFrom_after (skipBlank_more hs more), if_neg hclosing, if_pos rfl,
      Frame.enter_more henter, Except.bind, ih h]
  | case15 => cases h

theorem skipValue_more (h : skipValue ending s = .ok r) (hr : r ≠ []) (more : List UInt8) :
    skipValue ending (s ++ more) = .ok (r ++ more) :=
  skipFrom_more h hr more

end Bytecode.Json
