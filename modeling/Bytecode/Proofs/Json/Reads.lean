import Bytecode.Json.Decoder
import Bytecode.Proofs.Json.Numbers
import Bytecode.Proofs.Json.Strings

/-!
# Texts that a decoder reads

`Decoder.Reads d text a` says that `d` reads `text` as `a`, whatever white space stands before it
and whatever stands behind it that may follow a value. The statement is made once for every place
in a document, so that the texts of lists and objects can be put together from the texts of their
parts.
-/

namespace Bytecode.Json

/-! ## White space -/

/-- Nothing but white space. -/
def Blanks (ws : List UInt8) : Prop := ∀ b ∈ ws, isBlank b = true

theorem blanks_nil : Blanks [] := fun _ h => absurd h List.not_mem_nil

theorem blanks_singleton {b : UInt8} (h : isBlank b = true) : Blanks [b] := by
  intro c hc
  rwa [List.mem_singleton.mp hc]

theorem Blanks.append {ws ws' : List UInt8} (h : Blanks ws) (h' : Blanks ws') :
    Blanks (ws ++ ws') := fun b hb => (List.mem_append.mp hb).elim (h b) (h' b)

theorem skipBlank_blanks {ws : List UInt8} (h : Blanks ws) (s : List UInt8) :
    skipBlank (ws ++ s) = skipBlank s := by
  induction ws with
  | nil => rfl
  | cons b ws ih =>
    have hb := h b List.mem_cons_self
    rw [List.cons_append, skipBlank, List.dropWhile_cons_of_pos hb]
    exact ih fun c hc => h c (List.mem_cons_of_mem _ hc)

theorem skipBlank_token {ws : List UInt8} (h : Blanks ws) {b : UInt8} (hb : isBlank b = false)
    (s : List UInt8) : skipBlank (ws ++ b :: s) = b :: s := by
  rw [skipBlank_blanks h, skipBlank, List.dropWhile_cons_of_neg (by simp [hb])]

/-- White space ends a value, and so does what ends one after white space. -/
theorem Delimited.after_blanks {ws rest : List UInt8} (h : Blanks ws) (hrest : Delimited rest) :
    Delimited (ws ++ rest) := by
  cases ws with
  | nil => exact hrest
  | cons c ws =>
    intro b hb
    obtain rfl : c = b := by simpa using hb
    simp [endsValue, h c List.mem_cons_self]

theorem delimited_nil : Delimited [] := by
  intro b hb
  cases hb

theorem delimited_cons {b : UInt8} (h : endsValue b = true) (s : List UInt8) :
    Delimited (b :: s) := by
  intro c hc
  obtain rfl : b = c := by simpa using hc
  exact h

/-- The text of a value begins with a byte that cannot stand after one. -/
def Starts (text : List UInt8) : Prop := ∃ b t, text = b :: t ∧ endsValue b = false

theorem ne_of_endsValue {b c : UInt8} (hb : endsValue b = false) (hc : endsValue c = true) :
    b ≠ c := by
  rintro rfl
  rw [hb] at hc
  cases hc

theorem Starts.skipBlank_eq {text : List UInt8} (h : Starts text) {ws : List UInt8}
    (hws : Blanks ws) (s : List UInt8) : skipBlank (ws ++ (text ++ s)) = text ++ s := by
  obtain ⟨b, t, rfl, hb⟩ := h
  have hblank : isBlank b = false := by
    simp only [endsValue, Bool.or_eq_false_iff] at hb
    exact hb.1.1.1
  exact skipBlank_token hws hblank _

/-! ## Texts that a decoder reads -/

/-- `body` is the rest of a string, from after its opening quote, and means `s`. -/
def Quotes (body : List UInt8) (s : String) : Prop :=
  ∀ ending rest, readString ending (body ++ rest) = .ok (s, rest)

/-- `d` reads `text` as `a`, after any white space and before anything that may follow a value. -/
structure Decoder.Reads (d : Decoder α) (text : List UInt8) (a : α) : Prop where
  starts : Starts text
  run : ∀ ws rest, Blanks ws → Delimited rest →
    d.run .complete (ws ++ (text ++ rest)) = .ok (a, rest)

theorem encode_integerText_eq_cons (n : Int) :
    ∃ b t, Text.encode (Number.integerText n) = b :: t ∧ (b = 0x2D ∨ isDigit b = true) := by
  have hdecimal : ∃ b t, Text.encode (Numeral.decimal n.natAbs) = b :: t ∧ isDigit b = true := by
    rw [Numeral.encode_decimal]
    obtain ⟨d, ds, hd, hlt⟩ := Numeral.digits_ten_eq_cons n.natAbs
    have hdigit : ∀ d < 10, isDigit (Numeral.digitByte d) = true := by decide
    rw [hd]
    exact ⟨_, _, rfl, hdigit d hlt⟩
  unfold Number.integerText
  split
  · exact ⟨0x2D, Text.encode (Numeral.decimal n.natAbs), rfl, Or.inl rfl⟩
  · obtain ⟨b, t, htext, hb⟩ := hdecimal
    exact ⟨b, t, htext, Or.inr hb⟩

theorem endsValue_of_number {b : UInt8} (h : b = 0x2D ∨ isDigit b = true) :
    endsValue b = false := by
  cases he : endsValue b with
  | false => rfl
  | true =>
    rcases h with rfl | h
    · exact absurd he (by decide)
    · rw [(endsValue_no_number he).1] at h
      cases h

namespace Decoder

theorem reads_number {expected : String} {accept : Number → Except Cause α} {n : Int} {a : α}
    (low : -0x8000000000000000 ≤ n) (high : n < 0x10000000000000000)
    (h : accept (.integer n) = .ok a) :
    (number expected accept).Reads (Text.encode (Number.integerText n)) a := by
  obtain ⟨b, t, htext, hb⟩ := encode_integerText_eq_cons n
  have hstart : Starts (Text.encode (Number.integerText n)) :=
    ⟨b, t, htext, endsValue_of_number hb⟩
  constructor
  · exact hstart
  · intro ws rest hws hrest
    have hread := readNumber_integerText low high hrest
    show runNumber expected accept .complete _ = _
    unfold runNumber
    rw [hstart.skipBlank_eq hws, htext, List.cons_append]
    simp only [if_pos hb]
    rw [← List.cons_append, ← htext, hread]
    simp only [h]

theorem reads_string {expected : String} {accept : String → Except Cause α} {body : List UInt8}
    {s : String} {a : α} (hbody : Quotes body s) (h : accept s = .ok a) :
    (string expected accept).Reads (0x22 :: body) a := by
  constructor
  · exact ⟨0x22, body, rfl, rfl⟩
  · intro ws rest hws _
    show runString expected accept .complete _ = _
    unfold runString
    rw [List.cons_append, skipBlank_token hws rfl]
    simp only [↓reduceIte, hbody .complete rest, h]

theorem Reads.map {d : Decoder α} {text : List UInt8} {a : α} (h : d.Reads text a) (f : α → β) :
    (d.map f).Reads text (f a) := by
  constructor
  · exact h.starts
  · intro ws rest hws hrest
    show (d.run .complete _).map _ = _
    rw [h.run ws rest hws hrest]
    rfl

/-- What is not `null` is read as it would be without the choice of `null`. -/
theorem Reads.nullable {d : Decoder α} {text : List UInt8} {a : α} (h : d.Reads text a)
    (hnull : text.head? ≠ some 0x6E) : d.nullable.Reads text (some a) := by
  constructor
  · exact h.starts
  · intro ws rest hws hrest
    have hrun := h.run [] rest blanks_nil hrest
    have hskip := h.starts.skipBlank_eq hws rest
    obtain ⟨b, t, rfl, hb⟩ := h.starts
    show runNullable d .complete _ = _
    unfold runNullable
    rw [hskip, List.cons_append]
    simp only
    rw [if_neg fun e => hnull (by rw [e]; rfl), ← List.cons_append]
    rw [List.nil_append] at hrun
    rw [hrun]
    rfl

end Decoder

/-! ## Documents -/

theorem Decoder.document_of_reads {d : Decoder α} {before text after : List UInt8} {a : α}
    (h : d.Reads text a) (hbefore : Blanks before) (hafter : Blanks after) :
    d.document ⟨before ++ (text ++ after), .complete⟩ = .ok a := by
  have hend := delimited_nil.after_blanks hafter
  have hskip := skipBlank_blanks hafter []
  rw [List.append_nil] at hend hskip
  have hrun := h.run before after hbefore hend
  unfold document
  simp only [hrun, hskip, bind, Except.bind]
  rfl

end Bytecode.Json
