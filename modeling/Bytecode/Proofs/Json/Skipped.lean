import Bytecode.Proofs.Json.Grammar
import Bytecode.Proofs.Json.Objects

/-!
# Well-formed values are skipped

Whatever is well-formed is skipped up to its end, at any depth (`WellFormed.passes`). A list and an
object are skipped alike: what may stand in a frame leads from its start to where the frame looks
for more (`Frame.Holds`), so one induction over the separators covers both.
-/

namespace Bytecode.Json

/-! ## Numbers -/

/-- What follows some digits does not go on with them. -/
def NoDigit (rest : List UInt8) : Prop := ∀ b ∈ rest.head?, isDigit b = false

theorem noDigit_cons {b : UInt8} (h : isDigit b = false) (s : List UInt8) : NoDigit (b :: s) := by
  intro c hc
  obtain rfl : b = c := by simpa using hc
  exact h

theorem Delimited.noDigit {rest : List UInt8} (h : Delimited rest) : NoDigit rest :=
  fun b hb => (endsValue_no_number (h b hb)).1

theorem Digits.someDigits {ds : List UInt8} (h : Digits ds) (ending : Ending) (atEnd : Cause)
    {rest : List UInt8} (hrest : NoDigit rest) :
    ∃ vs, someDigits ending atEnd (ds ++ rest) = .ok (vs, rest) := by
  obtain ⟨hne, hdigits⟩ := h
  have htake : (takeDigits (ds ++ rest)).2 = rest := by
    have hstop : rest.dropWhile isDigit = rest := by
      cases rest with
      | nil => rfl
      | cons b rest => exact List.dropWhile_cons_of_neg (by simp [hrest b rfl])
    rw [takeDigits, List.dropWhile_append_of_pos hdigits, hstop]
  cases ds with
  | nil => exact absurd rfl hne
  | cons b ds =>
    refine ⟨(takeDigits (b :: ds ++ rest)).1, ?_⟩
    rw [List.cons_append, Json.someDigits, if_pos (hdigits b List.mem_cons_self)]
    exact congrArg Except.ok (Prod.ext rfl htake)

namespace Spelling

theorem scanWhole_text (ending : Ending) (atEnd : Cause) {whole rest : List UInt8}
    (h : WholeText whole) (hrest : NoDigit rest) :
    ∃ vs, scanWhole ending atEnd (whole ++ rest) = .ok (vs, rest) := by
  rcases h with rfl | ⟨hdigits, hzero⟩
  · cases rest with
    | nil => exact ⟨_, rfl⟩
    | cons b rest =>
      refine ⟨[0], ?_⟩
      simp [scanWhole, hrest b rfl]
  · obtain ⟨vs, hvs⟩ := hdigits.someDigits ending atEnd hrest
    refine ⟨vs, ?_⟩
    unfold scanWhole
    split
    · rename_i b c r hs
      have hb : b ≠ 0x30 := by
        rintro rfl
        obtain ⟨w, whole, rfl⟩ := List.exists_cons_of_ne_nil hdigits.1
        exact hzero (by rw [(List.cons.inj hs).1]; rfl)
      rw [if_neg hb, hvs]
    · exact hvs

theorem scanFraction_text (ending : Ending) (atEnd : Cause) {fraction rest : List UInt8}
    (h : FractionText fraction) (hrest : NoDigit rest) (hpoint : rest.head? ≠ some 0x2E) :
    ∃ vs, scanFraction ending atEnd (fraction ++ rest) = .ok (vs, rest) := by
  rcases h with rfl | ⟨ds, hds, rfl⟩
  · cases rest with
    | nil => exact ⟨_, rfl⟩
    | cons b rest =>
      have hb : b ≠ 0x2E := fun e => hpoint (by rw [e]; rfl)
      exact ⟨[], by simp [scanFraction, hb]⟩
  · obtain ⟨vs, hvs⟩ := hds.someDigits ending atEnd hrest
    exact ⟨vs, by simp only [List.cons_append, scanFraction, ↓reduceIte, hvs]⟩

theorem scanSign_text {sign ds : List UInt8} (hsign : sign = [] ∨ sign = [0x2B] ∨ sign = [0x2D])
    (hds : Digits ds) (rest : List UInt8) : (scanSign (sign ++ ds ++ rest)).2 = ds ++ rest := by
  rcases hsign with rfl | rfl | rfl
  · obtain ⟨d, ds, rfl⟩ := List.exists_cons_of_ne_nil hds.1
    have hd : isDigit d = true := hds.2 d List.mem_cons_self
    have hminus : d ≠ 0x2D := by
      rintro rfl
      cases hd
    have hplus : d ≠ 0x2B := by
      rintro rfl
      cases hd
    simp [scanSign, hminus, hplus]
  · rfl
  · rfl

theorem scanExponent_text (ending : Ending) (atEnd : Cause) {exponent rest : List UInt8}
    (h : ExponentText exponent) (hrest : Delimited rest) :
    ∃ v, scanExponent ending atEnd (exponent ++ rest) = .ok (v, rest) := by
  rcases h with rfl | ⟨e, sign, ds, he, hsign, hds, rfl⟩
  · exact ⟨none, scanExponent_delimited ending atEnd hrest⟩
  · obtain ⟨vs, hvs⟩ := hds.someDigits ending atEnd hrest.noDigit
    refine ⟨some ((scanSign (sign ++ ds ++ rest)).1, vs), ?_⟩
    rw [List.cons_append, scanExponent, if_pos he, scanSign_text hsign hds, hvs]

/-- What stands after the whole digits of a number begins with no digit, and what stands after its
fraction with no point either. -/
theorem exponent_boundary {exponent rest : List UInt8} (h : ExponentText exponent)
    (hrest : Delimited rest) :
    NoDigit (exponent ++ rest) ∧ (exponent ++ rest).head? ≠ some 0x2E := by
  rcases h with rfl | ⟨e, sign, ds, he, -, -, rfl⟩
  · exact ⟨hrest.noDigit, fun hpoint => (endsValue_no_number (hrest _ hpoint)).2.1 rfl⟩
  · rcases he with rfl | rfl
    · exact ⟨noDigit_cons rfl _, by simp⟩
    · exact ⟨noDigit_cons rfl _, by simp⟩

theorem fraction_boundary {fraction rest : List UInt8} (h : FractionText fraction)
    (hrest : NoDigit rest) : NoDigit (fraction ++ rest) := by
  rcases h with rfl | ⟨ds, -, rfl⟩
  · exact hrest
  · exact noDigit_cons rfl _

/-- Only a sign is taken off a number, not the first of its digits. -/
theorem whole_no_sign {whole : List UInt8} (h : WholeText whole) (rest : List UInt8) :
    (whole ++ rest).head? ≠ some 0x2D := by
  rcases h with rfl | ⟨hdigits, -⟩
  · simp
  · obtain ⟨w, whole, rfl⟩ := List.exists_cons_of_ne_nil hdigits.1
    have hw : isDigit w = true := hdigits.2 w List.mem_cons_self
    intro hminus
    obtain rfl := Option.some.inj hminus
    cases hw

theorem scan_text (ending : Ending) (atEnd : Cause) {text : List UInt8} (h : NumberText text)
    {rest : List UInt8} (hrest : Delimited rest) :
    ∃ sp, scan ending atEnd (text ++ rest) = .ok (sp, rest) := by
  obtain ⟨sign, whole, fraction, exponent, rfl, hsign, hwhole, hfraction, hexponent⟩ := h
  obtain ⟨hdigit, hpoint⟩ := exponent_boundary hexponent hrest
  obtain ⟨ws, hws⟩ := scanWhole_text ending atEnd hwhole (fraction_boundary hfraction hdigit)
  obtain ⟨fs, hfs⟩ := scanFraction_text ending atEnd hfraction hdigit hpoint
  obtain ⟨es, hes⟩ := scanExponent_text ending atEnd hexponent hrest
  have hscan : ∀ s, (if s.head? = some 0x2D then s.tail else s) =
      whole ++ (fraction ++ (exponent ++ rest)) → ∃ sp, scan ending atEnd s = .ok (sp, rest) :=
    fun s hs => ⟨⟨decide (s.head? = some 0x2D), ws, fs, es⟩, by
      simp only [scan, hs, hws, hfs, hes, bind, Except.bind, pure, Except.pure]⟩
  simp only [List.append_assoc]
  apply hscan
  rcases hsign with rfl | rfl
  · have hhead := whole_no_sign hwhole (fraction ++ (exponent ++ rest))
    rw [List.nil_append, if_neg hhead]
  · rfl

end Spelling

/-- A number is skipped, whatever it means. -/
theorem NumberText.skipNumber {text : List UInt8} (h : NumberText text) {rest : List UInt8}
    (hrest : Delimited rest) : skipNumber .complete (text ++ rest) = .ok rest := by
  obtain ⟨sp, hsp⟩ := Spelling.scan_text .complete .invalidNumber h hrest
  simp only [Json.skipNumber, hsp, bind, Except.bind]
  rfl

/-! ## Strings -/

theorem skipString_piece {text : List UInt8} (h : QuotedPiece text) (ending : Ending)
    (tail : List UInt8) : skipString ending (text ++ tail) = skipString ending tail := by
  cases h with
  | @plain b hb =>
    simp only [isPlain, Bool.and_eq_true, decide_eq_true_eq] at hb
    obtain ⟨⟨hquote, hslash⟩, hlow⟩ := hb
    rw [List.singleton_append, skipString, if_neg hquote, if_neg hslash,
      if_neg (UInt8.not_lt.mpr hlow)]
  | @letter c b hletter =>
    have hb : b ≠ 0x75 := by
      rintro rfl
      cases hletter
    have hskip : skipEscape ending (b :: tail) = .ok tail := by
      rw [skipEscape, if_neg hb, hletter]
      rfl
    exact skipString_escape hskip
  | @unit n digits hdigits =>
    have hskip : skipEscape ending (0x75 :: (digits ++ tail)) = .ok tail := by
      rw [skipEscape, if_pos rfl, hexEscape_text hdigits]
      rfl
    exact skipString_escape hskip

theorem skipString_pieces {pieces : List (List UInt8)} (h : ∀ p ∈ pieces, QuotedPiece p)
    (ending : Ending) (tail : List UInt8) :
    skipString ending (pieces.flatten ++ tail) = skipString ending tail := by
  induction pieces with
  | nil => rfl
  | cons p pieces ih =>
    rw [List.flatten_cons, List.append_assoc, skipString_piece (h p List.mem_cons_self),
      ih fun q hq => h q (List.mem_cons_of_mem _ hq)]

theorem QuotedText.skipString {text : List UInt8} (h : QuotedText text) :
    ∃ body, text = 0x22 :: body ∧ ∀ rest, skipString .complete (body ++ rest) = .ok rest := by
  obtain ⟨pieces, hpieces, rfl⟩ := h
  refine ⟨_, rfl, ?_⟩
  intro rest
  rw [List.append_assoc, skipString_pieces hpieces, List.singleton_append, Json.skipString,
    if_pos rfl]

/-! ## Values that hold no other -/

/-- The text is skipped up to its end, whatever is open around it. -/
structure Passes (text : List UInt8) : Prop where
  starts : Starts text
  run : ∀ frames ws rest, Blanks ws → Delimited rest →
    skipFrom .complete .value frames (ws ++ (text ++ rest)) =
      skipFrom .complete .after frames rest

theorem Passes.skipped {text : List UInt8} (h : Passes text) : Skipped text := by
  intro ws rest hws hrest
  rw [skipValue, h.run [] ws rest hws hrest, skipFrom]

theorem passes_scalar {b : UInt8} {t : List UInt8} (hb : endsValue b = false) (hlist : b ≠ 0x5B)
    (hobject : b ≠ 0x7B)
    (h : ∀ rest, Delimited rest → skipScalar .complete b (t ++ rest) = .ok rest) :
    Passes (b :: t) := by
  have hstarts : Starts (b :: t) := ⟨b, t, rfl, hb⟩
  refine ⟨hstarts, ?_⟩
  intro frames ws rest hws hrest
  have hskip : skipBlank (ws ++ (b :: t ++ rest)) = b :: (t ++ rest) :=
    hstarts.skipBlank_eq hws rest
  rw [skipFrom_value hskip, if_neg hlist, if_neg hobject, h rest hrest]
  rfl

theorem readWord_append (ending : Ending) (word rest : List UInt8) :
    readWord ending word (word ++ rest) = .ok rest := by
  induction word with
  | nil => cases rest <;> rfl
  | cons w word ih => rw [List.cons_append, readWord, if_pos rfl, ih]

theorem passes_null : Passes nullText :=
  passes_scalar rfl (by decide) (by decide) fun rest _ => readWord_append .complete nullTail rest

theorem BooleanText.passes {b : Bool} {text : List UInt8} (h : BooleanText b text) :
    Passes text := by
  rw [h]
  cases b with
  | true =>
    exact passes_scalar rfl (by decide) (by decide) fun rest _ =>
      readWord_append .complete trueTail rest
  | false =>
    exact passes_scalar rfl (by decide) (by decide) fun rest _ =>
      readWord_append .complete falseTail rest

/-- A number begins with a sign or a digit. -/
theorem NumberText.eq_cons {text : List UInt8} (h : NumberText text) :
    ∃ b t, text = b :: t ∧ (b = 0x2D ∨ isDigit b = true) := by
  obtain ⟨sign, whole, fraction, exponent, rfl, hsign, hwhole, -, -⟩ := h
  rcases hsign with rfl | rfl
  · rcases hwhole with rfl | ⟨hdigits, -⟩
    · exact ⟨0x30, _, rfl, Or.inr rfl⟩
    · obtain ⟨w, whole, rfl⟩ := List.exists_cons_of_ne_nil hdigits.1
      exact ⟨w, _, rfl, Or.inr (hdigits.2 w List.mem_cons_self)⟩
  · exact ⟨0x2D, _, rfl, Or.inl rfl⟩

theorem NumberText.passes {text : List UInt8} (h : NumberText text) : Passes text := by
  obtain ⟨b, t, rfl, hb⟩ := h.eq_cons
  have hne : ∀ c, isDigit c = false → c ≠ 0x2D → b ≠ c := by
    rintro c hdigit hminus rfl
    rcases hb with hb | hb
    · exact hminus hb
    · rw [hdigit] at hb
      cases hb
  refine passes_scalar (endsValue_of_number hb) (hne _ rfl (by decide)) (hne _ rfl (by decide)) ?_
  intro rest hrest
  rw [skipScalar, if_neg (hne _ rfl (by decide)), if_neg (hne _ rfl (by decide)),
    if_neg (hne _ rfl (by decide)), if_pos hb]
  exact h.skipNumber hrest

theorem passes_string {body : List UInt8}
    (h : ∀ rest, skipString .complete (body ++ rest) = .ok rest) : Passes (0x22 :: body) := by
  refine passes_scalar rfl (by decide) (by decide) ?_
  intro rest _
  rw [skipScalar, if_neg (by decide), if_neg (by decide), if_neg (by decide), if_neg (by decide),
    if_pos rfl, h]

/-! ## Lists and objects -/

/-- The item may stand in a frame: from its start the frame is left where it looks for more. -/
structure Frame.Holds (frame : Frame) (item : List UInt8) : Prop where
  starts : Starts item
  run : ∀ frames ws rest, Blanks ws → Delimited rest →
    (frame.enter .complete (ws ++ (item ++ rest))).bind (skipFrom .complete .value frames) =
      skipFrom .complete .after frames rest

theorem Passes.holds {item : List UInt8} (h : Passes item) : Frame.list.Holds item :=
  ⟨h.starts, h.run⟩

/-- A member leads to its value, which is skipped. -/
theorem holds_member {name before after value : List UInt8} (hname : QuotedText name)
    (hbefore : Blanks before) (hafter : Blanks after) (hvalue : Passes value) :
    Frame.object.Holds (name ++ (before ++ 0x3A :: after) ++ value) := by
  obtain ⟨body, rfl, hbody⟩ := hname.skipString
  refine ⟨⟨0x22, _, rfl, rfl⟩, ?_⟩
  intro frames ws rest hws hrest
  have hcolon : readColon .complete (before ++ 0x3A :: (after ++ (value ++ rest))) =
      .ok (after ++ (value ++ rest)) := by
    rw [readColon, skipBlank_token hbefore rfl]
    rfl
  have hkey : skipKey .complete (ws ++ (0x22 :: body ++ (before ++ 0x3A :: after) ++ value ++
      rest)) = .ok (after ++ (value ++ rest)) := by
    simp only [List.cons_append, List.append_assoc]
    rw [skipKey, skipBlank_token hws rfl]
    simp only [↓reduceIte, hbody, hcolon]
  rw [Frame.enter, hkey]
  exact hvalue.run frames after rest hafter hrest

theorem Frame.endsValue_closing (frame : Frame) : endsValue frame.closing = true := by
  cases frame <;> rfl

/-- From its first item on, a frame is skipped up to its closing bracket. -/
theorem Frame.enter_separated {frame : Frame} {items : List (List UInt8)} {text : List UInt8}
    (hsep : Separated items text) (hne : items ≠ []) (h : ∀ item ∈ items, frame.Holds item)
    (frames : List Frame) (rest : List UInt8) :
    (frame.enter .complete (text ++ frame.closing :: rest)).bind
        (skipFrom .complete .value (frame :: frames)) =
      skipFrom .complete .after frames rest := by
  have hclosing : Delimited (frame.closing :: rest) := delimited_cons frame.endsValue_closing rest
  have hblank : isBlank frame.closing = false := by cases frame <;> rfl
  induction hsep with
  | none hws => exact absurd rfl hne
  | @last before item after hbefore hafter =>
    have hitem := h item List.mem_cons_self
    rw [List.append_assoc, List.append_assoc,
      hitem.run _ before _ hbefore (hclosing.after_blanks hafter),
      skipFrom_after (skipBlank_token hafter hblank rest), if_pos rfl]
  | @more before item after next items text hbefore hafter hrest ih =>
    have hitem := h item List.mem_cons_self
    have hcomma : Delimited (0x2C :: (text ++ frame.closing :: rest)) := delimited_cons rfl _
    have hother : (0x2C : UInt8) ≠ frame.closing := by cases frame <;> decide
    simp only [List.append_assoc, List.cons_append]
    rw [hitem.run _ before _ hbefore (hcomma.after_blanks hafter),
      skipFrom_after (skipBlank_token hafter rfl _), if_neg hother, if_pos rfl]
    exact ih (by simp) fun i hi => h i (List.mem_cons_of_mem _ hi)

/-- After its opening bracket a frame is skipped up to the closing one. -/
theorem Frame.opened_separated {frame : Frame} {items : List (List UInt8)} {text : List UInt8}
    (hsep : Separated items text) (h : ∀ item ∈ items, frame.Holds item) (frames : List Frame)
    (rest : List UInt8) :
    skipFrom .complete (.opened frame) frames (text ++ frame.closing :: rest) =
      skipFrom .complete .after frames rest := by
  cases items with
  | nil =>
    have hblank : isBlank frame.closing = false := by cases frame <;> rfl
    cases hsep with
    | none hws => rw [skipFrom_opened (skipBlank_token hws hblank rest), if_pos rfl]
  | cons item items =>
    obtain ⟨before, text', hbefore, rfl, htrim⟩ := hsep.first
    have hskip := (h item List.mem_cons_self).starts.skipBlank_eq hbefore
      (text' ++ frame.closing :: rest)
    have henter := enter_separated htrim (by simp) h frames rest
    obtain ⟨b, t, rfl, hb⟩ := (h item List.mem_cons_self).starts
    have hne : b ≠ frame.closing := ne_of_endsValue hb frame.endsValue_closing
    simp only [List.append_assoc, List.cons_append] at hskip henter ⊢
    rw [skipFrom_opened hskip, if_neg hne, henter]

theorem passes_list {items : List (List UInt8)} {inner : List UInt8} (hsep : Separated items inner)
    (h : ∀ item ∈ items, Passes item) : Passes (0x5B :: (inner ++ [0x5D])) := by
  refine ⟨⟨0x5B, _, rfl, rfl⟩, ?_⟩
  intro frames ws rest hws _
  have hholds : ∀ item ∈ items, Frame.list.Holds item := fun i hi => (h i hi).holds
  have hinner := Frame.opened_separated hsep hholds frames rest
  rw [List.cons_append, skipFrom_value (skipBlank_token hws rfl _), if_pos rfl, List.append_assoc]
  exact hinner

theorem passes_object {items : List (List UInt8)} {inner : List UInt8}
    (hsep : Separated items inner) (h : ∀ item ∈ items, Frame.object.Holds item) :
    Passes (0x7B :: (inner ++ [0x7D])) := by
  refine ⟨⟨0x7B, _, rfl, rfl⟩, ?_⟩
  intro frames ws rest hws _
  have hinner := Frame.opened_separated hsep h frames rest
  rw [List.cons_append, skipFrom_value (skipBlank_token hws rfl _), if_neg (by decide), if_pos rfl,
    List.append_assoc]
  exact hinner

/-- **Well-formed values are skipped**, up to their end and at any depth. -/
theorem WellFormed.passes {text : List UInt8} (h : WellFormed text) : Passes text := by
  induction h with
  | null => exact passes_null
  | boolean b hb => exact hb.passes
  | number hn => exact hn.passes
  | string hs =>
    obtain ⟨body, rfl, hbody⟩ := hs.skipString
    exact passes_string hbody
  | list hsep _ ih => exact passes_list hsep ih
  | @object ms inner hsep hkeys _ ih =>
    refine passes_object hsep ?_
    intro item hitem
    obtain ⟨m, hm, rfl⟩ := List.mem_map.mp hitem
    obtain ⟨name, before, after, hname, hbefore, hafter, hkey⟩ := hkeys m hm
    rw [hkey]
    exact holds_member hname hbefore hafter (ih m hm)

theorem WellFormed.skipped {text : List UInt8} (h : WellFormed text) : Skipped text :=
  h.passes.skipped

end Bytecode.Json
