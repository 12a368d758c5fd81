import Bytecode.Json.Record

/-!
# Failures of the reader

A document is blamed for its own faults, and its reader for no others than the reader's own: when a
reading fails with a failure of the reader, the reader did end with that failure (`Truthful`). This
holds of every step, of scalars and skipped values, and so of every record whose fields have it
(`truthful_record`).
-/

namespace Bytecode.Json

variable {α β : Type}

def Fault.cause : Fault → Cause
  | .placed cause _ => cause
  | .floating cause _ => cause

/-- A failure of the reader that a result tells of is the one that the bytes end with. -/
def Truthful (ending : Ending) (x : Except Fault α) : Prop :=
  ∀ f error, x = .error f → f.cause = .source error → ending = .broken error

/-- Whether a cause lies in the document itself. -/
def Cause.isOwn : Cause → Bool
  | .source _ => false
  | _ => true

variable {ending : Ending}

/-! ## Results -/

theorem truthful_ok (a : α) : Truthful ending (.ok a) := by
  rintro f error ⟨⟩

theorem truthful_placed {c : Cause} (h : c.isOwn = true) (unread : Nat) :
    Truthful ending (.error (.placed c unread) : Except Fault α) := by
  rintro f error ⟨⟩ hcause
  rw [show c = .source error from hcause] at h
  cases h

theorem truthful_floating {c : Cause} (h : c.isOwn = true) (rest : List UInt8) :
    Truthful ending (.error (.floating c rest) : Except Fault α) := by
  rintro f error ⟨⟩ hcause
  rw [show c = .source error from hcause] at h
  cases h

theorem truthful_cutOff {c : Cause} (h : c.isOwn = true) :
    Truthful ending (.error (cutOff ending c) : Except Fault α) := by
  cases ending with
  | complete => exact truthful_placed h 0
  | broken failure =>
    rintro f error ⟨⟩ hcause
    cases hcause
    rfl

theorem Truthful.error {x : Except Fault α} {f : Fault} (h : Truthful ending x)
    (hx : x = .error f) : Truthful ending (.error f : Except Fault β) := by
  rintro g error ⟨⟩ hcause
  exact h f error hx hcause

theorem Truthful.map {x : Except Fault α} (h : Truthful ending x) (g : α → β) :
    Truthful ending (x.map g) := by
  cases x with
  | ok a => exact truthful_ok _
  | error f => exact h.error rfl

theorem Fault.cause_settleAt (unread : List UInt8 → Nat) (f : Fault) :
    (f.settleAt unread).cause = f.cause := by
  cases f <;> rfl

theorem Truthful.settleAt {f : Fault} (h : Truthful ending (.error f : Except Fault α))
    (unread : List UInt8 → Nat) :
    Truthful ending (.error (f.settleAt unread) : Except Fault β) := by
  rintro g error ⟨⟩ hcause
  rw [Fault.cause_settleAt] at hcause
  exact h f error rfl hcause

theorem Truthful.mapError_settleAt {x : Except Fault α} (h : Truthful ending x)
    (unread : List UInt8 → Nat) : Truthful ending (x.mapError (Fault.settleAt unread)) := by
  cases x with
  | ok a => exact truthful_ok a
  | error f => exact h.settleAt unread

theorem Truthful.bind {x : Except Fault α} {g : α → Except Fault β} (hx : Truthful ending x)
    (hg : ∀ a, Truthful ending (g a)) : Truthful ending (x >>= g) := by
  cases x with
  | ok a => exact hg a
  | error f => exact hx.error rfl

/-! ## Strings -/

theorem truthful_hexEscape (s : List UInt8) : Truthful ending (hexEscape ending s) := by
  unfold hexEscape
  split
  · split
    · exact truthful_ok _
    · exact truthful_placed rfl _
  · exact truthful_cutOff rfl

theorem truthful_pairByte (b : UInt8) (s : List UInt8) :
    Truthful ending (pairByte ending b s) := by
  unfold pairByte
  split
  · exact truthful_cutOff rfl
  · split
    · exact truthful_ok _
    · exact truthful_placed rfl _

theorem truthful_unicodeEscape (s : List UInt8) : Truthful ending (unicodeEscape ending s) := by
  unfold unicodeEscape
  split
  · exact (truthful_hexEscape _).error ‹_›
  split
  · exact truthful_placed rfl _
  split
  · split
    · exact (truthful_pairByte _ _).error ‹_›
    split
    · exact (truthful_pairByte _ _).error ‹_›
    split
    · exact (truthful_hexEscape _).error ‹_›
    split
    · exact truthful_ok _
    · exact truthful_placed rfl _
  · exact truthful_ok _

theorem truthful_readEscape (s : List UInt8) : Truthful ending (readEscape ending s) := by
  unfold readEscape
  split
  · exact truthful_cutOff rfl
  split
  · exact truthful_unicodeEscape _
  split
  · exact truthful_ok _
  · exact truthful_placed rfl _

theorem truthful_skipEscape (s : List UInt8) : Truthful ending (skipEscape ending s) := by
  unfold skipEscape
  split
  · exact truthful_cutOff rfl
  split
  · exact (truthful_hexEscape _).map _
  split
  · exact truthful_ok _
  · exact truthful_placed rfl _

theorem truthful_readBytes (done s : List UInt8) : Truthful ending (readBytes ending done s) := by
  fun_induction readBytes ending done s with
  | case1 => exact truthful_cutOff rfl
  | case2 => exact truthful_ok _
  | case3 done r f hescape => exact (truthful_readEscape _).error hescape
  | case4 done r c r' _ _ ih => exact ih
  | case5 => exact truthful_placed rfl _
  | case6 done b r _ _ _ ih => exact ih

theorem truthful_readString (s : List UInt8) : Truthful ending (readString ending s) := by
  unfold readString
  split
  · exact (truthful_readBytes _ _).error ‹_›
  split
  · exact truthful_ok _
  · exact truthful_placed rfl _

theorem truthful_skipString (s : List UInt8) : Truthful ending (skipString ending s) := by
  fun_induction skipString ending s with
  | case1 => exact truthful_cutOff rfl
  | case2 => exact truthful_ok _
  | case3 r f hescape => exact (truthful_skipEscape _).error hescape
  | case4 r r' _ _ ih => exact ih
  | case5 => exact truthful_placed rfl _
  | case6 b r _ _ _ ih => exact ih

/-! ## Numbers -/

theorem truthful_lookPast (s : List UInt8) : Truthful ending (lookPast ending s) := by
  unfold lookPast
  split
  · rintro f error ⟨⟩ hcause
    cases hcause
    rfl
  · exact truthful_ok _

theorem truthful_someDigits {atEnd : Cause} (h : atEnd.isOwn = true) (s : List UInt8) :
    Truthful ending (someDigits ending atEnd s) := by
  unfold someDigits
  split
  · exact truthful_cutOff h
  · split
    · exact truthful_ok _
    · exact truthful_placed rfl _

namespace Spelling

theorem truthful_scanWhole {atEnd : Cause} (h : atEnd.isOwn = true) (s : List UInt8) :
    Truthful ending (scanWhole ending atEnd s) := by
  unfold scanWhole
  split
  · split
    · split
      · exact truthful_placed rfl _
      · exact truthful_ok _
    · exact truthful_someDigits h _
  · exact truthful_someDigits h _

theorem truthful_scanFraction {atEnd : Cause} (h : atEnd.isOwn = true) (s : List UInt8) :
    Truthful ending (scanFraction ending atEnd s) := by
  unfold scanFraction
  split
  · split
    · exact truthful_someDigits h _
    · exact truthful_ok _
  · exact truthful_ok _

theorem truthful_scanExponent {atEnd : Cause} (h : atEnd.isOwn = true) (s : List UInt8) :
    Truthful ending (scanExponent ending atEnd s) := by
  unfold scanExponent
  split
  · split
    · split
      · exact truthful_ok _
      · exact (truthful_someDigits h _).error ‹_›
    · exact truthful_ok _
  · exact truthful_ok _

theorem truthful_scan {atEnd : Cause} (h : atEnd.isOwn = true) (s : List UInt8) :
    Truthful ending (scan ending atEnd s) :=
  (truthful_scanWhole h _).bind fun _ =>
    (truthful_scanFraction h _).bind fun _ =>
      (truthful_scanExponent h _).bind fun _ => truthful_ok _

theorem truthful_magnitude (sp : Spelling) (rest : List UInt8) :
    Truthful ending (sp.magnitude ending rest) := by
  unfold magnitude
  dsimp only
  split
  · split
    · exact truthful_placed rfl _
    · exact (truthful_lookPast rest).bind fun _ => truthful_ok _
  · refine (truthful_lookPast rest).bind fun _ => ?_
    split
    · exact truthful_ok _
    · exact truthful_placed rfl _

end Spelling

theorem truthful_readNumber (s : List UInt8) : Truthful ending (readNumber ending s) := by
  refine (Spelling.truthful_scan rfl s).bind fun p => ?_
  dsimp only
  split
  · exact (truthful_lookPast _).bind fun _ => truthful_ok _
  · exact (Spelling.truthful_magnitude _ _).bind fun _ => truthful_ok _

theorem truthful_skipNumber (s : List UInt8) : Truthful ending (skipNumber ending s) :=
  (Spelling.truthful_scan rfl s).bind fun _ =>
    (truthful_lookPast _).bind fun _ => truthful_ok _

/-! ## Skipped values -/

theorem truthful_readWord (word s : List UInt8) : Truthful ending (readWord ending word s) := by
  fun_induction readWord ending word s with
  | case1 => exact truthful_ok _
  | case2 => exact truthful_cutOff rfl
  | case3 word b r ih => exact ih
  | case4 => exact truthful_placed rfl _

theorem truthful_readColon (s : List UInt8) : Truthful ending (readColon ending s) := by
  unfold readColon
  split
  · exact truthful_cutOff rfl
  · split
    · exact truthful_ok _
    · exact truthful_placed rfl _

theorem truthful_skipScalar (b : UInt8) (r : List UInt8) :
    Truthful ending (skipScalar ending b r) := by
  unfold skipScalar
  split
  · exact truthful_readWord _ _
  split
  · exact truthful_readWord _ _
  split
  · exact truthful_readWord _ _
  split
  · exact truthful_skipNumber _
  split
  · exact truthful_skipString _
  · exact truthful_placed rfl _

theorem truthful_skipKey (s : List UInt8) : Truthful ending (skipKey ending s) := by
  unfold skipKey
  split
  · exact truthful_cutOff rfl
  split
  · split
    · exact (truthful_skipString _).error ‹_›
    · exact truthful_readColon _
  · exact truthful_placed rfl _

theorem truthful_enter (frame : Frame) (s : List UInt8) :
    Truthful ending (frame.enter ending s) := by
  cases frame with
  | list => exact truthful_ok _
  | object => exact truthful_skipKey s

theorem Frame.isOwn_ends (frame : Frame) : frame.ends.isOwn = true := by
  cases frame <;> rfl

theorem Frame.isOwn_expectedNext (frame : Frame) : frame.expectedNext.isOwn = true := by
  cases frame <;> rfl

theorem truthful_skipFrom (mode : Mode) (frames : List Frame) (s : List UInt8) :
    Truthful ending (skipFrom ending mode frames s) := by
  fun_induction skipFrom ending mode frames s with
  | case1 => exact truthful_cutOff rfl
  | case2 frames s r _ ih => exact ih
  | case3 frames s r _ _ ih => exact ih
  | case4 frames s b r _ _ _ f hscalar => exact (truthful_skipScalar _ _).error hscalar
  | case5 frames s b r _ _ _ r' _ ih => exact ih
  | case6 frames s frame => exact truthful_cutOff frame.isOwn_ends
  | case7 frames s frame r _ ih => exact ih
  | case8 frames s frame b r _ _ f henter => exact (truthful_enter _ _).error henter
  | case9 frames s frame b r _ _ r' _ ih => exact ih
  | case10 => exact truthful_ok _
  | case11 s frame => exact truthful_cutOff frame.isOwn_ends
  | case12 s frame frames r _ ih => exact ih
  | case13 s frame frames r f henter => exact (truthful_enter _ _).error henter
  | case14 s frame frames r r' _ _ _ ih => exact ih
  | case15 s frame => exact truthful_placed frame.isOwn_expectedNext _

/-! ## Scalars -/

theorem truthful_identify (b : UInt8) (r : List UInt8) :
    Truthful ending (identify ending b r) := by
  unfold identify
  split
  · exact (truthful_readWord _ _).map _
  split
  · exact (truthful_readWord _ _).map _
  split
  · exact (truthful_readWord _ _).map _
  split
  · exact (truthful_readNumber _).map _
  split
  · exact (truthful_readString _).map _
  split
  · exact truthful_ok _
  split
  · exact truthful_ok _
  · exact truthful_placed rfl _

theorem truthful_mismatch (expected : String) (b : UInt8) (r : List UInt8) :
    Truthful ending (.error (mismatch ending expected b r) : Except Fault α) := by
  unfold mismatch
  split
  · exact truthful_placed rfl _
  · exact ((truthful_identify b r).error (β := α) ‹_›).settleAt _

/-- A decoder that tells of the reader's own failures only. -/
def Decoder.IsTruthful (d : Decoder α) : Prop :=
  ∀ (ending : Ending) (s : List UInt8), Truthful ending (d.run ending s)

theorem Decoder.IsTruthful.map {d : Decoder α} (h : d.IsTruthful) (f : α → β) :
    (d.map f).IsTruthful :=
  fun ending s => (h ending s).map _

theorem truthful_number {expected : String} {accept : Number → Except Cause α}
    (own : ∀ n c, accept n = .error c → c.isOwn = true) :
    (Decoder.number expected accept).IsTruthful := by
  intro ending s
  change Truthful ending (runNumber expected accept ending s)
  unfold runNumber
  split
  · exact truthful_cutOff rfl
  split
  · split
    · exact (truthful_readNumber _).error ‹_›
    split
    · exact truthful_ok _
    · exact truthful_placed (own _ _ ‹_›) _
  · exact truthful_mismatch _ _ _

theorem truthful_string {expected : String} {accept : String → Except Cause α}
    (own : ∀ text c, accept text = .error c → c.isOwn = true) :
    (Decoder.string expected accept).IsTruthful := by
  intro ending s
  change Truthful ending (runString expected accept ending s)
  unfold runString
  split
  · exact truthful_cutOff rfl
  split
  · split
    · exact (truthful_readString _).error ‹_›
    split
    · exact truthful_ok _
    · exact truthful_placed (own _ _ ‹_›) _
  · exact truthful_mismatch _ _ _

theorem truthful_boolean : Decoder.boolean.IsTruthful := by
  intro ending s
  change Truthful ending (runBoolean ending s)
  unfold runBoolean
  split
  · exact truthful_cutOff rfl
  split
  · exact (truthful_readWord _ _).map _
  split
  · exact (truthful_readWord _ _).map _
  · exact truthful_mismatch _ _ _

theorem truthful_text : Decoder.text.IsTruthful :=
  truthful_string fun _ _ h => by cases h

theorem truthful_integer (expected : String) (low high : Int) :
    (Decoder.integer expected low high).IsTruthful := by
  refine truthful_number fun n c h => ?_
  cases n with
  | integer n =>
    dsimp only at h
    split at h
    · cases h
    · cases h; rfl
  | float x => cases h; rfl

/-! ## Records -/

/-- A field is as truthful as its value. -/
theorem Decoder.IsTruthful.field {σ : Type} {d : Decoder α} (h : d.IsTruthful) (name : String)
    (get : σ → Option α) (set : α → σ → σ) : (Field.of name get set d).value.IsTruthful :=
  h.map set

theorem truthful_nextItem (first : Bool) (s : List UInt8) :
    Truthful ending (nextItem ending first s) := by
  unfold nextItem
  split
  · exact truthful_cutOff rfl
  split
  · exact truthful_ok _
  split
  · exact truthful_ok _
  split
  · split
    · exact truthful_cutOff rfl
    · split
      · exact truthful_placed rfl _
      · exact truthful_ok _
  · exact truthful_placed rfl _

theorem truthful_closeList (s : List UInt8) : Truthful ending (closeList ending s) := by
  unfold closeList
  split
  · exact truthful_cutOff rfl
  split
  · exact truthful_ok _
  split
  · split
    · exact truthful_placed rfl _
    · refine truthful_placed ?_ _
      split <;> rfl
  · exact truthful_placed rfl _

namespace Record

variable {σ : Type} {fields : List (Field σ)}

theorem truthful_runInOrder (h : ∀ field ∈ fields, field.value.IsTruthful) (count : Nat) (draft : σ)
    (s : List UInt8) : Truthful ending (runInOrder ending fields count draft s) := by
  induction fields generalizing count draft s with
  | nil => exact truthful_ok _
  | cons field fields ih =>
    unfold runInOrder
    split
    · exact (truthful_nextItem _ _).error ‹_›
    · exact truthful_ok _
    split
    · exact (h field List.mem_cons_self ending _).error ‹_›
    · exact ih (fun other hmem => h other (List.mem_cons_of_mem _ hmem)) _ _ _

theorem truthful_nextName (first : Bool) (s : List UInt8) :
    Truthful ending (nextName ending first s) := by
  unfold nextName
  split
  · exact truthful_cutOff rfl
  split
  · exact truthful_ok _
  split
  · split
    · exact truthful_ok _
    · exact truthful_placed rfl _
  split
  · split
    · exact truthful_cutOff rfl
    · split
      · exact truthful_ok _
      · refine truthful_placed ?_ _
        split <;> rfl
  · exact truthful_placed rfl _

theorem truthful_runMember (h : ∀ field ∈ fields, field.value.IsTruthful) (draft : σ)
    (s : List UInt8) : Truthful ending (runMember fields ending draft s) := by
  unfold runMember
  split
  · exact (truthful_readString _).error ‹_›
  split
  · rename_i field hfield
    split
    · exact truthful_floating rfl _
    split
    · exact (truthful_readColon _).error ‹_›
    · exact (h field (List.mem_of_find?_eq_some hfield) ending _).map _
  · split
    · exact (truthful_readColon _).error ‹_›
    · exact (truthful_skipFrom _ _ _).map _

theorem truthful_runMembers (h : ∀ field ∈ fields, field.value.IsTruthful) (first : Bool)
    (draft : σ) (s : List UInt8) : Truthful ending (runMembers fields ending first draft s) := by
  fun_induction runMembers fields ending first draft s with
  | case1 first draft s f hname => exact (truthful_nextName _ _).error hname
  | case2 => exact truthful_ok _
  | case3 first draft s s' _ f hmember => exact (truthful_runMember h _ _).error hmember
  | case4 first draft s s' _ draft' r _ ih => exact ih

/-- A record is as truthful as its fields. -/
theorem truthful_record {rc : Record σ α} (h : ∀ field ∈ rc.fields, field.value.IsTruthful) :
    rc.decoder.IsTruthful := by
  intro ending s
  change Truthful ending (rc.run ending s)
  unfold run
  split
  · exact truthful_cutOff rfl
  split
  · refine Truthful.mapError_settleAt ?_ _
    unfold fromList
    split
    · exact (truthful_runInOrder h _ _ _).error ‹_›
    split
    · exact truthful_floating rfl _
    · exact (truthful_closeList _).map _
  split
  · refine Truthful.mapError_settleAt ?_ _
    unfold fromObject
    split
    · exact (truthful_runMembers h _ _ _).error ‹_›
    split
    · exact truthful_floating rfl _
    · exact truthful_ok _
  · exact truthful_mismatch _ _ _

end Record

/-! ## Whole documents -/

theorem Truthful.ofFault {x : Except Fault α} (h : Truthful ending x) {document : List UInt8}
    {e : Error} {error : SystemError} (fails : x.mapError (Error.ofFault document) = .error e)
    (cause : e.cause = .source error) : ending = .broken error := by
  cases x with
  | ok a => cases fails
  | error f =>
    cases fails
    refine h f error rfl ?_
    cases f <;> exact cause

/-- A document that fails with a failure of its reader has a reader that fails so. -/
theorem Decoder.IsTruthful.document {d : Decoder α} (h : d.IsTruthful) {source : Source} {e : Error}
    {error : SystemError} (fails : d.document source = .error e) (cause : e.cause = .source error) :
    source.ending = .broken error := by
  refine Truthful.ofFault ?_ fails cause
  refine (h source.ending source.bytes).bind fun p => ?_
  dsimp only
  split
  · exact (truthful_lookPast _).bind fun _ => truthful_ok _
  · exact truthful_placed rfl _

end Bytecode.Json
