import Bytecode.Document.Listing
import Bytecode.Proofs.Json.Closed

/-!
# Listings that are cut off

A listing is closed by a bracket of its own, so no part of it before that bracket is a listing, and
behind it nothing may stand but white space. Hence a reader that fails before the end gives no
store, and neither does a file of which the end is missing, wherever it was cut: inside a number or
a string, inside a member that is skipped, or between two entries.

Inside the listing only the fields have to be looked at: words may end with the bytes and are
`Lasting`, all other values are `Closed` (`Listing.closed_decoder`).
-/

namespace Bytecode

open Json

/-! ## Listings close themselves -/

namespace Json.Decoder

theorem closed_text : text.Closed := closed_string _ _

theorem lasting_word : word.Lasting := (lasting_number _ _).map _

theorem lasting_signedWord : signedWord.Lasting := (lasting_number _ _).map _

theorem lasting_double : double.Lasting := lasting_number _ _

end Json.Decoder

open Decoder

theorem Operand.closed_decoder : Operand.decoder.Closed := by
  refine closed_variants fun p hp => ?_
  simp only [readers, List.mem_cons, List.not_mem_nil, or_false] at hp
  rcases hp with rfl | rfl | rfl | rfl | rfl | rfl
  · exact closed_text.lasting.map _
  · exact lasting_word.map _
  · exact lasting_signedWord.map _
  · exact lasting_double.map _
  · exact closed_text.lasting.map _
  · exact lasting_word.map _

theorem Entry.closed_decoder : Entry.decoder.Closed := by
  refine Record.closed_record fun field hfield => ?_
  change field ∈ [addressField, opcodeField, operandsField, targetField, commentField] at hfield
  simp only [List.mem_cons, List.not_mem_nil, or_false] at hfield
  rcases hfield with rfl | rfl | rfl | rfl | rfl
  · exact lasting_word.field _ _ _
  · exact closed_text.lasting.field _ _ _
  · exact Operand.closed_decoder.lasting.list.lasting.field _ _ _
  · exact lasting_word.nullable.field _ _ _
  · exact closed_text.lasting.nullable.field _ _ _

theorem Listing.closed_decoder : Listing.decoder.Closed := by
  refine Record.closed_record fun field hfield => ?_
  obtain rfl : field = entriesField := List.mem_singleton.mp hfield
  exact Entry.closed_decoder.lasting.list.lasting.field _ _ _

/-! ## Stores from parts of a listing -/

/-- The outcome of a document that cannot be read: neither a store nor a refusal of the store. -/
def Unreadable (outcome : Except LoadError Store) : Prop := ∃ e, outcome = .error (.document e)

theorem unreadable_iff (source : Source) :
    Unreadable (readListing source) ↔ ∃ e, Listing.decoder.document source = .error e := by
  unfold Unreadable readListing
  cases Listing.decoder.document source with
  | error e => simp
  | ok l =>
    -- What the store says is not said of the document.
    simp only
    cases l.store <;> simp [Except.mapError]

theorem not_unreadable_iff (source : Source) :
    ¬ Unreadable (readListing source) ↔ ∃ l, Listing.decoder.document source = .ok l := by
  rw [unreadable_iff]
  cases Listing.decoder.document source <;> simp

/-- Behind a listing white space makes no difference, and nothing else may stand there. -/
theorem readListing_append {p : List UInt8} (hp : ¬ Unreadable (readListing ⟨p, .complete⟩))
    (more : List UInt8) :
    (Blanks more ∧ readListing ⟨p ++ more, .complete⟩ = readListing ⟨p, .complete⟩) ∨
      (¬ Blanks more ∧ Unreadable (readListing ⟨p ++ more, .complete⟩)) := by
  obtain ⟨l, hl⟩ := (not_unreadable_iff _).mp hp
  have hiff := Listing.closed_decoder.document_append_eq_ok_iff hl more
  by_cases hmore : Blanks more
  · refine Or.inl ⟨hmore, ?_⟩
    rw [readListing, readListing, hl, (hiff l).mpr ⟨rfl, hmore⟩]
  · refine Or.inr ⟨hmore, ?_⟩
    refine Classical.byContradiction fun hread => ?_
    obtain ⟨l', hl'⟩ := (not_unreadable_iff _).mp hread
    exact hmore ((hiff l').mp hl').2

/-- **No store from a part of a listing.** A reader that fails instead of reaching the end gives an
unreadable document, whatever it delivered before. If some bytes are a listing, or would be one but
for what the store says, then with white space behind them they are the same one, with anything
else behind them they are unreadable, and so is every part of them that lacks more than white
space at its end. -/
theorem unreadable_parts (p : List UInt8) :
    (∀ error, Unreadable (readListing ⟨p, .broken error⟩)) ∧
    (¬ Unreadable (readListing ⟨p, .complete⟩) →
      (∀ more,
        (Blanks more ∧ readListing ⟨p ++ more, .complete⟩ = readListing ⟨p, .complete⟩) ∨
          (¬ Blanks more ∧ Unreadable (readListing ⟨p ++ more, .complete⟩))) ∧
      ∀ part lacking, p = part ++ lacking → ¬ Blanks lacking →
        Unreadable (readListing ⟨part, .complete⟩)) := by
  refine ⟨fun error => ?_, fun hp => ⟨readListing_append hp, ?_⟩⟩
  · exact (unreadable_iff _).mpr (document_broken _ p error)
  · rintro part lacking rfl hlacking
    refine Classical.byContradiction fun hpart => ?_
    -- A part that is a listing can only be followed by white space.
    rcases readListing_append hpart lacking with ⟨hblank, _⟩ | ⟨_, hwhole⟩
    · exact hlacking hblank
    · exact hp hwhole

/-- An empty listing, and the same without its last bracket. -/
example : (readListing ⟨[0x5B, 0x5B, 0x5D, 0x5D, 0x0A], .complete⟩).isOk = true ∧
    (readListing ⟨[0x5B, 0x5B, 0x5D], .complete⟩).isOk = false := by
  decide +kernel

end Bytecode
