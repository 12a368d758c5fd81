import Bytecode.Document.Listing
import Bytecode.Proofs.Document.Content
import Bytecode.Proofs.Render.Records
import Bytecode.Proofs.Store.Loading

/-!
# Listings made of written records

The records that are written in JSON become a listing when they are put into an object as its only
member. Reading it gives back the records (`readListing_listingOf`): the writer spells an
instruction by its kind and leaves a missing comment out, the reader goes by the target alone and
takes what is left out for missing, and both come to the same instruction. The records rise in any
range of a store, so the reader's store takes them all, in order, and it is the only store with
these records.

Doubles are left out: their shortest digits are not always read back as the same double.
-/

namespace Bytecode

open Json

/-! ## The bytes of a listing -/

/-- The document that lists the records of an output in JSON. -/
def Render.listingOf (records : ByteArray) : Source :=
  ⟨("\x7b\"instructions\": ".toUTF8 ++ records ++ "\x7d".toUTF8).data.toList, .complete⟩

/-- Between the braces stand one member, written as in any object, and a line feed. -/
theorem Render.listingOf_recordsBytes (is : List Instruction) :
    listingOf (recordsBytes is) =
      ⟨0x7B :: (memberBytes .pretty 0 ("instructions", .list (is.map Instruction.toValue)) ++
        [0x0A] ++ [0x7D]), .complete⟩ := by
  have hopen : "\x7b\"instructions\": ".toUTF8.data.toList =
      0x7B :: Text.encode (stringText "instructions" ++ Style.pretty.colon) := by
    rw [Text.toList_data_toUTF8]
    decide
  have hclose : "\x7d".toUTF8.data.toList = [0x7D] := by
    rw [Text.toList_data_toUTF8]
    decide
  rw [listingOf]
  simp only [ByteArray.data_append, Array.toList_append, hopen, hclose, toList_recordsBytes,
    memberBytes, Text.encode_append, List.cons_append, List.append_assoc]

/-- The document is a text of the entries of the records that it lists. -/
theorem Listing.spelled_listingOf {is : List Instruction}
    (h : ∀ i ∈ is, ∀ op ∈ i.operands, op.isFloat = false) :
    DocumentText (Spelled (is.map Entry.ofInstruction))
      (Render.listingOf (Render.recordsBytes is)) := by
  have hrecords : (Value.list (is.map Instruction.toValue)).Spells
      (ListText Entry.Spelled (is.map Entry.ofInstruction)) := by
    refine Value.spells_list ?_
    rw [List.forall₂_map_left_iff, List.forall₂_map_right_iff]
    exact List.forall₂_same.mpr fun i hi => Instruction.spells_toValue (h i hi)
  have hmembers : Says slots ⟨some (is.map Entry.ofInstruction)⟩
      [("instructions", .list (is.map Instruction.toValue))] := by
    constructor
    · simpa [slots, valuesOf] using hrecords
    · simp [slots]
  have hgives := hmembers.gives Style.spaced_pretty 0
  have hmember := forall₂_memberBytes Style.spaced_pretty 0
    [("instructions", .list (is.map Instruction.toValue))]
  have hfeed : Blanks [0x0A] := blanks_singleton rfl
  have hobject := DraftText.object hgives ⟨_, _, hmember, .last blanks_nil hfeed, rfl⟩
  refine ⟨[], _, [], blanks_nil, blanks_nil, hobject, ?_⟩
  rw [Render.listingOf_recordsBytes, List.append_nil]
  rfl

/-- **Written records read back.** -/
theorem readListing_listingOf {is : List Instruction}
    (exact : ∀ i ∈ is, ∀ op ∈ i.operands, op.isFloat = false)
    (rising : (is.map (·.address)).Pairwise (· < ·)) :
    readListing (Render.listingOf (Render.recordsBytes is)) = .ok (Store.ofList is) := by
  have hback : (is.map Entry.ofInstruction).map Entry.instruction = is := by
    rw [List.map_map]
    exact List.map_id'' Entry.instruction_ofInstruction is
  rw [readListing_spelled (Listing.spelled_listingOf exact)]
  simp only [Listing.store, hback, (Store.load_eq_ofList rising).1]
  rfl

/-! ## The round trip -/

open Store

/-- **What is written as JSON is read back.** For every history whose records hold no double, and
for the whole store or any range that can be shown, the listing of the written records loads. Its
store holds exactly the records that were shown and answers as every store that holds just these,
and writing it gives the same bytes again. -/
theorem readListing_writeListing (os : List Offer) (settings : Settings)
    (range : Option Render.Range) (format : settings.format = .json)
    (exact : ∀ i ∈ (empty.run os).toList, ∀ op ∈ i.operands, op.isFloat = false)
    (stored : ∀ r ∈ range, (empty.run os).contains r.1 = true) :
    let is := (empty.run os).shown range
    let back := empty.run (is.map fun i => ⟨i, []⟩)
    ∃ out json, Render.writeListing settings (empty.run os) range = .ok out ∧
      out.run none = (json, .ok ()) ∧
      readListing (Render.listingOf json) = .ok back ∧
      back.toList = is ∧ back.Coherent ∧
      back.branches = is.filter Instruction.isBranch ∧
      (∀ t, t ∈ back.targetList ↔ ∃ i ∈ is, i.target? = some t) ∧
      (∀ os', (empty.run os').toList = is → empty.run os' = back) ∧
      ∃ again, Render.writeListing settings back none = .ok again ∧
        again.run none = (json, .ok ()) := by
  intro is back
  have h : (empty.run os).Sound := sound_run os
  have hexact : ∀ i ∈ is, ∀ op ∈ i.operands, op.isFloat = false := fun i hi =>
    exact i ((shown_sublist _ range).subset hi)
  have hrising : (is.map (·.address)).Pairwise (· < ·) := h.rising_shown range
  have hback : back = ofList is := (load_eq_ofList hrising).2
  have hlist : back.toList = is := by rw [hback, toList_ofList]
  have hsound : back.Sound := sound_run _
  refine ⟨_, _, Render.writeListing_json format h stored, (Render.writes_records is).run_none, ?_,
    hlist, hsound.coherent, ?_, fun t => ?_, fun os' hos' => ?_, _,
    Render.writeListing_json format hsound (by simp), ?_⟩
  · rw [readListing_listingOf hexact hrising, hback]
  · rw [hsound.branches_eq_filter, hlist]
  · rw [mem_targetList, hsound.targets, hlist]
  · rw [run_eq_ofList, hos', hback]
  · rw [shown, hlist]
    exact (Render.writes_records is).run_none

/-- Words at their limits, a target that is not stored, an empty comment and none, and texts with
quotes, control characters and characters of four bytes; a refused offer and what is below the
range are not written. -/
theorem readListing_writeListing_at_limits :
    let os : List Offer :=
      [⟨⟨0, "first", [], .branch 4, none⟩, []⟩,
        ⟨⟨4, "a\"\\\n\x00😀", [.signed (-0x80000000), .signed 0x7FFFFFFF, .integer 0xFFFFFFFF,
          .symbol "", .text "\u2028", .reference 9], .branch 9, none⟩, ["x", ""]⟩,
        ⟨⟨2, "late", [], .plain, none⟩, []⟩,
        ⟨⟨0xFFFFFFFF, "", [], .plain, none⟩, []⟩]
    ∃ out json back, Render.writeListing { format := .json } (empty.run os) (some (4, 0xFFFFFFFF)) =
        .ok out ∧ out.run none = (json, .ok ()) ∧
      readListing (Render.listingOf json) = .ok back ∧
      back.toList =
        [⟨4, "a\"\\\n\x00😀", [.signed (-0x80000000), .signed 0x7FFFFFFF, .integer 0xFFFFFFFF,
            .symbol "", .text "\u2028", .reference 9], .branch 9, some ""⟩,
          ⟨0xFFFFFFFF, "", [], .plain, none⟩] := by
  intro os
  obtain ⟨out, json, hout, hjson, hread, hlist, -⟩ :=
    readListing_writeListing os { format := .json } (some (4, 0xFFFFFFFF)) rfl (by decide +kernel)
      fun _ hr => Option.some.inj hr ▸ (by decide +kernel)
  exact ⟨out, json, _, hout, hjson, hread, hlist.trans (by decide +kernel)⟩

end Bytecode
