import Bytecode.Proofs.Document.Instruction

/-!
# Listings from their content

What an entry is depends on what its text says and not on how: on no order of members, on no member
of another name, on no white space, and neither on spelled-out defaults nor on the form, an object
or a list. The grammar holds all these texts, and reading follows the grammar.
-/

namespace Bytecode

open Json

/-- A document is loaded by what it says. -/
theorem readListing_spelled {es : List Entry} {source : Source}
    (h : DocumentText (Listing.Spelled es) source) :
    readListing source = (Listing.store ⟨es⟩).mapError .store := by
  rw [readListing, Listing.accepts_decoder.document (a := ⟨es⟩) h]

/-- What is written for an entry without doubles is one of its texts. -/
theorem Entry.exists_spelled {e : Entry} (h : ∀ op ∈ e.operands, op.isFloat = false) :
    ∃ text, e.Spelled text := by
  have hback : Entry.ofInstruction e.instruction = e := by
    rcases e with ⟨address, opcode, operands, target, comment⟩
    cases target <;> rfl
  have hspelled := Instruction.spells_toValue (i := e.instruction) h .pretty Style.spaced_pretty 0
  rw [hback] at hspelled
  exact ⟨_, hspelled⟩

/-- **Content alone decides what is read.** Every entry without doubles has texts. Each of them is
read as that entry, as a document of its own and anywhere in another one. Two documents that are
texts of the same entries load alike: both give the store of these entries, or both are refused with
the same error. The order of members, members of other names, white space, spelled-out defaults and
the form, an object or a list, make no difference, neither to the entries nor to the listing around
them. -/
theorem read_by_content :
    (∀ e : Entry, (∀ op ∈ e.operands, op.isFloat = false) → ∃ text, e.Spelled text) ∧
    (∀ e source, DocumentText (Entry.Spelled e) source →
      Entry.decoder.document source = .ok e) ∧
    (∀ e text, Entry.Spelled e text → Entry.decoder.Reads text e) ∧
    ∀ es source source', DocumentText (Listing.Spelled es) source →
      DocumentText (Listing.Spelled es) source' →
      readListing source = (Listing.store ⟨es⟩).mapError .store ∧
        readListing source = readListing source' := by
  refine ⟨fun e => Entry.exists_spelled, fun e source h => Entry.accepts_decoder.document h,
    Entry.accepts_decoder, ?_⟩
  intro es source source' h h'
  exact ⟨readListing_spelled h, by rw [readListing_spelled h, readListing_spelled h']⟩

/-- A record in the order of no field, with a member that no entry has and a target left out, on
several lines, and the same record as a list on one line. -/
theorem read_by_content_unordered :
    let operand := Operand.toValue (.signed (-1))
    let unordered : Value := .object [("x", .list [.null, .object [("address", .boolean true)]]),
      ("instructions", .list [.object [("comment", .null), ("operands", .list [operand]),
        ("kind", .string "plain"), ("opcode", .string "a\n"), ("address", .ofWord 4)]])]
    let listed : Value := .list [.list [.list [.ofWord 4, .string "a\n", .list [operand], .null,
      .null]]]
    readListing ⟨Text.encode (unordered.write .pretty 0), .complete⟩ =
        readListing ⟨Text.encode (listed.write .compact 0), .complete⟩ ∧
      readListing ⟨Text.encode (listed.write .compact 0), .complete⟩ =
        .ok (Store.empty.run [⟨⟨4, "a\n", [.signed (-1)], .plain, none⟩, []⟩]) := by
  intro operand unordered listed
  let e : Entry := ⟨4, "a\n", [.signed (-1)], none, none⟩
  have haddress := Value.spells_integer 4
  have hopcode := Value.spells_string "a\n"
  have hoperands : (Value.list [operand]).Spells (ListText Operand.Spelled e.operands) :=
    Value.spells_list (.cons (Operand.spells_toValue rfl) .nil)
  have hother : (Value.list [.null, .object [("address", .boolean true)]]).Spells WellFormed := by
    refine Value.wellFormed_list ?_
    simpa using ⟨Value.wellFormed_null,
      Value.wellFormed_object (by simpa using Value.wellFormed_boolean true)⟩
  have hobject : (Value.object [("comment", .null), ("operands", .list [operand]),
      ("kind", .string "plain"), ("opcode", .string "a\n"), ("address", .ofWord 4)]).Spells
        e.Spelled := by
    have hmembers : Says Entry.slots ⟨some 4, some "a\n", some e.operands, none, some none⟩
        [("comment", .null), ("operands", .list [operand]), ("kind", .string "plain"),
          ("opcode", .string "a\n"), ("address", .ofWord 4)] := by
      constructor
      · simpa [Entry.slots, valuesOf] using ⟨haddress, hopcode, hoperands, Value.spells_null⟩
      · simp [Entry.slots, Value.wellFormed_string]
    exact fun style hstyle depth => ⟨_, ⟨rfl, rfl, .inl rfl, .inr ⟨rfl, rfl⟩, .inl rfl⟩,
      hmembers.spells style hstyle depth⟩
  have hlist : (Value.list [.ofWord 4, .string "a\n", .list [operand], .null, .null]).Spells
      e.Spelled := by
    have hitems : (Value.list [.ofWord 4, .string "a\n", .list [operand], .null, .null]).Spells
        (DraftText Entry.slots ⟨some 4, some "a\n", some e.operands, some none, some none⟩) :=
      Value.spells_inOrder <| .cons ⟨_, rfl, haddress⟩ <| .cons ⟨_, rfl, hopcode⟩ <|
        .cons ⟨_, rfl, hoperands⟩ <| .cons ⟨_, rfl, Value.spells_null⟩ <|
        .cons ⟨_, rfl, Value.spells_null⟩ .nil
    exact fun style hstyle depth => ⟨_, ⟨rfl, rfl, .inl rfl, .inl rfl, .inl rfl⟩,
      hitems style hstyle depth⟩
  have hunordered : unordered.Spells (Listing.Spelled [e]) := by
    refine Says.spells ⟨?_, ?_⟩
    · simpa [Listing.slots, valuesOf] using Value.spells_list (.cons hobject .nil)
    · simpa [Listing.slots] using hother
  have hlisted : listed.Spells (Listing.Spelled [e]) :=
    Value.spells_inOrder (.cons ⟨_, rfl, Value.spells_list (.cons hlist .nil)⟩ .nil)
  obtain ⟨hstore, halike⟩ := read_by_content.2.2.2 _ _ _
    (hlisted.documentText Style.spaced_compact) (hunordered.documentText Style.spaced_pretty)
  exact ⟨halike.symm, hstore.trans rfl⟩

end Bytecode
