import Bytecode.Document.Listing
import Bytecode.Proofs.Json.Slots

/-!
# The grammar of listings

The texts of an operand, of an entry and of a listing, said without a reader, and the fact that each
of them is read as what it is a text of. The members of an entry may stand in any order and among
members of other names, and what is empty or absent may be left out; the list of the five fields is
another form.

Doubles have no text here: the digits of a double are not always read back as the same double.
-/

namespace Bytecode

open Json

/-! ## Words -/

namespace Json

def WordText (n : UInt32) : List UInt8 → Prop := IntegerText n.toNat

def SignedText (n : Int32) : List UInt8 → Prop := IntegerText n.toInt

theorem IntegerText.head?_ne_null {n : Int} {text : List UInt8} (h : IntegerText n text) :
    text.head? ≠ some 0x6E := by
  obtain ⟨b, t, htext, hb⟩ := encode_integerText_eq_cons n
  rw [h, htext]
  intro e
  obtain rfl := Option.some.inj e
  exact absurd hb (by decide)

theorem StringText.head?_ne_null {s : String} {text : List UInt8} (h : StringText s text) :
    text.head? ≠ some 0x6E := by
  obtain ⟨body, rfl, -⟩ := h.quotes
  exact fun e => by cases e

namespace Decoder

theorem accepts_word : word.Accepts WordText := by
  intro n text h
  have hlt := n.toNat_lt
  have hread : word.Reads text (UInt32.ofNat (n.toNat : Int).toNat) :=
    (reads_integer h (by omega) (by omega) (by omega) (by omega)).map _
  rwa [Int.toNat_natCast, UInt32.ofNat_toNat] at hread

theorem accepts_signedWord : signedWord.Accepts SignedText := by
  intro n text h
  have hlow := n.le_toInt
  have hhigh := n.toInt_lt
  have hread : signedWord.Reads text (Int32.ofInt n.toInt) :=
    (reads_integer h (by omega) (by omega) (by omega) (by omega)).map _
  rwa [Int32.ofInt_toInt] at hread

end Decoder

end Json

/-! ## Operands -/

namespace Operand

/-- The text of what an operand holds. -/
def ContentText : Operand → List UInt8 → Prop
  | .symbol name => StringText name
  | .integer n => WordText n
  | .signed n => SignedText n
  | .float _ => fun _ => False
  | .text s => StringText s
  | .reference a => WordText a

/-- An operand is an object of one member, which is named after its kind. -/
def Spelled (op : Operand) (text : List UInt8) : Prop :=
  ∃ content, op.ContentText content ∧ ObjectText [(op.kindName, content)] text

theorem accepts_decoder : decoder.Accepts Spelled := by
  rintro op text ⟨content, hcontent, htext⟩
  cases op with
  | symbol name =>
    exact Decoder.reads_variants_text rfl htext ((Decoder.accepts_text _ _ hcontent).map _)
  | integer n =>
    exact Decoder.reads_variants_text rfl htext ((Decoder.accepts_word _ _ hcontent).map _)
  | signed n =>
    exact Decoder.reads_variants_text rfl htext ((Decoder.accepts_signedWord _ _ hcontent).map _)
  | float x => cases hcontent
  | text s =>
    exact Decoder.reads_variants_text rfl htext ((Decoder.accepts_text _ _ hcontent).map _)
  | reference a =>
    exact Decoder.reads_variants_text rfl htext ((Decoder.accepts_word _ _ hcontent).map _)

end Operand

/-! ## Entries -/

namespace Entry

/-- The members of an entry in the order of its fields, with the texts of their values. -/
def slots : List (Slot Draft) :=
  [⟨"address", Draft.address, fun v d => { d with address := some v }, .word, WordText⟩,
   ⟨"opcode", Draft.opcode, fun v d => { d with opcode := some v }, .text, StringText⟩,
   ⟨"operands", Draft.operands, fun v d => { d with operands := some v }, .list Operand.decoder,
    ListText Operand.Spelled⟩,
   ⟨"target", Draft.target, fun v d => { d with target := some v }, .nullable .word,
    NullableText WordText⟩,
   ⟨"comment", Draft.comment, fun v d => { d with comment := some v }, .nullable .text,
    NullableText StringText⟩]

theorem lawful_slots : Lawful slots record.blank where
  names := by decide
  accepts := by
    simp only [slots, List.forall_mem_cons, List.not_mem_nil, false_implies, implies_true, and_true]
    exact ⟨Decoder.accepts_word, Decoder.accepts_text, Operand.accepts_decoder.list,
      Decoder.accepts_word.nullable fun _ _ h => h.head?_ne_null,
      Decoder.accepts_text.nullable fun _ _ h => h.head?_ne_null⟩
  get_blank := by simp [slots, record]
  get_set := by simp [slots]
  get_set_ne := by simp [slots]
  ext := by
    rintro ⟨a, o, os, t, c⟩ ⟨a', o', os', t', c'⟩ h
    simpa [slots] using h

/-- The draft says what the entry says: it may leave out no operands, no target and no comment. -/
structure Given (e : Entry) (d : Draft) : Prop where
  address : d.address = some e.address
  opcode : d.opcode = some e.opcode
  operands : d.operands = some e.operands ∨ d.operands = none ∧ e.operands = []
  target : d.target = some e.target ∨ d.target = none ∧ e.target = none
  comment : d.comment = some e.comment ∨ d.comment = none ∧ e.comment = none

/-- The texts of an entry. -/
def Spelled (e : Entry) (text : List UInt8) : Prop := ∃ d, e.Given d ∧ DraftText slots d text

theorem Given.finish {e : Entry} {d : Draft} (h : e.Given d) : d.finish = .ok e := by
  obtain ⟨address, opcode, operands, target, comment⟩ := d
  obtain ⟨rfl, rfl, hoperands, htarget, hcomment⟩ := h
  have hos : operands.getD [] = e.operands := by
    rcases hoperands with rfl | ⟨rfl, h⟩
    · rfl
    · exact h.symm
  have ht : target.getD none = e.target := by
    rcases htarget with rfl | ⟨rfl, h⟩
    · rfl
    · exact h.symm
  have hc : comment.getD none = e.comment := by
    rcases hcomment with rfl | ⟨rfl, h⟩
    · rfl
    · exact h.symm
  simp only [Draft.finish, hos, ht, hc]

theorem accepts_decoder : decoder.Accepts Spelled := by
  rintro e text ⟨d, hgiven, htext⟩
  exact lawful_slots.reads rfl htext hgiven.finish

end Entry

/-! ## Listings -/

namespace Listing

def slots : List (Slot Draft) :=
  [⟨"instructions", Draft.entries, fun v d => { d with entries := some v }, .list Entry.decoder,
    ListText Entry.Spelled⟩]

theorem lawful_slots : Lawful slots record.blank where
  names := by decide
  accepts := by
    simp only [slots, List.forall_mem_cons, List.not_mem_nil, false_implies, implies_true, and_true]
    exact Entry.accepts_decoder.list
  get_blank := by simp [slots, record]
  get_set := by simp [slots]
  get_set_ne := by simp [slots]
  ext := by
    rintro ⟨es⟩ ⟨es'⟩ h
    simpa [slots] using h

/-- The texts of a listing with the given entries. -/
def Spelled (es : List Entry) : List UInt8 → Prop := DraftText slots ⟨some es⟩

theorem accepts_decoder : decoder.Accepts fun l => Spelled l.entries :=
  fun _ _ h => lawful_slots.reads rfl h rfl

end Listing

end Bytecode
