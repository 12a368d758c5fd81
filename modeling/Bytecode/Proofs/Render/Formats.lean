import Bytecode.Proofs.Command.Session
import Bytecode.Proofs.Json.Written
import Bytecode.Proofs.Render.Lines
import Bytecode.Proofs.Render.Overflow
import Bytecode.Proofs.Render.Records

/-!
# Formats that select alike

The two formats walk over a store in different ways: text is written by a visit, records are copied
out as a list. What they select is the same. A listing in JSON has just the instructions that the
writer of text is handed over (`handedOver_eq`), so the formats also refuse the same ranges. A range
from the first address to one that is not below the last shows all there is, and is the same
computation as no range.

* `Store.visitOf`: a visit of the whole store, or of a range;
* `handedOver`: the instructions that the writer of text is called with;
* `SelectsAlike`: how the two formats go together, which they do after every history
  (`selectsAlike_run`).
-/

namespace Bytecode

/-- A visit of the whole store, or of a range of it. -/
def Store.visitOf {m : Type → Type} [Monad m] (s : Store) (range : Option Render.Range)
    (w : Writer m) : Except StoreError (m Unit) :=
  match range with
  | none => .ok (s.visit w)
  | some (start, stop) => s.visitRange start stop w

namespace Render

open Store Json

/-- The instructions that the writer of text is called with on an endless sink, in order. -/
def handedOver (settings : Settings) (s : Store) (range : Option Range) :
    Except StoreError (List Instruction) :=
  (s.visitOf range (textWriter settings s).watched).map fun visit =>
    (watch {} visit).calls.filterMap Event.instruction?

/-- The text is an array, with these texts as its items, and a line feed. -/
def IsArray (items : List (List UInt8)) (text : List UInt8) : Prop :=
  ∃ inner, Separated items inner ∧ text = 0x5B :: (inner ++ [0x5D, 0x0A])

/-- The bytes of a record among others. -/
def recordText (i : Instruction) : List UInt8 := Text.encode (i.toValue.write .pretty 1)

/-- How the output in one format goes with the output in the other, for settings that have all else
in common. -/
structure SelectsAlike (settings : Settings) (s : Store) (range : Option Range) : Prop where
  /-- A listing in text is what the visit makes that `handedOver` looks at. -/
  text : writeListing { settings with format := .text } s range =
    s.visitOf range (textWriter { settings with format := .text } s)
  /-- A listing in JSON has the records of what text is handed over, or is refused as that is. -/
  json : writeListing { settings with format := .json } s range =
    (handedOver { settings with format := .text } s range).map writeRecords
  /-- These records are the items of an array, in order. -/
  array : ∀ is, ∃ bytes, (writeRecords is).Writes bytes ∧
    IsArray (is.map recordText) bytes.data.toList
  /-- Both formats refuse a range exactly if its start is not stored, as something not found. -/
  refused : ∀ format e, writeListing { settings with format := format } s range = .error e ↔
    ∃ q ∈ range, q.1 ∉ s.addresses ∧ e = .rangeStartNotFound q.1
  kind : ∀ a, (StoreError.rangeStartNotFound a).kind = .notFound
  /-- What is refused is refused before a byte is written. -/
  silent : ∀ format e, writeListing { settings with format := format } s range = .error e →
    Command.Runs (do Command.print (← Command.orFail .store
      (printListing { settings with format := format } s range))) (.error (.store e)) [] .empty
  /-- What is printed is what is written, unless a line would be longer than a text can be. -/
  printed : ∀ format written, writeListing { settings with format := format } s range =
      .ok written →
    ¬ Overflows { settings with format := format } (shownAddresses range s.addresses) →
    printListing { settings with format := format } s range = .ok written.printing

/-! ## What is selected -/

variable {s : Store}

theorem visitOf_eq_map {m : Type → Type} [Monad m] (s : Store) (range : Option Range)
    (w : Writer m) : s.visitOf range w = (selected s range).map (s.visitEach w) := by
  cases range <;> rfl

/-- The writer of text is handed over what a range shows. -/
theorem handedOver_eq (settings : Settings) (s : Store) (range : Option Range) :
    handedOver settings s range = selected s range := by
  rw [handedOver, visitOf_eq_map]
  cases selected s range with
  | error e => rfl
  | ok is => simp only [Except.map, calls_watch_visitEach, instructions_eventsOf]

/-! ## The array of records -/

theorem isArray_recordsBytes (is : List Instruction) :
    IsArray (is.map recordText) (recordsBytes is).data.toList := by
  obtain ⟨inner, hsep, htext⟩ :=
    separated_write Style.spaced_pretty 0 (is.map Instruction.toValue)
  rw [List.map_map] at hsep
  refine ⟨inner, hsep, ?_⟩
  rw [toList_recordsBytes, htext]
  simp

/-! ## The whole store as a range -/

theorem slice_whole (h : s.Sound) {first : Instruction} (hfirst : s.first? = some first)
    {stop : Address} (hstop : ∀ last ∈ s.last?, last.address ≤ stop) :
    s.slice first.address stop = .ok s.toList := by
  have hstored : s.contains first.address = true := by
    rw [first?_eq] at hfirst
    exact h.contains_of_mem (List.mem_of_head? hfirst)
  rw [h.slice_eq_between hstored, between, List.filter_eq_self.mpr]
  intro i hi
  have hlast : i.address ≤ stop := by
    cases hlast : s.last? with
    | none =>
      rw [last?_eq, List.getLast?_eq_none_iff] at hlast
      rw [hlast] at hi
      cases hi
    | some last =>
      have hle := h.le_last (by rw [getLast?_addresses, hlast]; rfl) (List.mem_map_of_mem hi)
      exact UInt32.le_trans hle (hstop last hlast)
  simp [h.first_le hfirst hi, hlast]

/-- A range from the first address to one that is not below the last is no range. -/
theorem writeListing_whole (h : s.Sound) (settings : Settings) {first : Instruction}
    (hfirst : s.first? = some first) {stop : Address}
    (hstop : ∀ last ∈ s.last?, last.address ≤ stop) :
    writeListing settings s (some (first.address, stop)) = writeListing settings s none := by
  unfold writeListing
  cases settings.format <;> simp only [visitRange, slice_whole h hfirst hstop] <;> rfl

/-! ## Both formats -/

theorem selectsAlike (h : s.Sound) (settings : Settings) (range : Option Range) :
    SelectsAlike settings s range where
  text := by rw [writeListing_eq_map, visitOf_eq_map]
  json := by rw [writeListing_eq_map, handedOver_eq]
  array is := ⟨recordsBytes is, writes_records is, isArray_recordsBytes is⟩
  refused format e := writeListing_eq_error_iff _ h range e
  kind _ := rfl
  silent format e herror := by
    rw [(printListing_eq_error_iff _).mpr herror]
    exact (Command.runs_throw (.store e)).bind_error
  printed _ _ hwritten fits := printListing_eq h hwritten fits

/-- **Formats and ranges select alike.** After every history and for settings that differ in the
format alone, JSON writes an array of the records of just what the writer of text is handed over,
in order, whatever the range. Both formats refuse a range if its start is not stored and no other,
with the same error, and have not written a byte by then. In either format a range from the first
address to an address that is not below the last is shown as the whole store is: what is written is
the same computation, so the bytes are the same on every sink. -/
theorem selectsAlike_run (os : List Offer) (settings : Settings) :
    let s := empty.run os
    (∀ range, SelectsAlike settings s range) ∧
    ∀ first ∈ s.first?, ∀ stop, (∀ last ∈ s.last?, last.address ≤ stop) →
      writeListing settings s (some (first.address, stop)) = writeListing settings s none := by
  intro s
  have h : s.Sound := sound_run os
  exact ⟨selectsAlike h settings, fun first hfirst stop hstop =>
    writeListing_whole h settings hfirst hstop⟩

end Render

end Bytecode
