import Bytecode.Proofs.Render.Output
import Bytecode.Proofs.Render.Selection
import Bytecode.Proofs.Store.Visits

/-!
# Indentations that are longer than a text

A line of assembly text begins with the indentation, which is made as a text of its own. Where the
settings ask for more spaces than a text can have, the program ends at the first instruction that it
shows. All it has printed by then is the label of that instruction, if it has one. Everywhere else a
listing is printed as `writeListing` writes it.

* `Overflows`: when the program ends like that;
* `printListing_eq`, `printListing_overflow`: what is printed in either case.
-/

namespace Bytecode.Render

open Store

/-- Some instruction is to be shown with more spaces before it than a text can have. Only assembly
text is indented by the settings. -/
structure Overflows (settings : Settings) (shown : List Address) : Prop where
  text : settings.format = .text
  long : maxTextLength < settings.indent
  nonempty : shown ≠ []

/-- What is written before the line of an instruction: its label, if some branch may go there. -/
def labelLine (settings : Settings) (store : Store) (a : Address) : String :=
  if store.isTarget a then eventText settings store (.label a) else ""

variable {settings : Settings} {store : Store}

/-! ## Where the indentation is a text -/

/-- Makes nothing. -/
def printingWriter (w : Writer Output) : Writer Printing where
  label a := (w.label a).printing
  instruction i := (w.instruction i).printing

theorem handle_printingWriter (w : Writer Output) (e : Event) :
    (printingWriter w).handle e = (w.handle e).printing := by
  cases e <;> rfl

theorem forM_printingWriter (w : Writer Output) (es : List Event) :
    es.forM (printingWriter w).handle = (es.forM w.handle).printing := by
  induction es with
  | nil => rfl
  | cons e es ih =>
    change (do (printingWriter w).handle e; es.forM (printingWriter w).handle) = _
    rw [handle_printingWriter, ih, ← Output.printing_seq]
    rfl

theorem guardedWriter_eq (fits : settings.indent ≤ maxTextLength) :
    guardedWriter settings store = printingWriter (textWriter settings store) := by
  have hreserve : Printing.reserve settings.indent = pure () := if_neg (Nat.not_lt.mpr fits)
  unfold guardedWriter printingWriter
  simp only [hreserve, pure_bind]

theorem visitEach_guarded (fits : settings.indent ≤ maxTextLength) (is : List Instruction) :
    store.visitEach (guardedWriter settings store) is =
      (store.visitEach (textWriter settings store) is).printing := by
  rw [guardedWriter_eq fits, visitEach_eq_forM, visitEach_eq_forM, forM_printingWriter]

/-! ## Where it is not -/

/-- No call after the one for an instruction is made, and nothing of its line is written. -/
theorem run_forM_overflow (long : maxTextLength < settings.indent) (i : Instruction)
    (es : List Event) (sink : Sink) :
    (ExceptT.run ((.instruction i :: es).forM (guardedWriter settings store).handle)).run sink =
      (.error .overflow, sink) := by
  have hreserve : Printing.reserve settings.indent = throw .overflow := if_pos long
  rw [run_forM_cons]
  unfold Writer.handle guardedWriter
  simp only [hreserve]
  rfl

theorem run_label (a : Address) :
    (ExceptT.run ((guardedWriter settings store).handle (.label a))).run {} =
      (.ok (), { taken := (eventText settings store (.label a)).toUTF8 }) := by
  change (ExceptT.run (Output.writeAll (labelPieces settings a)).printing).run {} = _
  rw [Output.apply_printing, Output.writes_writeAll]
  simp only [Sink.receive]
  rw [show (∅ : ByteArray) = ByteArray.empty from rfl, ByteArray.empty_append]
  rfl

/-- The visit ends at its first instruction. -/
theorem run_visitEach_overflow (long : maxTextLength < settings.indent) (i : Instruction)
    (is : List Instruction) :
    (store.visitEach (guardedWriter settings store) (i :: is)).run none =
      ((labelLine settings store i.address).toUTF8, .error .overflow) := by
  rw [visitEach_eq_forM, eventsOf_cons, eventsAt]
  unfold labelLine Printing.run
  cases store.isTarget i.address with
  | false =>
    rw [if_neg Bool.false_ne_true, List.singleton_append, run_forM_overflow long]
    rfl
  | true =>
    rw [if_pos rfl, List.cons_append, List.singleton_append, run_forM_cons, run_label]
    simp only [run_forM_overflow long]
    rfl

/-! ## Listings -/

/-- A listing is printed as it is written. -/
theorem printListing_eq (h : store.Sound) {range : Option Range} {written : Output Unit}
    (hwritten : writeListing settings store range = .ok written)
    (fits : ¬ Overflows settings (shownAddresses range store.addresses)) :
    printListing settings store range = .ok written.printing := by
  rw [writeListing_eq_map] at hwritten
  obtain ⟨is, hs⟩ := exists_map_eq_ok_iff.mp ⟨written, hwritten⟩
  rw [hs] at hwritten
  rw [printListing_eq_map, hs]
  cases hwritten
  cases hformat : settings.format with
  | json => rfl
  | text =>
    cases is with
    | nil => rfl
    | cons i is =>
      have hshown := addresses_of_selected h hs
      have hindent : settings.indent ≤ maxTextLength := Nat.le_of_not_lt fun hlong =>
        fits ⟨hformat, hlong, by simp [← hshown]⟩
      exact congrArg Except.ok (visitEach_guarded hindent (i :: is))

/-- The program ends with the label of the first instruction that is shown. -/
theorem printListing_overflow (h : store.Sound) {range : Option Range} {written : Output Unit}
    (hwritten : writeListing settings store range = .ok written)
    (overflows : Overflows settings (shownAddresses range store.addresses)) :
    ∃ a rest printing, shownAddresses range store.addresses = a :: rest ∧
      printListing settings store range = .ok printing ∧
      printing.run none = ((labelLine settings store a).toUTF8, .error .overflow) := by
  rw [writeListing_eq_map] at hwritten
  obtain ⟨is, hs⟩ := exists_map_eq_ok_iff.mp ⟨written, hwritten⟩
  have hshown := addresses_of_selected h hs
  cases is with
  | nil => exact absurd hshown.symm overflows.nonempty
  | cons i is =>
    rw [List.map_cons] at hshown
    refine ⟨i.address, is.map (·.address), _, hshown.symm, ?_,
      run_visitEach_overflow overflows.long i is⟩
    rw [printListing_eq_map, hs, overflows.text]
    rfl

end Bytecode.Render
