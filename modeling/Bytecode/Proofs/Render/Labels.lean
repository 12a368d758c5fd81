import Bytecode.Proofs.Address.Written
import Bytecode.Proofs.Render.Comments
import Bytecode.Proofs.Store.Contract
import Mathlib.Data.List.Nodup

/-!
# Labels that are shown and labels that are declared

A label is declared by a walk over the list, which asks for each instruction whether it is a target.
It is shown by the text of an operand, which asks for an address whether it is stored and a target.
Both come to the same because the labels of a visit are the targets among the stored addresses
(`labels_events`), each once and in order.

* `Event.label?`: the label that a call declares;
* `Instruction.RefersAt`: the arguments of an instruction that name an address;
* `LabelsAgree`: how the labels in a text fit together, which is so for every visit
  (`visit_labelsAgree`).
-/

namespace Bytecode

/-- The address whose label a call declares. -/
def Event.label? : Event → Option Address
  | .label a => some a
  | .instruction _ => none

/-- Argument number `p` of the instruction names the address `a`: as an operand, or as the target of
a branch, which comes after the operands. -/
def Instruction.RefersAt (i : Instruction) (p : Nat) (a : Address) : Prop :=
  i.operands[p]? = some (.reference a) ∨ (p = i.operands.length ∧ i.target? = some a)

/-! ## The labels of a visit -/

namespace Store

theorem count_label_eq (es : List Event) (a : Address) :
    es.count (.label a) = (es.filterMap Event.label?).count a := by
  induction es with
  | nil => rfl
  | cons e es ih =>
    cases e with
    | label b => simp [List.count_cons, ih, Event.label?]
    | instruction i => simp [ih, List.filterMap_cons, Event.label?]

theorem label_mem_iff (es : List Event) (a : Address) :
    .label a ∈ es ↔ a ∈ es.filterMap Event.label? := by
  rw [← List.count_pos_iff, ← List.count_pos_iff, count_label_eq]

variable {s : Store}

theorem labels_eventsOf (s : Store) (is : List Instruction) :
    (s.eventsOf is).filterMap Event.label? = (is.map (·.address)).filter s.isTarget := by
  induction is with
  | nil => rfl
  | cons i is ih =>
    rw [eventsOf_cons, List.filterMap_append, ih, eventsAt, List.map_cons, List.filter_cons]
    split <;> rfl

/-- The labels of a visit are the targets among the stored addresses, in order. -/
theorem labels_events (s : Store) :
    s.events.filterMap Event.label? = s.addresses.filter s.isTarget :=
  s.labels_eventsOf s.toList

theorem Sound.pairwise_labels (h : s.Sound) :
    (s.events.filterMap Event.label?).Pairwise (· < ·) := by
  rw [labels_events]
  exact h.ascending.filter _

theorem Sound.label_mem_events_iff (h : s.Sound) (a : Address) :
    .label a ∈ s.events ↔ s.contains a = true ∧ s.isTarget a = true := by
  rw [label_mem_iff, labels_events, List.mem_filter, h.contains_iff]

theorem instruction_mem_events_iff (s : Store) (i : Instruction) :
    .instruction i ∈ s.events ↔ i ∈ s.toList :=
  s.instruction_mem_eventsOf_iff s.toList i

/-- A label is declared right before the instruction that it names. -/
theorem Sound.label_before (h : s.Sound) {a : Address} (ha : .label a ∈ s.events) :
    ∃ before after i, s.get? a = some i ∧
      s.events = before ++ .label a :: .instruction i :: after := by
  obtain ⟨hstored, htarget⟩ := (h.label_mem_events_iff a).mp ha
  rw [h.contains_eq_isSome, Option.isSome_iff_exists] at hstored
  obtain ⟨i, hi⟩ := hstored
  obtain ⟨hmem, rfl⟩ := h.get?_eq_some_iff.mp hi
  -- The events are cut where the list is, and the label is the first of those at `i`.
  obtain ⟨low, high, hlist⟩ := List.append_of_mem hmem
  refine ⟨s.eventsOf low, s.eventsOf high, i, hi, ?_⟩
  rw [events, hlist, eventsOf_append, eventsOf_cons, eventsAt, if_pos htarget]
  rfl

end Store

namespace Render

open Store

/-! ## The labels of a text -/

/-- The text of the label of an address. -/
def labelText (settings : Settings) (a : Address) : String := Label.text ⟨settings.labelStem, a⟩

/-- The line of an instruction that shows these arguments. -/
def lineOf (settings : Settings) (i : Instruction) (arguments : List String) : String :=
  String.join (startPieces settings i) ++ i.opcode ++ String.join (separated arguments) ++
    commentText i.comment ++ "\n"

/-- How the labels of a text fit together that these calls write. -/
structure LabelsAgree (settings : Settings) (s : Store) (calls : List Event) : Prop where
  /-- The text is the one that these calls write. -/
  written : wholeBytes settings s = eventsBytes settings s calls
  /-- The line that is written for an instruction shows its arguments. -/
  lines : ∀ i, .instruction i ∈ calls → ((textWriter settings s).instruction i).Writes
    (lineOf settings i (argumentTexts settings s i)).toUTF8
  /-- The line that is written for a label declares it. -/
  labelLines : ∀ a, .label a ∈ calls → ((textWriter settings s).label a).Writes
    (labelText settings a ++ ":\n").toUTF8
  /-- An argument that names an address shows its label exactly if the label is declared, and the
  number of the address otherwise. -/
  shown : ∀ i, .instruction i ∈ calls → ∀ p a, i.RefersAt p a →
    ((argumentTexts settings s i)[p]? = some (labelText settings a) ↔ .label a ∈ calls) ∧
    (.label a ∉ calls → (argumentTexts settings s i)[p]? = some a.raw)
  /-- A label is declared once, right before the stored instruction that it names. -/
  declared : ∀ a, .label a ∈ calls → calls.count (.label a) = 1 ∧
    ∃ before after i, s.get? a = some i ∧
      calls = before ++ .label a :: .instruction i :: after
  /-- Some branch shows the label as its target, after its operands. -/
  used : ∀ a, .label a ∈ calls → ∃ b, .instruction b ∈ calls ∧ b.target? = some a ∧
    (argumentTexts settings s b)[b.operands.length]? = some (labelText settings a)
  /-- No two of the declared labels read alike. -/
  distinct : ((calls.filterMap Event.label?).map (labelText settings)).Nodup

variable {s : Store}

/-- The arguments are shown between the opcode and the comment. -/
theorem eventText_instruction (settings : Settings) (s : Store) (i : Instruction) :
    eventText settings s (.instruction i) =
      lineOf settings i (argumentTexts settings s i) := by
  rw [eventText_eq]
  simp only [lineStem, bodyPieces, lineOf, String.join_append, String.join_cons,
    String.append_assoc, Event.comment?]

theorem writes_line (settings : Settings) (s : Store) (i : Instruction) :
    ((textWriter settings s).instruction i).Writes
      (lineOf settings i (argumentTexts settings s i)).toUTF8 := by
  have hwrites := writes_event settings s (.instruction i)
  rwa [eventText_instruction] at hwrites

theorem eventText_label (settings : Settings) (s : Store) (a : Address) :
    eventText settings s (.label a) = labelText settings a ++ ":\n" := by
  simp [eventText, eventPieces, labelPieces, labelText]

theorem argumentTexts_refersAt (settings : Settings) (s : Store) {i : Instruction} {p : Nat}
    {a : Address} (h : i.RefersAt p a) :
    (argumentTexts settings s i)[p]? = some (referenceText settings s a) := by
  unfold argumentTexts
  rcases h with hop | ⟨rfl, htarget⟩
  · have hlt : p < i.operands.length := (List.getElem?_eq_some_iff.mp hop).1
    rw [List.getElem?_append_left (by simpa using hlt), List.getElem?_map, hop]
    rfl
  · rw [List.getElem?_append_right (by simp), htarget]
    simp

theorem referenceText_eq_label_iff (settings : Settings) (s : Store) (a : Address) :
    referenceText settings s a = labelText settings a ↔
      s.contains a = true ∧ s.isTarget a = true := by
  unfold referenceText labelText
  rw [← Bool.and_eq_true]
  cases s.contains a && s.isTarget a with
  | true => simp
  | false => simpa using (Label.text_ne_raw _ a).symm

theorem events_labelsAgree (settings : Settings) (h : s.Sound) :
    LabelsAgree settings s s.events where
  written := wholeBytes_eq settings s
  lines i _ := writes_line settings s i
  labelLines a _ := by
    have hwrites := writes_event settings s (.label a)
    rwa [eventText_label] at hwrites
  shown i hi p a hp := by
    rw [argumentTexts_refersAt settings s hp, h.label_mem_events_iff, Option.some.injEq]
    refine ⟨referenceText_eq_label_iff settings s a, fun hnot => ?_⟩
    rw [← Bool.and_eq_true] at hnot
    rw [referenceText, if_neg hnot]
  declared a ha := by
    have hnodup : (s.events.filterMap Event.label?).Nodup :=
      h.pairwise_labels.imp fun hlt => UInt32.ne_of_lt hlt
    refine ⟨?_, h.label_before ha⟩
    rw [count_label_eq]
    exact List.count_eq_one_of_mem hnodup ((label_mem_iff _ _).mp ha)
  used a ha := by
    have hdeclared := (h.label_mem_events_iff a).mp ha
    obtain ⟨b, hb, htarget⟩ := (h.targets a).mp hdeclared.2
    refine ⟨b, (s.instruction_mem_events_iff b).mpr hb, htarget, ?_⟩
    rw [argumentTexts_refersAt settings s (Or.inr ⟨rfl, htarget⟩),
      (referenceText_eq_label_iff settings s a).mpr hdeclared]
  distinct := by
    refine List.Pairwise.map _ (fun a b hlt heq => ?_) h.pairwise_labels
    exact UInt32.ne_of_lt hlt (Label.address_eq_of_text heq)

/-! ## The calls on the writer of text -/

/-- An endless sink takes every call. -/
theorem handle_endless (settings : Settings) (s : Store) (e : Event) (sink : Sink)
    (endless : sink.room = none) :
    ∃ next, (ExceptT.run ((textWriter settings s).handle e)).run sink = (.ok (), next) ∧
      next.room = none := by
  refine ⟨{ sink with taken := sink.taken ++ (eventText settings s e).toUTF8 }, ?_, endless⟩
  rw [writes_event settings s e sink, Sink.receive, endless]

/-- So a visit makes all its calls. -/
theorem calls_watch_visitEach (settings : Settings) (s : Store) (is : List Instruction) :
    (watch {} (s.visitEach (textWriter settings s).watched is)).calls = s.eventsOf is := by
  rw [visitEach_eq_forM]
  have hvisit := (watch_forM (textWriter settings s) (s.eventsOf is) {}).1
  exact hvisit.calls_eq (fun sink : Sink => sink.room = none)
    (fun e sink => handle_endless settings s e sink) rfl

/-- **The labels that are shown are those that are declared.** When the whole of a store is written,
an argument that names an address shows its label exactly if the visit declares it. Each declared
label is declared once, right before its instruction, and is shown as the target of some branch;
every other address is shown as `$` and eight upper-case digits, which no label reads like. The
arguments are those in the line that the call for the instruction writes. -/
theorem visit_labelsAgree (os : List Offer) (settings : Settings) :
    let s := empty.run os
    LabelsAgree settings s (watch {} (s.visit (textWriter settings s).watched)).calls ∧
    (∀ a b : Address, labelText settings a ≠ b.raw) ∧
    ∀ a : Address, ∃ ds : List Char, a.raw = "$" ++ String.ofList ds ∧ ds.length = 8 ∧
      (∀ d ∈ ds, d ∈ Numeral.upperAlphabet) ∧ Numeral.unsigned? 16 ds = some a.toNat := by
  intro s
  have h : s.Sound := sound_run os
  rw [visit, calls_watch_visitEach]
  exact ⟨events_labelsAgree settings h, fun a b => Label.text_ne_raw _ b, Address.raw_spec⟩

end Render

end Bytecode
