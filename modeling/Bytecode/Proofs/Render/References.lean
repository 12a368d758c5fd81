import Bytecode.Proofs.Address.Typed
import Bytecode.Proofs.Render.Labels

/-!
# References that are typed back

What the text shows for an address can be typed where an address is asked for: a number always, a
label exactly if its stem is `Typable`. A range that starts at a typed label shows the text from the
line of that label on (`rangeBytes_from_label`), for a label stands right before its instruction.

Main statement: `reference_typed_back`, for every store that a history of offers ends in.
-/

namespace Bytecode.Render

open Store

variable {s : Store}

/-- The events of a store, cut at the label of an address: the range from that address on shows the
second part. -/
theorem rangeBytes_from_label (settings : Settings) (h : s.Sound) {a : Address}
    (hstored : s.contains a = true) (htarget : s.isTarget a = true) :
    ∃ before after, s.events = before ++ .label a :: after ∧ .label a ∉ before ∧
      rangeBytes settings s (a, Address.last) =
        .ok (eventsBytes settings s (.label a :: after)) := by
  obtain ⟨p, i, hp, rfl⟩ := h.exists_position hstored
  obtain ⟨low, high, hlist⟩ := List.append_of_mem (List.mem_of_getElem? hp)
  have hcons : s.eventsOf (i :: high) = .label i.address :: .instruction i :: s.eventsOf high := by
    rw [eventsOf_cons, eventsAt, if_pos htarget]
    rfl
  refine ⟨s.eventsOf low, .instruction i :: s.eventsOf high, ?_, fun hlabel => ?_, ?_⟩
  · rw [events, hlist, eventsOf_append, hcons]
  · -- The labels before the cut are addresses below this one.
    rw [label_mem_iff, labels_eventsOf, List.mem_filter] at hlabel
    have hasc := h.ascending
    rw [addresses, hlist, List.map_append, List.map_cons] at hasc
    have hlt := (List.pairwise_append.mp hasc).2.2 _ hlabel.1 _ List.mem_cons_self
    exact UInt32.lt_irrefl _ hlt
  · rw [rangeBytes_eq settings h hstored, h.between_last hlist, hcons]

/-- **What is shown for an address is read back as that address.** An argument that names the address
shows this in the line of its instruction. Where the address is stored and a target, it is the label;
it is read back if its stem can be typed, and refused if not. Everywhere else it is the number, which
is read back. A range from a label that was read back up to the last address is the end of the whole
text that begins with the line of the label. -/
theorem reference_typed_back (os : List Offer) (settings : Settings) (a : Address) :
    let s := empty.run os
    let shown := referenceText settings s a
    let read := Address.ofText? shown settings.labelStem
    (∀ (i : Instruction) p, i.RefersAt p a → (argumentTexts settings s i)[p]? = some shown ∧
      ((textWriter settings s).instruction i).Writes
        (lineOf settings i (argumentTexts settings s i)).toUTF8) ∧
    (¬ (s.contains a = true ∧ s.isTarget a = true) → shown = a.raw ∧ read = some a) ∧
    (s.contains a = true ∧ s.isTarget a = true →
      shown = labelText settings a ∧
      (read = some a ↔ Address.Typable settings.labelStem) ∧
      (¬ Address.Typable settings.labelStem → read = none) ∧
      (Address.Typable settings.labelStem → ∃ before after,
        s.events = before ++ .label a :: after ∧ .label a ∉ before ∧
        eventText settings s (.label a) = shown ++ ":\n" ∧
        wholeBytes settings s =
          eventsBytes settings s before ++ eventsBytes settings s (.label a :: after) ∧
        read.map (fun start => rangeBytes settings s (start, Address.last)) =
          some (.ok (eventsBytes settings s (.label a :: after))))) := by
  intro s shown read
  have h : s.Sound := sound_run os
  refine ⟨fun i p hp => ⟨argumentTexts_refersAt settings s hp, writes_line settings s i⟩,
    fun hnot => ?_, fun hlabel => ?_⟩
  · have hraw : shown = a.raw := by
      rw [← Bool.and_eq_true] at hnot
      exact if_neg hnot
    have hread := Address.ofText?_raw a settings.labelStem
    rw [← hraw] at hread
    exact ⟨hraw, hread⟩
  · have hshown : shown = labelText settings a :=
      (referenceText_eq_label_iff settings s a).mpr hlabel
    have hread : Address.Typable settings.labelStem → read = some a := by
      intro hstem
      have hlabel := Address.ofText?_label ⟨settings.labelStem, a⟩ hstem
      rwa [← labelText, ← hshown] at hlabel
    have hnone : ¬ Address.Typable settings.labelStem → read = none := by
      intro hstem
      have hlabel := Address.ofText?_label_eq_none ⟨settings.labelStem, a⟩ hstem
      rwa [← labelText, ← hshown] at hlabel
    refine ⟨hshown, ⟨fun hsome => ?_, hread⟩, hnone, fun hstem => ?_⟩
    · refine Classical.byContradiction fun hstem => ?_
      rw [hnone hstem] at hsome
      cases hsome
    · obtain ⟨before, after, hevents, hbefore, hrange⟩ :=
        rangeBytes_from_label settings h hlabel.1 hlabel.2
      refine ⟨before, after, hevents, hbefore, ?_, ?_, ?_⟩
      · rw [hshown, eventText_label]
      · rw [wholeBytes_eq, hevents, eventsBytes_append]
      · rw [hread hstem, Option.map_some, hrange]

end Bytecode.Render
