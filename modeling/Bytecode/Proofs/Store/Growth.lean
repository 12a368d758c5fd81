import Bytecode.Proofs.Store.Visits

/-!
# What an addition changes

A store only grows at its end. An instruction that is taken comes after all that is listed and
leaves the answers about every other address as they were, up to two exceptions: the instruction
that was the last one has a neighbour now, and the target of a new branch is a target from now on.

The second one shows in visits. If the target is listed already and no branch went there before, the
visit gets one label in its middle, right before that instruction; nothing else changes in it but
its end.

* `Grown`: all of it together, for a store and the store after an addition;
* `Sound.grown_append`: appending above all stored addresses grows a store so;
* `events_append_of_newlyLabelled`, `events_append_of_no_new_label`: the calls of the longer visit.
-/

namespace Bytecode.Store

/-- An instruction makes `t` a target of stored instructions for the first time: it is a branch back
to `t`, which is stored and was no target. -/
def NewlyLabelled (s : Store) (i : Instruction) (t : Address) : Prop :=
  i.target? = some t ∧ t < i.address ∧ s.contains t = true ∧ s.isTarget t = false

/-- The calls for the instruction that is listed last: its own, after the one of its label if some
branch goes there. -/
def closingCalls (s : Store) (i : Instruction) : List Event :=
  (if s.branches.any fun b => decide (b.target? = some i.address) then [.label i.address]
    else []) ++ [.instruction i]

/-- The store `s'` is `s` grown by the instruction `i`. -/
structure Grown (s s' : Store) (i : Instruction) : Prop where
  listed : s'.toList = s.toList ++ [i]
  /-- Look-ups of other addresses, and of what comes before them. -/
  others : ∀ b, b ≠ i.address →
    s'.contains b = s.contains b ∧ s'.get? b = s.get? b ∧ s'.prev? b = s.prev? b
  /-- Only the instruction that was the last one has another neighbour than before. -/
  next : ∀ b, b ≠ i.address →
    s'.next? b = if s.last?.map (·.address) = some b then some i else s.next? b
  /-- Slices that end below the new instruction, refused ones too. -/
  slices : ∀ start stop, start ≠ i.address → stop < i.address →
    s'.slice start stop = s.slice start stop
  targets : ∀ t, i.target? ≠ some t → s'.isTarget t = s.isTarget t
  branches : s'.branches = s.branches ++ if i.isBranch then [i] else []
  /-- A new label stands right before the instruction that it names. -/
  labelled : ∀ t, s.NewlyLabelled i t → ∃ before after j, s.get? t = some j ∧
    s.visitCalls = before ++ .instruction j :: after ∧
    s'.visitCalls = before ++ .label t :: .instruction j :: after ++ s'.closingCalls i
  /-- Without a new label the calls of the visit go on where they ended. -/
  continued : (¬ ∃ t, s.NewlyLabelled i t) → s'.visitCalls = s.visitCalls ++ s'.closingCalls i

variable {s : Store} {i : Instruction}

/-! ## Look-ups -/

/-- An address is listed at some position, or not at all. -/
theorem listed_or_not (s : Store) (a : Address) :
    (∃ (p : Nat) (j : Instruction), s.toList[p]? = some j ∧ j.address = a) ∨
      ∀ j ∈ s.toList, j.address ≠ a := by
  by_cases h : ∃ j ∈ s.toList, j.address = a
  · obtain ⟨j, hj, ha⟩ := h
    obtain ⟨p, hp⟩ := List.mem_iff_getElem?.mp hj
    exact Or.inl ⟨p, j, hp, ha⟩
  · exact Or.inr fun j hj ha => h ⟨j, hj, ha⟩

/-- What is listed keeps its position when an instruction is appended. -/
theorem getElem?_toList_append {p : Nat} {j : Instruction} (hp : s.toList[p]? = some j) :
    (s.append i).toList[p]? = some j := by
  have hlt : p < s.toList.length := (List.getElem?_eq_some_iff.mp hp).1
  rw [toList_append, List.getElem?_append_left hlt, hp]

theorem unlisted_append {b : Address} (hb : b ≠ i.address) (h : ∀ j ∈ s.toList, j.address ≠ b) :
    ∀ j ∈ (s.append i).toList, j.address ≠ b := by
  intro j hj
  rw [toList_append] at hj
  rcases List.mem_append.mp hj with hj | hj
  · exact h j hj
  · rw [List.mem_singleton.mp hj]
    exact Ne.symm hb

theorem Sound.others_append (h : s.Sound) (above : ∀ a ∈ s.addresses, a < i.address) {b : Address}
    (hb : b ≠ i.address) :
    (s.append i).contains b = s.contains b ∧ (s.append i).get? b = s.get? b ∧
      (s.append i).prev? b = s.prev? b := by
  have h' := h.append above
  rw [h.contains_eq_isSome, h'.contains_eq_isSome]
  rcases s.listed_or_not b with ⟨p, j, hp, rfl⟩ | hnot
  · have hp' := getElem?_toList_append (i := i) hp
    rw [h.get?_eq hp, h'.get?_eq hp', h.prev?_eq hp, h'.prev?_eq hp']
    refine ⟨rfl, rfl, ?_⟩
    have hlt : p - 1 < s.toList.length := by
      have := (List.getElem?_eq_some_iff.mp hp).1
      omega
    rw [toList_append, List.getElem?_append_left hlt]
  · have hold := h.coherent.unlisted b hnot
    have hnew := h'.coherent.unlisted b (unlisted_append hb hnot)
    rw [hold.1, hnew.1, hold.2.2.1, hnew.2.2.1]
    exact ⟨rfl, rfl, rfl⟩

/-- The position of the last address is the last one. -/
theorem Sound.last?_address_iff (h : s.Sound) {p : Nat} {j : Instruction}
    (hp : s.toList[p]? = some j) :
    s.last?.map (·.address) = some j.address ↔ p + 1 = s.size := by
  have hlt := (List.getElem?_eq_some_iff.mp hp).1
  have hpos := (h.positions j.address p).mp (h.position_of_listed hp)
  rw [← getLast?_addresses, List.getLast?_eq_getElem?, length_addresses]
  rw [length_toList] at hlt
  constructor
  · intro hlast
    -- Both positions are the one that the address is mapped to.
    have hlast' := (h.positions j.address (s.size - 1)).mpr hlast
    rw [(h.positions j.address p).mpr hpos, Option.some.injEq] at hlast'
    omega
  · intro hp'
    rw [← hp', Nat.add_sub_cancel]
    exact hpos

theorem Sound.next?_append (h : s.Sound) (above : ∀ a ∈ s.addresses, a < i.address) {b : Address}
    (hb : b ≠ i.address) :
    (s.append i).next? b = if s.last?.map (·.address) = some b then some i else s.next? b := by
  have h' := h.append above
  rcases s.listed_or_not b with ⟨p, j, hp, rfl⟩ | hnot
  · have hlt := (List.getElem?_eq_some_iff.mp hp).1
    rw [h'.next?_eq (getElem?_toList_append hp), h.next?_eq hp, toList_append]
    by_cases hlast : p + 1 = s.size
    · rw [if_pos ((h.last?_address_iff hp).mpr hlast), hlast, ← length_toList,
        List.getElem?_concat_length]
    · rw [if_neg fun hl => hlast ((h.last?_address_iff hp).mp hl), List.getElem?_append_left]
      rw [length_toList] at hlt ⊢
      omega
  · have hold := h.coherent.unlisted b hnot
    have hnew := h'.coherent.unlisted b (unlisted_append hb hnot)
    rw [hold.2.1, hnew.2.1, if_neg]
    intro hlast
    rw [← getLast?_addresses] at hlast
    have hmem : b ∈ s.addresses := List.mem_of_getLast? hlast
    obtain ⟨j, hj, hjb⟩ := List.mem_map.mp hmem
    exact hnot j hj hjb

theorem Sound.slice_append (h : s.Sound) (above : ∀ a ∈ s.addresses, a < i.address)
    {start stop : Address} (hstart : start ≠ i.address) (hstop : stop < i.address) :
    (s.append i).slice start stop = s.slice start stop := by
  have h' := h.append above
  have hcontains := (h.others_append above hstart).1
  cases hc : s.contains start with
  | true =>
    rw [hc] at hcontains
    have hbeyond : ¬ i.address ≤ stop := UInt32.not_le.mpr hstop
    rw [h.slice_eq_between hc, h'.slice_eq_between hcontains, between, between, toList_append,
      List.filter_append]
    simp [hbeyond]
  | false =>
    rw [hc] at hcontains
    rw [h.slice_eq_error hc, h'.slice_eq_error hcontains]

/-! ## Targets and branches -/

theorem isTarget_append_of_ne {t : Address} (ht : i.target? ≠ some t) :
    (s.append i).isTarget t = s.isTarget t := by
  rw [Bool.eq_iff_iff, isTarget_append]
  simp [ht]

theorem Sound.branches_append (h : s.Sound) (above : ∀ a ∈ s.addresses, a < i.address) :
    (s.append i).branches = s.branches ++ if i.isBranch then [i] else [] := by
  rw [h.branches_eq_filter, (h.append above).branches_eq_filter, toList_append, List.filter_append,
    List.filter_cons, List.filter_nil]

theorem Sound.isTarget_eq_any_branches (h : s.Sound) (a : Address) :
    s.isTarget a = s.branches.any fun b => decide (b.target? = some a) := by
  rw [Bool.eq_iff_iff, h.targets, h.branches_eq_filter, List.any_eq_true]
  constructor
  · rintro ⟨b, hb, ht⟩
    have hbranch : b.isBranch = true := by rw [Instruction.isBranch, ht]; rfl
    exact ⟨b, List.mem_filter.mpr ⟨hb, hbranch⟩, decide_eq_true ht⟩
  · rintro ⟨b, hb, ht⟩
    exact ⟨b, (List.mem_filter.mp hb).1, of_decide_eq_true ht⟩

/-! ## Visits -/

theorem Sound.eventsAt_eq_closingCalls (h : s.Sound) (i : Instruction) :
    s.eventsAt i = s.closingCalls i := by
  rw [eventsAt, closingCalls, ← h.isTarget_eq_any_branches]
  split <;> rfl

/-- Instructions to which no new branch goes, or some branch went before, are called as before. -/
theorem eventsOf_append_of_old {is : List Instruction}
    (old : ∀ j ∈ is, i.target? = some j.address → s.isTarget j.address = true) :
    (s.append i).eventsOf is = s.eventsOf is := by
  induction is with
  | nil => rfl
  | cons j is ih =>
    have hj : (s.append i).isTarget j.address = s.isTarget j.address := by
      rw [Bool.eq_iff_iff, isTarget_append]
      exact ⟨fun ht => ht.elim (old j List.mem_cons_self) id, Or.inr⟩
    rw [eventsOf_cons, eventsOf_cons, eventsAt, eventsAt, hj,
      ih fun k hk => old k (List.mem_cons_of_mem _ hk)]

theorem Sound.events_append_of_no_new_label (h : s.Sound) (above : ∀ a ∈ s.addresses, a < i.address)
    (hnone : ¬ ∃ t, s.NewlyLabelled i t) :
    (s.append i).events = s.events ++ (s.append i).closingCalls i := by
  have hold : (s.append i).eventsOf s.toList = s.eventsOf s.toList := by
    refine eventsOf_append_of_old fun j hj ht => ?_
    have hmem : j.address ∈ s.addresses := List.mem_map_of_mem hj
    cases htarget : s.isTarget j.address with
    | true => rfl
    | false =>
      exact absurd ⟨j.address, ht, above _ hmem, h.contains_of_mem hj, htarget⟩ hnone
  rw [events, toList_append, eventsOf_append, hold, eventsOf_cons,
    (h.append above).eventsAt_eq_closingCalls]
  exact congrArg (_ ++ ·) (List.append_nil _)

theorem Sound.events_append_of_newlyLabelled (h : s.Sound)
    (above : ∀ a ∈ s.addresses, a < i.address) {t : Address} (hnew : s.NewlyLabelled i t) :
    ∃ before after j, s.get? t = some j ∧
      s.events = before ++ .instruction j :: after ∧
      (s.append i).events =
        before ++ .label t :: .instruction j :: after ++ (s.append i).closingCalls i := by
  obtain ⟨ht, _, hstored, htarget⟩ := hnew
  rw [h.contains_eq_isSome, Option.isSome_iff_exists] at hstored
  obtain ⟨j, hj⟩ := hstored
  obtain ⟨hmem, rfl⟩ := h.get?_eq_some_iff.mp hj
  obtain ⟨low, high, hlist⟩ := List.append_of_mem hmem
  -- No other listed instruction has the address of `j`, so all others are called as before.
  have hasc := h.ascending
  rw [addresses, hlist, List.map_append, List.map_cons] at hasc
  obtain ⟨_, hhigh, hlow⟩ := List.pairwise_append.mp hasc
  have hother : ∀ k : Instruction, k.address ≠ j.address →
      i.target? = some k.address → s.isTarget k.address = true := by
    intro k hk hkt
    rw [ht, Option.some.injEq] at hkt
    exact absurd hkt.symm hk
  have hlow' : (s.append i).eventsOf low = s.eventsOf low := by
    refine eventsOf_append_of_old fun k hk => hother k (UInt32.ne_of_lt ?_)
    exact hlow _ (List.mem_map_of_mem hk) _ List.mem_cons_self
  have hhigh' : (s.append i).eventsOf high = s.eventsOf high := by
    refine eventsOf_append_of_old fun k hk => hother k (Ne.symm (UInt32.ne_of_lt ?_))
    exact (List.pairwise_cons.mp hhigh).1 _ (List.mem_map_of_mem hk)
  have hnow : (s.append i).isTarget j.address = true := (isTarget_append s i _).mpr (Or.inl ht)
  refine ⟨s.eventsOf low, s.eventsOf high, j, hj, ?_, ?_⟩
  · rw [events, hlist, eventsOf_append, eventsOf_cons, eventsAt, htarget]
    rfl
  · rw [events, toList_append, hlist, eventsOf_append, eventsOf_append, eventsOf_cons, hlow',
      hhigh', eventsAt, if_pos hnow, eventsOf_cons, (h.append above).eventsAt_eq_closingCalls]
    simp [eventsOf]

/-! ## Growth -/

theorem Sound.grown_append (h : s.Sound) (above : ∀ a ∈ s.addresses, a < i.address) :
    Grown s (s.append i) i where
  listed := toList_append s i
  others _ := h.others_append above
  next _ := h.next?_append above
  slices _ _ := h.slice_append above
  targets _ := isTarget_append_of_ne
  branches := h.branches_append above
  labelled t ht := by
    rw [visitCalls_eq, visitCalls_eq]
    exact h.events_append_of_newlyLabelled above ht
  continued hnone := by
    rw [visitCalls_eq, visitCalls_eq]
    exact h.events_append_of_no_new_label above hnone

/-- **Adding only appends, except for one label.** Whatever came before, an instruction that is
taken grows the store at its end, and its visit by at most one label before that. -/
theorem grown_of_add (os : List Offer) (i : Instruction) (s' : Store)
    (hadd : (empty.run os).add i = .ok s') : Grown (empty.run os) s' i := by
  obtain ⟨rfl, above⟩ := (sound_run os).add_eq_ok hadd
  exact (sound_run os).grown_append above

/-- A branch back to a stored address that no branch went to before, after a refused one. -/
theorem grown_of_add_branch_back :
    let s := empty.run
      [⟨⟨2, "push", [.integer 2], .plain, none⟩, []⟩, ⟨⟨4, "jmp", [], .branch 8, none⟩, ["a"]⟩,
        ⟨⟨3, "late", [], .branch 2, none⟩, []⟩]
    let i : Instruction := ⟨8, "loop", [], .branch 2, none⟩
    ∃ s', s.add i = .ok s' ∧ s.NewlyLabelled i 2 ∧ Grown s s' i := by
  intro s i
  have hadd : s.add i = .ok (s.append i) := by rfl
  exact ⟨s.append i, hadd, ⟨rfl, by decide, by decide +kernel, by decide +kernel⟩,
    grown_of_add _ i _ hadd⟩

end Bytecode.Store
