import Bytecode.Store.Run
import Std.Data.TreeMap.Lemmas
import Std.Data.TreeSet.Lemmas

/-!
# The invariant of the store

A store keeps one list of records and three indexes beside it. `Sound` ties the indexes to the list:

* `ascending`: addresses rise strictly along the list;
* `positions`: an address is mapped to a position exactly if the list has it there;
* `branches`: the branch positions are those of the listed branches, in order;
* `targets`: an address is a target exactly if a listed branch goes there.

`sound_run` says that every history of offers, taken or refused, keeps a sound store sound.
Comments need no case of their own: a record that was just added and then commented on is the same
store as one to which the commented record was added (`setComment_append`, `accept_eq`). What an
offer can do at all is said once, in `Sound.add_cases`.
-/

namespace Bytecode

/-- The record that an offer leaves once it is taken: of its comments the last one stays. -/
def Offer.record (o : Offer) : Instruction :=
  match o.comments.getLast? with
  | some text => o.instruction.withComment text
  | none => o.instruction

namespace Store

/-- The stored addresses, in the order of the list. -/
def addresses (s : Store) : List Address := s.toList.map (·.address)

structure Sound (s : Store) : Prop where
  ascending : s.addresses.Pairwise (· < ·)
  positions : ∀ (a : Address) (p : Nat), s.positions[a]? = some p ↔ s.addresses[p]? = some a
  branches : s.branchPositions.toList =
    (List.range s.size).filter fun p => s.toList[p]?.any Instruction.isBranch
  targets : ∀ t, s.isTarget t = true ↔ ∃ i ∈ s.toList, i.target? = some t

/-! ## Appending -/

@[simp]
theorem toList_append (s : Store) (i : Instruction) : (s.append i).toList = s.toList ++ [i] := by
  simp [toList, append]

@[simp]
theorem addresses_append (s : Store) (i : Instruction) :
    (s.append i).addresses = s.addresses ++ [i.address] := by
  simp [addresses]

theorem length_toList (s : Store) : s.toList.length = s.size := by
  simp [toList, size]

theorem length_addresses (s : Store) : s.addresses.length = s.size := by
  simp [addresses, length_toList]

theorem size_append (s : Store) (i : Instruction) : (s.append i).size = s.size + 1 := by
  simp [size, append]

theorem getElem?_instructions (s : Store) (p : Nat) : s.instructions[p]? = s.toList[p]? := by
  simp [toList]

theorem isTarget_append (s : Store) (i : Instruction) (t : Address) :
    (s.append i).isTarget t = true ↔ i.target? = some t ∨ s.isTarget t = true := by
  unfold isTarget append
  cases h : i.target? with
  | none => simp
  | some u => simp [Std.TreeSet.contains_insert]

theorem sound_empty : empty.Sound where
  ascending := List.Pairwise.nil
  positions a p := by simp [addresses, toList, empty]
  branches := rfl
  targets t := by simp [isTarget, toList, empty]

private theorem getElem?_concat_eq_some {α : Type} {xs : List α} {x a : α} {p : Nat} :
    (xs ++ [x])[p]? = some a ↔ xs[p]? = some a ∨ (p = xs.length ∧ x = a) := by
  rcases Nat.lt_trichotomy p xs.length with hlt | rfl | hgt
  · rw [List.getElem?_append_left hlt]
    constructor
    · exact Or.inl
    · rintro (h | ⟨rfl, -⟩)
      · exact h
      · exact absurd hlt (Nat.lt_irrefl _)
  · simp
  · rw [List.getElem?_eq_none (by simp; omega), List.getElem?_eq_none (Nat.le_of_lt hgt)]
    simp only [reduceCtorEq, false_or, false_iff, not_and]
    omega

/-- Appending above all stored addresses keeps the invariant. -/
theorem Sound.append {s : Store} (h : s.Sound) {i : Instruction}
    (above : ∀ a ∈ s.addresses, a < i.address) : (s.append i).Sound where
  ascending := by
    rw [addresses_append]
    exact List.pairwise_append.mpr
      ⟨h.ascending, List.pairwise_singleton _ _, fun a ha b hb => by
        rw [List.mem_singleton.mp hb]; exact above a ha⟩
  positions a p := by
    have hnew : i.address ∉ s.addresses := fun hm => UInt32.lt_irrefl _ (above _ hm)
    rw [addresses_append, getElem?_concat_eq_some, length_addresses, ← h.positions]
    unfold Store.append
    simp only [Std.TreeMap.getElem?_insert, Std.compare_eq_iff_eq]
    by_cases ha : i.address = a
    · subst ha
      have hnone : s.positions[i.address]? ≠ some p := fun hp =>
        hnew (List.mem_of_getElem? ((h.positions _ _).mp hp))
      simp [hnone, eq_comm]
    · simp [ha]
  branches := by
    rw [size_append, List.range_succ, List.filter_append]
    have hold : (List.range s.size).filter
          (fun p => (s.append i).toList[p]?.any Instruction.isBranch) =
        (List.range s.size).filter (fun p => s.toList[p]?.any Instruction.isBranch) := by
      refine List.filter_congr fun p hp => ?_
      rw [toList_append, List.getElem?_append_left]
      rw [length_toList]
      exact List.mem_range.mp hp
    have hlast : (s.append i).toList[s.size]? = some i := by
      simp [← length_toList]
    rw [hold, ← h.branches]
    simp only [List.filter_cons, hlast, Option.any_some, List.filter_nil]
    unfold Store.append
    cases hb : i.isBranch <;> simp
  targets t := by
    rw [isTarget_append, h.targets, toList_append]
    constructor
    · rintro (hi | ⟨j, hj, ht⟩)
      · exact ⟨i, by simp, hi⟩
      · exact ⟨j, by simp [hj], ht⟩
    · rintro ⟨j, hj, ht⟩
      rcases List.mem_append.mp hj with hj | hj
      · exact Or.inr ⟨j, hj, ht⟩
      · rw [List.mem_singleton.mp hj] at ht
        exact Or.inl ht

/-! ## What adding can do -/

theorem Sound.contains_iff {s : Store} (h : s.Sound) (a : Address) :
    s.contains a = true ↔ a ∈ s.addresses := by
  unfold contains
  rw [Std.TreeMap.contains_eq_isSome_getElem?, Option.isSome_iff_exists, List.mem_iff_getElem?]
  exact exists_congr fun p => h.positions a p

theorem last?_eq (s : Store) : s.last? = s.toList.getLast? := by
  simp [last?, toList]

theorem getLast?_addresses (s : Store) : s.addresses.getLast? = s.last?.map (·.address) := by
  rw [addresses, List.getLast?_map, last?_eq]

/-- The last address is the highest. -/
theorem Sound.le_last {s : Store} (h : s.Sound) {last a : Address}
    (hlast : s.addresses.getLast? = some last) (ha : a ∈ s.addresses) : a ≤ last := by
  obtain ⟨front, hfront⟩ := List.getLast?_eq_some_iff.mp hlast
  have hasc := h.ascending
  rw [hfront] at ha hasc
  rcases List.mem_append.mp ha with ha | ha
  · exact UInt32.le_of_lt ((List.pairwise_append.mp hasc).2.2 a ha last (by simp))
  · rw [List.mem_singleton.mp ha]
    exact UInt32.le_refl _

/-- **The three outcomes of an addition.** The address is above all stored ones and the record is
appended, or it is stored already, or it is a new one below the last. -/
theorem Sound.add_cases {s : Store} (h : s.Sound) (i : Instruction) :
    ((∀ a ∈ s.addresses, a < i.address) ∧ s.add i = .ok (s.append i)) ∨
    (i.address ∈ s.addresses ∧ s.add i = .error (.duplicateAddress i.address)) ∨
    (i.address ∉ s.addresses ∧ ∃ last, s.addresses.getLast? = some last ∧ i.address < last ∧
      s.add i = .error (.addressOutOfOrder i.address last)) := by
  by_cases hc : i.address ∈ s.addresses
  · refine Or.inr (Or.inl ⟨hc, ?_⟩)
    simp [add, (h.contains_iff i.address).mpr hc]
  have hc' : s.contains i.address = false := by
    rw [← Bool.not_eq_true, h.contains_iff]; exact hc
  have hlast := s.getLast?_addresses
  cases hl : s.last? with
  | none =>
    rw [hl, Option.map_none, List.getLast?_eq_none_iff] at hlast
    refine Or.inl ⟨by simp [hlast], ?_⟩
    simp [add, hc', hl]
  | some last =>
    rw [hl, Option.map_some] at hlast
    by_cases hlt : i.address < last.address
    · refine Or.inr (Or.inr ⟨hc, last.address, hlast, hlt, ?_⟩)
      simp [add, hc', hl, hlt]
    · refine Or.inl ⟨fun a ha => ?_, by simp [add, hc', hl, hlt]⟩
      -- Below the last address, and equal to no stored one.
      have hle := h.le_last hlast ha
      have hne : a ≠ i.address := fun e => hc (e ▸ ha)
      exact UInt32.lt_of_le_of_ne (UInt32.le_trans hle (UInt32.not_lt.mp hlt)) hne

/-- An instruction above all stored ones is taken. -/
theorem Sound.add_above {s : Store} (h : s.Sound) {i : Instruction}
    (above : ∀ a ∈ s.addresses, a < i.address) : s.add i = .ok (s.append i) := by
  rcases h.add_cases i with ⟨_, e⟩ | ⟨hmem, _⟩ | ⟨_, last, hlast, hlt, _⟩
  · exact e
  · exact absurd (above _ hmem) (UInt32.lt_irrefl _)
  · have hmem : last ∈ s.addresses := List.mem_of_getLast? hlast
    exact absurd (UInt32.lt_trans hlt (above _ hmem)) (UInt32.lt_irrefl _)

theorem Sound.add_eq_ok {s s' : Store} (h : s.Sound) {i : Instruction} (hadd : s.add i = .ok s') :
    s' = s.append i ∧ ∀ a ∈ s.addresses, a < i.address := by
  rcases h.add_cases i with ⟨above, e⟩ | ⟨_, e⟩ | ⟨_, _, _, _, e⟩
  · rw [e] at hadd
    exact ⟨(Except.ok.inj hadd).symm, above⟩
  · rw [e] at hadd; cases hadd
  · rw [e] at hadd; cases hadd

/-! ## Comments on what was just added -/

theorem setComment_append (s : Store) (i : Instruction) (text : String) :
    (s.append i).setComment i.address text = s.append (i.withComment text) := by
  have hpos : (s.append i).positions[i.address]? = some s.size := by
    simp [append]
  have hmod : (s.instructions.push i).modify s.size (·.withComment text) =
      s.instructions.push (i.withComment text) := by
    apply Array.ext'
    rw [Array.toList_modify, Array.toList_push, Array.toList_push,
      List.modify_eq_take_cons_drop (by simp [size])]
    simp [size, List.drop_append]
  unfold setComment
  rw [hpos]
  simp only
  unfold append
  rw [hmod]
  rfl

theorem foldl_setComment_append (s : Store) (i : Instruction) (texts : List String) :
    texts.foldl (fun s text => s.setComment i.address text) (s.append i) =
      s.append (Offer.record ⟨i, texts⟩) := by
  induction texts generalizing i with
  | nil => rfl
  | cons text texts ih =>
    rw [List.foldl_cons, setComment_append]
    have hih := ih (i.withComment text)
    rw [show (i.withComment text).address = i.address from rfl] at hih
    rw [hih]
    congr 1
    cases texts <;> simp [Offer.record, List.getLast?_cons, Instruction.withComment]

/-- Taking an offer appends its record. -/
theorem Sound.accept_eq {s : Store} (h : s.Sound) (o : Offer) :
    s.accept o = (s.add o.instruction).map fun _ => s.append o.record := by
  unfold accept
  cases hadd : s.add o.instruction with
  | error e => rfl
  | ok s' =>
    rw [(h.add_eq_ok hadd).1]
    simp only [Except.map]
    rw [foldl_setComment_append]

theorem address_record (o : Offer) : o.record.address = o.instruction.address := by
  unfold Offer.record
  split <;> rfl

theorem target?_record (o : Offer) : o.record.target? = o.instruction.target? := by
  unfold Offer.record
  split <;> rfl

theorem Sound.accept {s s' : Store} (h : s.Sound) {o : Offer} (hacc : s.accept o = .ok s') :
    s'.Sound := by
  rw [h.accept_eq] at hacc
  cases hadd : s.add o.instruction with
  | error e => rw [hadd] at hacc; cases hacc
  | ok t =>
    rw [hadd] at hacc
    cases hacc
    refine h.append fun a ha => ?_
    rw [address_record]
    exact (h.add_eq_ok hadd).2 a ha

/-- Every history keeps the invariant. -/
theorem Sound.run {s : Store} (h : s.Sound) (os : List Offer) : (s.run os).Sound := by
  induction os generalizing s with
  | nil => exact h
  | cons o os ih =>
    unfold Store.run
    cases hacc : s.accept o with
    | ok s' => exact ih (h.accept hacc)
    | error e => exact ih h

theorem sound_run (os : List Offer) : (empty.run os).Sound := sound_empty.run os

end Store

end Bytecode
