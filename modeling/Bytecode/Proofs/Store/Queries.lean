import Bytecode.Proofs.Store.Invariant

/-!
# What a sound store answers

Every query of a sound store is a reading of its list.

* `walk_eq_toList`: stepping from position to position reads the list, once and in order;
* `Sound.get?_eq_some_iff`, `Sound.next?_eq`, `Sound.prev?_eq`: look-ups and neighbours;
* `Sound.slice_eq_between`: a slice is the part of the list between its ends;
* `Sound.branches_eq_filter`: no branch position is dropped;
* `Coherent`: all of it together, which every sound store has (`Sound.coherent`).
-/

namespace Bytecode.Store

/-! ## Stepping along the list -/

/-- The position of the first record. -/
def start? (s : Store) : Option Nat := if s.isEmpty then none else some 0

/-- The position after `p`, if a record is there. -/
def following? (s : Store) (p : Nat) : Option Nat := if p + 1 < s.size then some (p + 1) else none

/-- The records that are seen on the way from a position to the end. -/
def walk (s : Store) : Option Nat → List Instruction
  | none => []
  | some p =>
    match s.instructions[p]? with
    | none => []
    | some i => i :: s.walk (s.following? p)
termination_by cursor => (cursor.map fun p => s.size - p + 1).getD 0
decreasing_by
  unfold following?
  split
  · simp only [Option.map_some, Option.getD_some]; omega
  · simp

theorem walk_eq_drop (s : Store) (p : Nat) : s.walk (some p) = s.toList.drop p := by
  induction hn : s.size - p generalizing p with
  | zero =>
    have hle : s.toList.length ≤ p := by rw [length_toList]; omega
    rw [walk, getElem?_instructions, List.getElem?_eq_none hle, List.drop_eq_nil_of_le hle]
  | succ n ih =>
    have hlt : p < s.toList.length := by rw [length_toList]; omega
    rw [walk, getElem?_instructions, List.getElem?_eq_getElem hlt, List.drop_eq_getElem_cons hlt]
    simp only [List.cons.injEq, true_and]
    unfold following?
    split
    · exact ih (p + 1) (by omega)
    · rw [walk, List.drop_eq_nil_of_le]
      rw [length_toList]; omega

/-- The walk from the first record reads the whole list. -/
theorem walk_eq_toList (s : Store) : s.walk s.start? = s.toList := by
  unfold start? isEmpty
  by_cases h : s.size = 0
  · have hnil : s.toList = [] := List.length_eq_zero_iff.mp (by rw [length_toList, h])
    simp [h, walk, hnil]
  · simp [h, walk_eq_drop]

/-! ## Look-ups -/

variable {s : Store}

theorem Sound.position_of_listed (h : s.Sound) {p : Nat} {i : Instruction}
    (hp : s.toList[p]? = some i) : s.positions[i.address]? = some p := by
  rw [h.positions, addresses, List.getElem?_map, hp]
  rfl

theorem Sound.listed_of_position (h : s.Sound) {a : Address} {p : Nat}
    (hp : s.positions[a]? = some p) : ∃ i, s.toList[p]? = some i ∧ i.address = a := by
  rw [h.positions, addresses, List.getElem?_map] at hp
  exact Option.map_eq_some_iff.mp hp

theorem Sound.exists_position (h : s.Sound) {a : Address} (ha : s.contains a = true) :
    ∃ (p : Nat) (i : Instruction), s.toList[p]? = some i ∧ i.address = a := by
  rw [h.contains_iff, addresses, List.mem_map] at ha
  obtain ⟨i, hi, rfl⟩ := ha
  obtain ⟨p, hp⟩ := List.mem_iff_getElem?.mp hi
  exact ⟨p, i, hp, rfl⟩

theorem Sound.contains_of_mem (h : s.Sound) {i : Instruction} (hi : i ∈ s.toList) :
    s.contains i.address = true := by
  rw [h.contains_iff]
  exact List.mem_map_of_mem hi

theorem Sound.position_eq_none (h : s.Sound) {a : Address} (ha : s.contains a = false) :
    s.positions[a]? = none := by
  cases hp : s.positions[a]? with
  | none => rfl
  | some p =>
    obtain ⟨i, hi, rfl⟩ := h.listed_of_position hp
    rw [h.contains_of_mem (List.mem_of_getElem? hi)] at ha
    cases ha

theorem Sound.get?_eq (h : s.Sound) {p : Nat} {i : Instruction} (hp : s.toList[p]? = some i) :
    s.get? i.address = some i := by
  unfold get?
  rw [h.position_of_listed hp, Option.bind_some, getElem?_instructions, hp]

theorem Sound.get?_eq_some_iff (h : s.Sound) {a : Address} {i : Instruction} :
    s.get? a = some i ↔ i ∈ s.toList ∧ i.address = a := by
  constructor
  · intro hi
    obtain ⟨p, hp, hi⟩ := Option.bind_eq_some_iff.mp hi
    obtain ⟨j, hj, hja⟩ := h.listed_of_position hp
    rw [getElem?_instructions, hj, Option.some.injEq] at hi
    exact hi ▸ ⟨List.mem_of_getElem? hj, hja⟩
  · rintro ⟨hi, rfl⟩
    obtain ⟨p, hp⟩ := List.mem_iff_getElem?.mp hi
    exact h.get?_eq hp

theorem Sound.contains_eq_isSome (h : s.Sound) (a : Address) :
    s.contains a = (s.get? a).isSome := by
  rw [Bool.eq_iff_iff, h.contains_iff, Option.isSome_iff_exists, addresses, List.mem_map]
  exact exists_congr fun i => h.get?_eq_some_iff.symm

theorem Sound.next?_eq (h : s.Sound) {p : Nat} {i : Instruction} (hp : s.toList[p]? = some i) :
    s.next? i.address = s.toList[p + 1]? := by
  unfold next?
  rw [h.position_of_listed hp, Option.bind_some, getElem?_instructions]

theorem Sound.prev?_eq (h : s.Sound) {p : Nat} {i : Instruction} (hp : s.toList[p]? = some i) :
    s.prev? i.address = if p = 0 then none else s.toList[p - 1]? := by
  unfold prev?
  rw [h.position_of_listed hp, Option.bind_some]
  cases p with
  | zero => rfl
  | succ p => simp [getElem?_instructions]

theorem first?_eq (s : Store) : s.first? = s.toList.head? := by
  simp [first?, toList, List.head?_eq_getElem?]

/-! ## Slices -/

/-- From a member of a rising list on there is what is not below it. -/
theorem drop_eq_filter {is : List Instruction} (rising : (is.map (·.address)).Pairwise (· < ·))
    {p : Nat} {i : Instruction} (hp : is[p]? = some i) :
    is.drop p = is.filter fun j => decide (i.address ≤ j.address) := by
  induction is generalizing p with
  | nil => simp at hp
  | cons j is ih =>
    obtain ⟨hj, hrest⟩ := List.pairwise_cons.mp rising
    cases p with
    | succ p =>
      have hlt : j.address < i.address := hj _ (List.mem_map_of_mem (List.mem_of_getElem? hp))
      rw [List.drop_succ_cons, ih hrest hp, List.filter_cons]
      simp [UInt32.not_le.mpr hlt]
    | zero =>
      obtain rfl : j = i := by simpa using hp
      refine (List.filter_eq_self.mpr fun k hk => decide_eq_true ?_).symm
      rcases List.mem_cons.mp hk with rfl | hk
      · exact UInt32.le_refl _
      · exact UInt32.le_of_lt (hj _ (List.mem_map_of_mem hk))

/-- Up to a bound there is what is not above it. -/
theorem takeWhile_eq_filter {is : List Instruction}
    (rising : (is.map (·.address)).Pairwise (· < ·)) (stop : Address) :
    (is.takeWhile fun j => j.address ≤ stop) = is.filter fun j => decide (j.address ≤ stop) := by
  induction is with
  | nil => rfl
  | cons j is ih =>
    obtain ⟨hj, hrest⟩ := List.pairwise_cons.mp rising
    rw [List.takeWhile_cons, List.filter_cons, ih hrest]
    by_cases hstop : j.address ≤ stop
    · simp [hstop]
    · have hnone : ∀ k ∈ is, ¬ k.address ≤ stop := fun k hk hks =>
        hstop (UInt32.le_trans (UInt32.le_of_lt (hj _ (List.mem_map_of_mem hk))) hks)
      simp only [hstop, decide_false, Bool.false_eq_true, ↓reduceIte]
      exact (List.filter_eq_nil_iff.mpr fun k hk => by simpa using hnone k hk).symm

/-- The records from one address to another. -/
def between (s : Store) (start stop : Address) : List Instruction :=
  s.toList.filter fun i => decide (start ≤ i.address) && decide (i.address ≤ stop)

theorem Sound.slice_eq_between (h : s.Sound) {start : Address} (hs : s.contains start = true)
    (stop : Address) : s.slice start stop = .ok (s.between start stop) := by
  obtain ⟨p, i, hp, rfl⟩ := h.exists_position hs
  have hdrop := drop_eq_filter h.ascending hp
  have hrising : ((s.toList.drop p).map (·.address)).Pairwise (· < ·) := by
    rw [List.map_drop]
    exact h.ascending.drop
  unfold slice
  rw [h.position_of_listed hp]
  simp only
  rw [takeWhile_eq_filter hrising, hdrop, List.filter_filter, between]
  congr 1
  exact List.filter_congr fun j _ => Bool.and_comm _ _

theorem Sound.slice_eq_error (h : s.Sound) {start : Address} (hs : s.contains start = false)
    (stop : Address) : s.slice start stop = .error (.rangeStartNotFound start) := by
  unfold slice
  rw [h.position_eq_none hs]

/-! ## Branches -/

/-- Picking the positions of some members of a list picks these members. -/
theorem map_getElem?_filter_range {α : Type} (f : α → Bool) (xs : List α) :
    ((List.range xs.length).filter fun p => xs[p]?.any f).map (fun p => xs[p]?) =
      (xs.filter f).map some := by
  induction xs with
  | nil => rfl
  | cons x xs ih =>
    rw [List.length_cons, List.range_succ_eq_map, List.filter_cons, List.filter_map]
    have hpred : ((fun p => (x :: xs)[p]?.any f) ∘ Nat.succ) = fun p => xs[p]?.any f := by
      funext p; simp
    have hget : ((fun p => (x :: xs)[p]?) ∘ Nat.succ) = fun p => xs[p]? := by
      funext p; simp
    rw [hpred]
    by_cases hx : f x = true
    · simp only [List.getElem?_cons_zero, Option.any_some, hx, ↓reduceIte, List.map_cons,
        List.map_map, hget, ih, List.filter_cons_of_pos]
    · simp only [List.getElem?_cons_zero, Option.any_some, hx, Bool.false_eq_true, ↓reduceIte,
        List.map_map, hget, ih, List.filter_cons_of_neg, not_false_eq_true]

theorem Sound.map_branchPositions (h : s.Sound) :
    s.branchPositions.toList.map (fun p => s.instructions[p]?) =
      (s.toList.filter Instruction.isBranch).map some := by
  rw [h.branches, ← length_toList, ← map_getElem?_filter_range]
  exact List.map_congr_left fun p _ => getElem?_instructions s p

theorem Sound.branches_eq_filter (h : s.Sound) :
    s.branches = s.toList.filter Instruction.isBranch := by
  have hids : s.branches =
      (s.branchPositions.toList.map fun p => s.instructions[p]?).filterMap id := by
    rw [List.filterMap_map]
    rfl
  rw [hids, h.map_branchPositions, List.filterMap_map]
  simp

/-! ## Targets -/

theorem mem_targetList (s : Store) (t : Address) : t ∈ s.targetList ↔ s.isTarget t = true := by
  rw [targetList, Std.TreeSet.mem_toList, isTarget, Std.TreeSet.mem_iff_contains]

theorem pairwise_targetList (s : Store) : s.targetList.Pairwise (· < ·) :=
  Std.TreeSet.ordered_toList.imp fun h => Std.compare_eq_lt.mp h

/-! ## All queries show the same records -/

/-- The list and the answers of a store fit together: each handle that an index keeps resolves, and
each query shows the records of the list. -/
structure Coherent (s : Store) : Prop where
  /-- Iterating reads the list, which is as long as the store says. -/
  iteration : s.walk s.start? = s.toList ∧ s.toList.length = s.size
  /-- An address that is known has a record. -/
  resolved : ∀ a, s.contains a = (s.get? a).isSome
  /-- No branch position is dropped. -/
  branches : s.branches = s.toList.filter Instruction.isBranch ∧
    s.branches.length = s.branchPositions.size
  /-- The targets are listed once each, lowest first. -/
  targets : s.targetList.Pairwise (· < ·) ∧ ∀ t, t ∈ s.targetList ↔ s.isTarget t = true
  /-- A record that is listed is what its address, its neighbours and the slices show. -/
  listed : ∀ (p : Nat) (i : Instruction), s.toList[p]? = some i →
    s.get? i.address = some i ∧
    s.next? i.address = s.toList[p + 1]? ∧
    s.prev? i.address = (if p = 0 then none else s.toList[p - 1]?) ∧
    ∀ stop, s.slice i.address stop = .ok (s.between i.address stop)
  /-- An address that is not listed shows nothing. -/
  unlisted : ∀ a, (∀ i ∈ s.toList, i.address ≠ a) →
    s.get? a = none ∧ s.next? a = none ∧ s.prev? a = none ∧
    ∀ stop, s.slice a stop = .error (.rangeStartNotFound a)
  ends : s.first? = s.toList.head? ∧ s.last? = s.toList.getLast?

theorem Sound.coherent (h : s.Sound) : s.Coherent where
  iteration := ⟨s.walk_eq_toList, s.length_toList⟩
  resolved := h.contains_eq_isSome
  branches := by
    refine ⟨h.branches_eq_filter, ?_⟩
    have hlen := congrArg List.length h.map_branchPositions
    rw [List.length_map, List.length_map, Array.length_toList] at hlen
    rw [h.branches_eq_filter, hlen]
  targets := ⟨s.pairwise_targetList, s.mem_targetList⟩
  listed p i hp := by
    refine ⟨h.get?_eq hp, h.next?_eq hp, h.prev?_eq hp, fun stop => ?_⟩
    refine h.slice_eq_between ?_ stop
    rw [h.contains_eq_isSome, h.get?_eq hp]
    rfl
  unlisted a ha := by
    have hc : s.contains a = false := by
      rw [← Bool.not_eq_true, h.contains_iff, addresses, List.mem_map]
      rintro ⟨i, hi, rfl⟩
      exact ha i hi rfl
    have hpos := h.position_eq_none hc
    refine ⟨?_, ?_, ?_, h.slice_eq_error hc⟩
    · rw [get?, hpos, Option.bind_none]
    · rw [next?, hpos, Option.bind_none]
    · rw [prev?, hpos, Option.bind_none]
  ends := ⟨s.first?_eq, s.last?_eq⟩

/-! ## After every history -/

/-- The position that an addition gives out holds the record that was added, and its address finds
it there. -/
theorem Sound.add_resolves (h : s.Sound) {s' : Store} {i : Instruction} (hadd : s.add i = .ok s') :
    s'.instructions[s.size]? = some i ∧ s'.get? i.address = some i := by
  obtain ⟨rfl, above⟩ := h.add_eq_ok hadd
  have hlast : (s.append i).toList[s.size]? = some i := by
    rw [toList_append, ← length_toList, List.getElem?_concat_length]
  exact ⟨by rw [getElem?_instructions, hlast], (h.append above).get?_eq hlast⟩

/-- A taken offer is listed last, with the last of its comments, and its address finds that record.
-/
theorem Sound.accept_resolves (h : s.Sound) {s' : Store} {o : Offer} (hacc : s.accept o = .ok s') :
    s'.toList = s.toList ++ [o.record] ∧ s'.get? o.instruction.address = some o.record := by
  have hs' := h.accept hacc
  rw [h.accept_eq] at hacc
  cases hadd : s.add o.instruction with
  | error e => rw [hadd] at hacc; cases hacc
  | ok t =>
    rw [hadd] at hacc
    cases hacc
    refine ⟨toList_append s _, ?_⟩
    rw [← address_record]
    refine hs'.get?_eq (p := s.size) ?_
    rw [toList_append, ← length_toList, List.getElem?_concat_length]

/-- **The representation holds after every history.** The indexes fit the list, every handle
resolves, all queries show the same records, and the next offer that is taken can be looked up at
once: where it was put, and with the comments set on it. -/
theorem run_sound_and_coherent (os : List Offer) :
    let s := empty.run os
    s.Sound ∧ s.Coherent ∧
    (∀ i s', s.add i = .ok s' →
      s'.instructions[s.size]? = some i ∧ s'.get? i.address = some i) ∧
    (∀ o s', s.accept o = .ok s' →
      s'.toList = s.toList ++ [o.record] ∧ s'.get? o.instruction.address = some o.record) := by
  intro s
  have h : s.Sound := sound_run os
  exact ⟨h, h.coherent, fun _ _ => h.add_resolves, fun _ _ => h.accept_resolves⟩

end Bytecode.Store
