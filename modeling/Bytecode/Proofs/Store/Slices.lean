import Bytecode.Proofs.Store.Order
import Bytecode.Proofs.Store.Visits

/-!
# Slices by address

A slice is cut out of the list by position: it starts where its first address is kept and ends
before the first record that lies too high. In a sound store this loses nothing, for the list rises,
so a slice is the part of the list whose addresses lie between its ends (`between`). All else about
slices is read off that part: what it has of an end that is not stored, and where it can be cut.

* `Sound.le_iff_of_greatest?_eq`: two ends are alike if the same stored address is the greatest one
  up to each;
* `Sound.between_split`: the part between two ends, cut after an address inside it;
* `ByAddress`: slices in terms of addresses only, which they are after every history
  (`byAddress_run`).
-/

namespace Bytecode.Store

/-- The slices of a store are what their ends say. -/
structure ByAddress (s : Store) : Prop where
  /-- A slice is refused exactly if its start is not stored, whatever its end. -/
  refused : ∀ start stop e, s.slice start stop = .error e ↔
    s.contains start = false ∧ e = .rangeStartNotFound start
  /-- Any other slice has the records between its ends, in the order of the list. -/
  shown : ∀ start stop is, s.slice start stop = .ok is ↔ s.contains start = true ∧
    is = s.toList.filter fun i => decide (start ≤ i.address) && decide (i.address ≤ stop)
  rising : ∀ start stop is, s.slice start stop = .ok is →
    (is.map (·.address)).Pairwise (· < ·)
  empty_iff : ∀ start stop, s.contains start = true → (s.slice start stop = .ok [] ↔ stop < start)
  /-- All that matters of the end is the greatest stored address that is not above it. -/
  floor : ∀ start stop stop', s.greatest? (· ≤ stop) = s.greatest? (· ≤ stop') →
    s.slice start stop = s.slice start stop'
  /-- After an address inside it a slice goes on from the next stored address, if there is one. -/
  split : ∀ start mid stop, s.contains start = true → start ≤ mid → mid < stop →
    s.slice start stop = do
      let front ← s.slice start mid
      match s.least? (mid < ·) with
      | some next => return front ++ (← s.slice next stop)
      | none => return front

variable {s : Store}

/-! ## What is between two ends -/

theorem mem_between {start stop : Address} {i : Instruction} :
    i ∈ s.between start stop ↔ i ∈ s.toList ∧ start ≤ i.address ∧ i.address ≤ stop := by
  simp [between]

theorem Sound.rising_between (h : s.Sound) (start stop : Address) :
    ((s.between start stop).map (·.address)).Pairwise (· < ·) :=
  h.ascending.sublist (List.filter_sublist.map _)

theorem Sound.between_eq_nil_iff (h : s.Sound) {start : Address} (hs : s.contains start = true)
    (stop : Address) : s.between start stop = [] ↔ stop < start := by
  obtain ⟨p, i, hp, rfl⟩ := h.exists_position hs
  rw [List.eq_nil_iff_forall_not_mem]
  constructor
  · intro hnone
    have hi := hnone i
    rw [mem_between, not_and, not_and, UInt32.not_le] at hi
    exact hi (List.mem_of_getElem? hp) (UInt32.le_refl _)
  · intro hlt j hj
    obtain ⟨_, hstart, hstop⟩ := mem_between.mp hj
    exact UInt32.not_le.mpr hlt (UInt32.le_trans hstart hstop)

/-! ## Ends that are alike -/

theorem Sound.le_iff_of_greatest?_eq (h : s.Sound) {stop stop' : Address}
    (hfloor : s.greatest? (· ≤ stop) = s.greatest? (· ≤ stop')) {i : Instruction}
    (hi : i ∈ s.toList) : i.address ≤ stop ↔ i.address ≤ stop' := by
  have hstored := h.contains_of_mem hi
  -- A stored address reaches an end exactly if it reaches the greatest one up to that end.
  have hreach : ∀ {a b : Address}, s.greatest? (· ≤ a) = s.greatest? (· ≤ b) →
      i.address ≤ a → i.address ≤ b := by
    intro a b hab ha
    cases hb : s.greatest? (· ≤ b) with
    | none =>
      rw [hb, h.greatest?_eq_none_iff] at hab
      exact absurd ha (of_decide_eq_false (hab _ hstored))
    | some floor =>
      rw [hb, h.greatest?_eq_some_iff] at hab
      rw [h.greatest?_eq_some_iff] at hb
      exact UInt32.le_trans (hab.2 _ hstored (decide_eq_true ha)) (of_decide_eq_true hb.1.2)
  exact ⟨hreach hfloor, hreach hfloor.symm⟩

theorem Sound.between_congr (h : s.Sound) (start : Address) {stop stop' : Address}
    (hfloor : s.greatest? (· ≤ stop) = s.greatest? (· ≤ stop')) :
    s.between start stop = s.between start stop' := by
  refine List.filter_congr fun i hi => ?_
  rw [decide_eq_decide.mpr (h.le_iff_of_greatest?_eq hfloor hi)]

/-! ## Cutting a slice -/

/-- What is between two ends, cut after an address inside. -/
theorem Sound.between_cut (h : s.Sound) {start mid stop : Address} (hstart : start ≤ mid)
    (hstop : mid < stop) :
    s.between start stop = s.between start mid ++
      s.toList.filter fun i => decide (mid < i.address) && decide (i.address ≤ stop) := by
  rw [between, filter_split h.ascending (le_down mid), between]
  congr 1
  · refine List.filter_congr fun i _ => ?_
    rw [Bool.eq_iff_iff]
    simp only [Bool.and_eq_true, decide_eq_true_eq]
    grind
  · refine List.filter_congr fun i _ => ?_
    rw [Bool.eq_iff_iff]
    simp only [Bool.and_eq_true, Bool.not_eq_true', decide_eq_true_eq, decide_eq_false_iff_not]
    grind

/-- Above an address the list starts with the next stored one. -/
theorem Sound.between_next (h : s.Sound) {mid next : Address}
    (hnext : s.least? (mid < ·) = some next) (stop : Address) :
    (s.toList.filter fun i => decide (mid < i.address) && decide (i.address ≤ stop)) =
      s.between next stop := by
  obtain ⟨⟨_, hmid⟩, hleast⟩ := h.least?_eq_some_iff.mp hnext
  rw [decide_eq_true_eq] at hmid
  refine List.filter_congr fun i hi => ?_
  have hstored := h.contains_of_mem hi
  have habove : mid < i.address ↔ next ≤ i.address := by
    constructor
    · intro hlt
      exact hleast _ hstored (decide_eq_true hlt)
    · intro hle
      exact UInt32.lt_of_lt_of_le hmid hle
  rw [decide_eq_decide.mpr habove]

theorem Sound.filter_above_eq_nil (h : s.Sound) {mid : Address} (hnone : s.least? (mid < ·) = none)
    (stop : Address) :
    (s.toList.filter fun i => decide (mid < i.address) && decide (i.address ≤ stop)) = [] := by
  rw [List.filter_eq_nil_iff]
  intro i hi
  have hstored := h.contains_of_mem hi
  simp [h.least?_eq_none_iff.mp hnone _ hstored]

theorem Sound.slice_split (h : s.Sound) {start mid stop : Address} (hs : s.contains start = true)
    (hstart : start ≤ mid) (hstop : mid < stop) :
    s.slice start stop = do
      let front ← s.slice start mid
      match s.least? (mid < ·) with
      | some next => return front ++ (← s.slice next stop)
      | none => return front := by
  rw [h.slice_eq_between hs, h.slice_eq_between hs, h.between_cut hstart hstop]
  cases hnext : s.least? (mid < ·) with
  | none => rw [h.filter_above_eq_nil hnext, List.append_nil]; rfl
  | some next =>
    have hstored := (h.least?_eq_some_iff.mp hnext).1.1
    rw [h.between_next hnext]
    simp only [h.slice_eq_between hstored]
    rfl

/-! ## Slices -/

theorem Sound.slice_eq (h : s.Sound) (start stop : Address) :
    s.slice start stop =
      if s.contains start then .ok (s.between start stop)
      else .error (.rangeStartNotFound start) := by
  cases hs : s.contains start with
  | true => exact h.slice_eq_between hs stop
  | false => exact h.slice_eq_error hs stop

theorem Sound.slice_eq_ok_iff (h : s.Sound) {start stop : Address} {is : List Instruction} :
    s.slice start stop = .ok is ↔ s.contains start = true ∧ is = s.between start stop := by
  rw [h.slice_eq]
  split <;> simp [*, eq_comm]

theorem Sound.slice_eq_error_iff (h : s.Sound) {start stop : Address} {e : StoreError} :
    s.slice start stop = .error e ↔ start ∉ s.addresses ∧ e = .rangeStartNotFound start := by
  rw [h.slice_eq, ← h.contains_iff]
  split <;> simp [*, eq_comm]

/-- **Slices are intervals, after every history.** A slice whose start is stored has exactly the
records whose addresses lie between its ends, in order; any other one is refused. -/
theorem byAddress_run (os : List Offer) : (empty.run os).ByAddress where
  refused start stop e := by
    rw [(sound_run os).slice_eq]
    split <;> simp [*, eq_comm]
  shown start stop is := (sound_run os).slice_eq_ok_iff
  rising start stop is his := by
    rw [((sound_run os).slice_eq_ok_iff.mp his).2]
    exact (sound_run os).rising_between start stop
  empty_iff start stop hs := by
    rw [(sound_run os).slice_eq_ok_iff, and_iff_right hs, ← (sound_run os).between_eq_nil_iff hs]
    exact eq_comm
  floor start stop stop' hfloor := by
    rw [(sound_run os).slice_eq, (sound_run os).slice_eq, (sound_run os).between_congr start hfloor]
  split _ _ _ hs hstart hstop := (sound_run os).slice_split hs hstart hstop

end Bytecode.Store
