import Bytecode.Proofs.Store.Queries

/-!
# Neighbours and the order of addresses

A sound store lists its records by rising addresses, so addresses are ordered as their positions
are (`Sound.address_lt_iff`). Neighbours are found by position; here they are said by address.

* `least?`, `greatest?`: the least and the greatest of the stored addresses with a property;
* `Sound.least?_above`, `Sound.greatest?_below`: around a stored address these are at the next
  positions;
* `hop`: going from neighbour to neighbour;
* `Chained`: how neighbours follow the order, which they do after every history (`chained_run`).
-/

namespace Bytecode.Store

/-- The least stored address with a property. -/
def least? (s : Store) (p : Address → Bool) : Option Address := (s.addresses.filter p).min?

/-- The greatest stored address with a property. -/
def greatest? (s : Store) (p : Address → Bool) : Option Address := (s.addresses.filter p).max?

/-- Where one is after some steps from neighbour to neighbour, if one is anywhere. -/
def hop (neighbour : Address → Option Instruction) (start : Option Instruction) :
    Nat → Option Instruction
  | 0 => start
  | k + 1 => (hop neighbour start k).bind fun i => neighbour i.address

/-- The neighbours of a store follow the order of its addresses. -/
structure Chained (s : Store) : Prop where
  /-- After a stored address comes the least one above it, and nothing after any other address. -/
  next : ∀ a, (s.next? a).map (·.address) = if s.contains a then s.least? (a < ·) else none
  prev : ∀ a, (s.prev? a).map (·.address) = if s.contains a then s.greatest? (· < a) else none
  /-- A neighbour is shown as it is stored. -/
  shown : ∀ a i, s.next? a = some i ∨ s.prev? a = some i → s.get? i.address = some i
  inverse : ∀ a b, (s.next? a).map (·.address) = some b ↔ (s.prev? b).map (·.address) = some a
  /-- From the first record on the steps read the list and then end. -/
  forwards : ∀ k, hop s.next? s.first? k = s.toList[k]?
  /-- From the last record on they read it backwards. -/
  backwards : ∀ k, hop s.prev? s.last? k = s.toList.reverse[k]?
  /-- There are as many records on either way as the store says, and no more. -/
  ends : ∀ k, (hop s.next? s.first? k = none ↔ s.size ≤ k) ∧
    (hop s.prev? s.last? k = none ↔ s.size ≤ k)

variable {s : Store}

/-! ## Addresses and positions -/

theorem Sound.address_lt_of_lt (h : s.Sound) {p q : Nat} {i j : Instruction}
    (hp : s.toList[p]? = some i) (hq : s.toList[q]? = some j) (hlt : p < q) :
    i.address < j.address := by
  obtain ⟨hp', rfl⟩ := List.getElem?_eq_some_iff.mp hp
  obtain ⟨hq', rfl⟩ := List.getElem?_eq_some_iff.mp hq
  exact List.pairwise_iff_getElem.mp (List.pairwise_map.mp h.ascending) p q hp' hq' hlt

/-- Addresses are ordered as their positions are. -/
theorem Sound.address_lt_iff (h : s.Sound) {p q : Nat} {i j : Instruction}
    (hp : s.toList[p]? = some i) (hq : s.toList[q]? = some j) :
    i.address < j.address ↔ p < q := by
  constructor
  · intro hlt
    rcases Nat.lt_trichotomy p q with hpq | rfl | hqp
    · exact hpq
    · rw [hp, Option.some.injEq] at hq
      exact absurd (hq ▸ hlt) (UInt32.lt_irrefl _)
    · exact absurd (UInt32.lt_trans hlt (h.address_lt_of_lt hq hp hqp)) (UInt32.lt_irrefl _)
  · exact h.address_lt_of_lt hp hq

theorem Sound.address_le_iff (h : s.Sound) {p q : Nat} {i j : Instruction}
    (hp : s.toList[p]? = some i) (hq : s.toList[q]? = some j) :
    i.address ≤ j.address ↔ p ≤ q := by
  rw [← UInt32.not_lt, h.address_lt_iff hq hp, Nat.not_lt]

/-! ## The least and the greatest address -/

theorem Sound.least?_eq_some_iff (h : s.Sound) {p : Address → Bool} {b : Address} :
    s.least? p = some b ↔
      (s.contains b = true ∧ p b = true) ∧ ∀ c, s.contains c = true → p c = true → b ≤ c := by
  simp only [least?, List.min?_eq_some_iff, List.mem_filter, h.contains_iff, and_imp]

theorem Sound.greatest?_eq_some_iff (h : s.Sound) {p : Address → Bool} {b : Address} :
    s.greatest? p = some b ↔
      (s.contains b = true ∧ p b = true) ∧ ∀ c, s.contains c = true → p c = true → c ≤ b := by
  simp only [greatest?, List.max?_eq_some_iff, List.mem_filter, h.contains_iff, and_imp]

theorem Sound.least?_eq_none_iff (h : s.Sound) {p : Address → Bool} :
    s.least? p = none ↔ ∀ c, s.contains c = true → p c = false := by
  simp [least?, List.min?_eq_none_iff, List.filter_eq_nil_iff, h.contains_iff]

theorem Sound.greatest?_eq_none_iff (h : s.Sound) {p : Address → Bool} :
    s.greatest? p = none ↔ ∀ c, s.contains c = true → p c = false := by
  simp [greatest?, List.max?_eq_none_iff, List.filter_eq_nil_iff, h.contains_iff]

/-- The least address above a stored one is at the next position. -/
theorem Sound.least?_above (h : s.Sound) {p : Nat} {i : Instruction}
    (hp : s.toList[p]? = some i) :
    s.least? (i.address < ·) = s.toList[p + 1]?.map (·.address) := by
  cases hq : s.toList[p + 1]? with
  | none =>
    rw [Option.map_none, h.least?_eq_none_iff]
    intro c hc
    obtain ⟨q, j, hj, rfl⟩ := h.exists_position hc
    have hend := List.getElem?_eq_none_iff.mp hq
    have hq' := (List.getElem?_eq_some_iff.mp hj).1
    rw [decide_eq_false_iff_not, h.address_lt_iff hp hj]
    omega
  | some j =>
    rw [Option.map_some, h.least?_eq_some_iff]
    refine ⟨⟨h.contains_of_mem (List.mem_of_getElem? hq), ?_⟩, ?_⟩
    · exact decide_eq_true (h.address_lt_of_lt hp hq (Nat.lt_succ_self p))
    · intro c hc hlt
      obtain ⟨q, k, hk, rfl⟩ := h.exists_position hc
      rw [decide_eq_true_eq, h.address_lt_iff hp hk] at hlt
      exact (h.address_le_iff hq hk).mpr hlt

/-- The greatest address below a stored one is at the position before. -/
theorem Sound.greatest?_below (h : s.Sound) {p : Nat} {j : Instruction}
    (hp : s.toList[p]? = some j) :
    s.greatest? (· < j.address) = (if p = 0 then none else s.toList[p - 1]?).map (·.address) := by
  cases p with
  | zero =>
    rw [if_pos rfl, Option.map_none, h.greatest?_eq_none_iff]
    intro c hc
    obtain ⟨q, i, hi, rfl⟩ := h.exists_position hc
    rw [decide_eq_false_iff_not, h.address_lt_iff hi hp]
    omega
  | succ p =>
    have hlt : p < s.toList.length := by
      have := (List.getElem?_eq_some_iff.mp hp).1
      omega
    have hi := List.getElem?_eq_getElem hlt
    rw [if_neg (Nat.succ_ne_zero p), Nat.add_sub_cancel, hi, Option.map_some,
      h.greatest?_eq_some_iff]
    refine ⟨⟨h.contains_of_mem (List.mem_of_getElem? hi), ?_⟩, ?_⟩
    · exact decide_eq_true (h.address_lt_of_lt hi hp (Nat.lt_succ_self p))
    · intro c hc hlt
      obtain ⟨q, k, hk, rfl⟩ := h.exists_position hc
      rw [decide_eq_true_eq, h.address_lt_iff hk hp] at hlt
      exact (h.address_le_iff hk hi).mpr (Nat.lt_succ_iff.mp hlt)

/-! ## Neighbours -/

theorem Sound.next?_address (h : s.Sound) (a : Address) :
    (s.next? a).map (·.address) = if s.contains a then s.least? (a < ·) else none := by
  cases ha : s.contains a with
  | true =>
    obtain ⟨p, i, hp, rfl⟩ := h.exists_position ha
    rw [h.next?_eq hp, if_pos rfl, h.least?_above hp]
  | false => simp [next?, h.position_eq_none ha]

theorem Sound.prev?_address (h : s.Sound) (a : Address) :
    (s.prev? a).map (·.address) = if s.contains a then s.greatest? (· < a) else none := by
  cases ha : s.contains a with
  | true =>
    obtain ⟨p, i, hp, rfl⟩ := h.exists_position ha
    rw [h.prev?_eq hp, if_pos rfl, h.greatest?_below hp]
  | false => simp [prev?, h.position_eq_none ha]

/-- A neighbour is one of the listed records. -/
theorem Sound.neighbour_listed (h : s.Sound) {a : Address} {i : Instruction}
    (hi : s.next? a = some i ∨ s.prev? a = some i) : ∃ p : Nat, s.toList[p]? = some i := by
  cases ha : s.contains a with
  | true =>
    obtain ⟨p, j, hp, rfl⟩ := h.exists_position ha
    rw [h.next?_eq hp, h.prev?_eq hp] at hi
    rcases hi with hi | hi
    · exact ⟨p + 1, hi⟩
    · split at hi
      · cases hi
      · exact ⟨p - 1, hi⟩
  | false => simp [next?, prev?, h.position_eq_none ha] at hi

theorem Sound.next?_address_eq_some_iff (h : s.Sound) (a b : Address) :
    (s.next? a).map (·.address) = some b ↔
      ∃ p, s.addresses[p]? = some a ∧ s.addresses[p + 1]? = some b := by
  simp only [next?, Option.map_bind, Option.bind_eq_some_iff, h.positions, Function.comp_apply,
    getElem?_instructions, addresses, List.getElem?_map]

theorem Sound.prev?_address_eq_some_iff (h : s.Sound) (a b : Address) :
    (s.prev? b).map (·.address) = some a ↔
      ∃ p, s.addresses[p]? = some a ∧ s.addresses[p + 1]? = some b := by
  simp only [prev?, Option.map_bind, Option.bind_eq_some_iff, h.positions, Function.comp_apply]
  constructor
  · rintro ⟨p, hb, ha⟩
    cases p with
    | zero => cases ha
    | succ p =>
      simp only [getElem?_instructions, ← List.getElem?_map] at ha
      exact ⟨p, ha, hb⟩
  · rintro ⟨p, ha, hb⟩
    refine ⟨p + 1, hb, ?_⟩
    simp only [getElem?_instructions, ← List.getElem?_map]
    exact ha

/-! ## From neighbour to neighbour -/

theorem Sound.hop_next? (h : s.Sound) (k : Nat) : hop s.next? s.first? k = s.toList[k]? := by
  induction k with
  | zero => rw [hop, first?_eq, List.head?_eq_getElem?]
  | succ k ih =>
    rw [hop, ih]
    cases hk : s.toList[k]? with
    | none =>
      have hend := List.getElem?_eq_none_iff.mp hk
      exact (List.getElem?_eq_none (Nat.le_succ_of_le hend)).symm
    | some i => exact h.next?_eq hk

theorem Sound.hop_prev? (h : s.Sound) (k : Nat) :
    hop s.prev? s.last? k = s.toList.reverse[k]? := by
  induction k with
  | zero => rw [hop, last?_eq, ← List.head?_reverse, List.head?_eq_getElem?]
  | succ k ih =>
    rw [hop, ih]
    by_cases hk : k < s.toList.length
    · rw [List.getElem?_reverse hk]
      have hi := List.getElem?_eq_getElem (show s.toList.length - 1 - k < s.toList.length by omega)
      rw [hi, Option.bind_some, h.prev?_eq hi]
      by_cases hlast : s.toList.length - 1 - k = 0
      · rw [if_pos hlast, List.getElem?_eq_none (by rw [List.length_reverse]; omega)]
      · rw [if_neg hlast, List.getElem?_reverse (by omega)]
        congr 1
    · have hend : s.toList.reverse.length ≤ k := by
        rw [List.length_reverse]
        omega
      rw [List.getElem?_eq_none hend, List.getElem?_eq_none (Nat.le_succ_of_le hend),
        Option.bind_none]

/-- **Neighbours follow the order, after every history.** After a stored address comes the least
stored one above it, and before it the greatest one below; other addresses have no neighbours. The
two directions undo each other, and going from neighbour to neighbour reads the whole list, from
either end to the other. -/
theorem chained_run (os : List Offer) : (empty.run os).Chained where
  next := (sound_run os).next?_address
  prev := (sound_run os).prev?_address
  shown a i hi := by
    obtain ⟨p, hp⟩ := (sound_run os).neighbour_listed hi
    exact (sound_run os).get?_eq hp
  inverse a b := by
    rw [(sound_run os).next?_address_eq_some_iff, (sound_run os).prev?_address_eq_some_iff]
  forwards := (sound_run os).hop_next?
  backwards := (sound_run os).hop_prev?
  ends k := by
    rw [(sound_run os).hop_next?, (sound_run os).hop_prev?, List.getElem?_eq_none_iff,
      List.getElem?_eq_none_iff, List.length_reverse, length_toList]
    exact ⟨Iff.rfl, Iff.rfl⟩

end Bytecode.Store
