import Bytecode.Proofs.Store.Invariant

/-!
# Stores and their lists

A store that a history of offers ends in is the store of its list, appended record by record
(`run_eq_ofList`): refusals, comments and their order leave no other trace. The other way round,
every rising list is loaded, whole and in order (`load_eq_ofList`).
-/

namespace Bytecode.Store

/-- Puts some records after the last one, one after the other. -/
def appendAll (s : Store) (is : List Instruction) : Store := is.foldl append s

/-- The store of some records. -/
def ofList (is : List Instruction) : Store := empty.appendAll is

theorem toList_appendAll (s : Store) (is : List Instruction) :
    (s.appendAll is).toList = s.toList ++ is := by
  induction is generalizing s with
  | nil => simp [appendAll]
  | cons i is ih =>
    rw [appendAll, List.foldl_cons, ← appendAll, ih, toList_append, List.append_assoc]
    rfl

@[simp]
theorem toList_ofList (is : List Instruction) : (ofList is).toList = is :=
  toList_appendAll empty is

/-! ## Histories -/

variable {s : Store}

theorem Sound.run_eq_appendAll (h : s.Sound) (os : List Offer) :
    ∃ is : List Instruction, s.run os = s.appendAll is := by
  induction os generalizing s with
  | nil => exact ⟨[], rfl⟩
  | cons o os ih =>
    unfold Store.run
    cases hacc : s.accept o with
    | error e => exact ih h
    | ok s' =>
      obtain ⟨is, his⟩ := ih (h.accept hacc)
      rw [h.accept_eq] at hacc
      cases hadd : s.add o.instruction with
      | error e => rw [hadd] at hacc; cases hacc
      | ok t =>
        rw [hadd] at hacc
        cases hacc
        exact ⟨o.record :: is, his⟩

theorem run_eq_ofList (os : List Offer) : empty.run os = ofList (empty.run os).toList := by
  obtain ⟨is, his⟩ := sound_empty.run_eq_appendAll os
  rw [his, toList_appendAll]
  rfl

/-! ## Rising lists -/

/-- What rises above a store is loaded and taken, in order. -/
theorem Sound.load_eq_appendAll (h : s.Sound) {is : List Instruction}
    (rising : (s.addresses ++ is.map (·.address)).Pairwise (· < ·)) :
    s.load is = .ok (s.appendAll is) ∧
      s.run (is.map fun i => ⟨i, []⟩) = s.appendAll is := by
  induction is generalizing s with
  | nil => exact ⟨rfl, rfl⟩
  | cons i is ih =>
    have above : ∀ a ∈ s.addresses, a < i.address := fun a ha =>
      (List.pairwise_append.mp rising).2.2 a ha _ (by simp)
    have hadd := h.add_above above
    have hacc : s.accept ⟨i, []⟩ = .ok (s.append i) := by
      rw [h.accept_eq, hadd]
      rfl
    have hnext := ih (h.append above) (by simpa using rising)
    constructor
    · rw [load, hadd]
      exact hnext.1
    · rw [List.map_cons, Store.run, hacc]
      exact hnext.2

theorem load_eq_ofList {is : List Instruction} (rising : (is.map (·.address)).Pairwise (· < ·)) :
    empty.load is = .ok (ofList is) ∧ empty.run (is.map fun i => ⟨i, []⟩) = ofList is :=
  sound_empty.load_eq_appendAll rising

end Bytecode.Store
