import Bytecode.Proofs.Store.Queries

/-!
# Which offers are taken

The answer to an offer depends on the history only: on all that was offered before, taken or not.

* `verdict`: what the history says about an offer. It is taken if it is above everything offered
  before, a duplicate if it repeats an offer that was taken, and out of order otherwise;
* `strictMaxima`: the offers that are above everything offered before them;
* `Follows`: how the store of a history relates to the history. One offer keeps the relation
  (`Follows.step`), hence any number of offers does;
* `run_accepted`: offers that are refused leave no trace.
-/

namespace Bytecode

namespace Offer

def address (o : Offer) : Address := o.instruction.address

/-- Whether an offer is above all earlier ones. -/
def tops (earlier : List Offer) (o : Offer) : Bool :=
  earlier.all fun e => decide (e.address < o.address)

/-- Those of some offers that are above all that came before them, `earlier` included. -/
def maximaAfter (earlier : List Offer) : List Offer → List Offer
  | [] => []
  | o :: os =>
    if tops earlier o then o :: maximaAfter (earlier ++ [o]) os
    else maximaAfter (earlier ++ [o]) os

/-- The offers that are above all that came before them. -/
def strictMaxima (os : List Offer) : List Offer := maximaAfter [] os

/-- The highest address of some offers; zero if there are none. -/
def highest (os : List Offer) : Address := os.foldl (fun top o => max top o.address) 0

/-- The answer that a history calls for. -/
def verdict (earlier : List Offer) (o : Offer) : Except StoreError Unit :=
  if tops earlier o then .ok ()
  else if (strictMaxima earlier).any fun e => decide (e.address = o.address) then
    .error (.duplicateAddress o.address)
  else .error (.addressOutOfOrder o.address (highest earlier))

theorem maximaAfter_append (earlier os os' : List Offer) :
    maximaAfter earlier (os ++ os') =
      maximaAfter earlier os ++ maximaAfter (earlier ++ os) os' := by
  induction os generalizing earlier with
  | nil => simp [maximaAfter]
  | cons o os ih =>
    simp only [List.cons_append, maximaAfter, ih, List.append_assoc, List.nil_append]
    split <;> rfl

theorem strictMaxima_concat (os : List Offer) (o : Offer) :
    strictMaxima (os ++ [o]) = strictMaxima os ++ if tops os o then [o] else [] := by
  rw [strictMaxima, maximaAfter_append, List.nil_append]
  rfl

theorem mem_of_mem_maximaAfter {earlier os : List Offer} {o : Offer}
    (ho : o ∈ maximaAfter earlier os) : o ∈ os := by
  induction os generalizing earlier with
  | nil => simp [maximaAfter] at ho
  | cons e os ih =>
    unfold maximaAfter at ho
    split at ho
    · rcases List.mem_cons.mp ho with rfl | ho
      · exact List.mem_cons_self
      · exact List.mem_cons_of_mem _ (ih ho)
    · exact List.mem_cons_of_mem _ (ih ho)

theorem tops_iff {earlier : List Offer} {o : Offer} :
    tops earlier o = true ↔ ∀ e ∈ earlier, e.address < o.address := by
  simp [tops]

/-! ## The highest address -/

theorem highest_concat (os : List Offer) (o : Offer) :
    highest (os ++ [o]) = if highest os ≤ o.address then o.address else highest os := by
  rw [highest, List.foldl_append]
  rfl

private theorem foldl_max_le_iff (os : List Offer) (top a : Address) :
    os.foldl (fun top o => max top o.address) top ≤ a ↔ top ≤ a ∧ ∀ o ∈ os, o.address ≤ a := by
  induction os generalizing top with
  | nil => simp
  | cons o os ih =>
    rw [List.foldl_cons, ih, Std.LawfulOrderSup.max_le_iff, List.forall_mem_cons, and_assoc]

theorem highest_le_iff (os : List Offer) (a : Address) :
    highest os ≤ a ↔ ∀ o ∈ os, o.address ≤ a := by
  rw [highest, foldl_max_le_iff]
  simp

theorem le_highest {os : List Offer} {o : Offer} (ho : o ∈ os) : o.address ≤ highest os :=
  (highest_le_iff os _).mp (UInt32.le_refl _) o ho

end Offer

namespace Store

open Offer

/-! ## Refused offers leave no trace -/

/-- The offers that are taken. -/
def accepted (s : Store) : List Offer → List Offer
  | [] => []
  | o :: os =>
    match s.accept o with
    | .ok s' => o :: accepted s' os
    | .error _ => accepted s os

theorem run_accepted (s : Store) (os : List Offer) : s.run (s.accepted os) = s.run os := by
  induction os generalizing s with
  | nil => rfl
  | cons o os ih =>
    cases h : s.accept o with
    | ok s' => simp only [accepted, run, h, ih]
    | error e => simp only [accepted, run, h, ih]

/-! ## The store of a history -/

/-- What the store of a history knows of it: it lists the records of the strict maxima, and its last
address is the highest one ever offered. -/
structure Follows (s : Store) (earlier : List Offer) : Prop where
  sound : s.Sound
  toList_eq : s.toList = (strictMaxima earlier).map Offer.record
  last_eq : s.addresses.getLast? = if earlier = [] then none else some (highest earlier)

theorem follows_empty : Follows empty [] := ⟨sound_empty, rfl, rfl⟩

variable {s : Store} {earlier : List Offer}

theorem Follows.addresses_eq (h : Follows s earlier) :
    s.addresses = (strictMaxima earlier).map Offer.address := by
  rw [addresses, h.toList_eq, List.map_map]
  exact List.map_congr_left fun o _ => address_record o

/-- An offer above the whole history is taken. -/
theorem Follows.step_of_tops (h : Follows s earlier) {o : Offer} (ho : tops earlier o = true) :
    s.accept o = .ok (s.append o.record) ∧ Follows (s.append o.record) (earlier ++ [o]) := by
  have above : ∀ a ∈ s.addresses, a < o.instruction.address := by
    intro a ha
    rw [h.addresses_eq, List.mem_map] at ha
    obtain ⟨e, he, rfl⟩ := ha
    exact tops_iff.mp ho e (mem_of_mem_maximaAfter he)
  have hacc : s.accept o = .ok (s.append o.record) := by
    rw [h.sound.accept_eq, h.sound.add_above above]
    rfl
  refine ⟨hacc, h.sound.accept hacc, ?_, ?_⟩
  · simp [h.toList_eq, strictMaxima_concat, ho]
  · have hle : highest earlier ≤ o.address :=
      (highest_le_iff _ _).mpr fun e he => UInt32.le_of_lt (tops_iff.mp ho e he)
    rw [addresses_append, List.getLast?_concat, address_record, if_neg (by simp), highest_concat,
      if_pos hle]
    rfl

/-- Any other offer is refused as the history says, and the store stays as it is. -/
theorem Follows.step_of_not_tops (h : Follows s earlier) {o : Offer} (ho : tops earlier o = false) :
    (∃ e, s.accept o = .error e ∧ verdict earlier o = .error e) ∧ Follows s (earlier ++ [o]) := by
  -- Some earlier offer is not below this one, so the last address is not below it either.
  obtain ⟨e, he, hnot⟩ : ∃ e ∈ earlier, ¬ e.address < o.address := by
    simpa [tops] using ho
  have hle : o.address ≤ highest earlier :=
    UInt32.le_trans (UInt32.not_lt.mp hnot) (le_highest he)
  have hlast : s.addresses.getLast? = some (highest earlier) := by
    rw [h.last_eq, if_neg (List.ne_nil_of_mem he)]
  refine ⟨?_, h.sound, ?_, ?_⟩
  · rw [h.sound.accept_eq]
    rcases h.sound.add_cases o.instruction with ⟨above, _⟩ | ⟨hmem, e⟩ | ⟨hnew, last, hl, _, e⟩
    · have := above _ (List.mem_of_getLast? hlast)
      exact absurd this (UInt32.not_lt.mpr hle)
    · rw [h.addresses_eq, List.mem_map] at hmem
      obtain ⟨d, hd, hda⟩ := hmem
      refine ⟨.duplicateAddress o.address, by rw [e]; rfl, ?_⟩
      have hany : ((strictMaxima earlier).any fun e => decide (e.address = o.address)) = true :=
        List.any_eq_true.mpr ⟨d, hd, decide_eq_true hda⟩
      simp [verdict, ho, hany]
    · obtain rfl : last = highest earlier := Option.some.inj (hl.symm.trans hlast)
      refine ⟨.addressOutOfOrder o.address (highest earlier), by rw [e]; rfl, ?_⟩
      have hany : ((strictMaxima earlier).any fun e => decide (e.address = o.address)) = false := by
        rw [List.any_eq_false]
        intro d hd hda
        refine hnew ?_
        rw [h.addresses_eq, List.mem_map]
        exact ⟨d, hd, of_decide_eq_true hda⟩
      simp [verdict, ho, hany]
  · simp [h.toList_eq, strictMaxima_concat, ho]
  · rw [hlast, if_neg (by simp), highest_concat]
    split
    · rename_i hge
      rw [UInt32.le_antisymm hle hge]
    · rfl

/-- One offer: the answer is the verdict of the history, and the next store follows the longer
history. -/
theorem Follows.step (h : Follows s earlier) (o : Offer) :
    (tops earlier o = true ∧ verdict earlier o = .ok () ∧
      ∃ s', s.accept o = .ok s' ∧ Follows s' (earlier ++ [o])) ∨
    (tops earlier o = false ∧ ∃ e, verdict earlier o = .error e ∧
      s.accept o = .error e ∧ Follows s (earlier ++ [o])) := by
  cases ho : tops earlier o with
  | true =>
    obtain ⟨hacc, hnext⟩ := h.step_of_tops ho
    exact Or.inl ⟨rfl, by simp [verdict, ho], _, hacc, hnext⟩
  | false =>
    obtain ⟨⟨e, hacc, hv⟩, hnext⟩ := h.step_of_not_tops ho
    exact Or.inr ⟨rfl, e, hv, hacc, hnext⟩

/-! ## Whole histories -/

theorem Follows.run (h : Follows s earlier) (os : List Offer) :
    Follows (s.run os) (earlier ++ os) := by
  induction os generalizing s earlier with
  | nil => rwa [List.append_nil]
  | cons o os ih =>
    rw [List.append_cons]
    rcases h.step o with ⟨_, _, s', hacc, hnext⟩ | ⟨_, e, _, hacc, hnext⟩
    · simp only [Store.run, hacc]; exact ih hnext
    · simp only [Store.run, hacc]; exact ih hnext

theorem Follows.accepted_eq (h : Follows s earlier) (os : List Offer) :
    s.accepted os = maximaAfter earlier os := by
  induction os generalizing s earlier with
  | nil => rfl
  | cons o os ih =>
    rcases h.step o with ⟨ho, _, s', hacc, hnext⟩ | ⟨ho, e, _, hacc, hnext⟩
    · simp only [accepted, hacc, maximaAfter, ho, ih hnext, ↓reduceIte]
    · simp only [accepted, hacc, maximaAfter, ho, ih hnext, Bool.false_eq_true, ↓reduceIte]

theorem Follows.answers_eq (h : Follows s earlier) (os : List Offer) :
    s.answers os = os.mapIdx fun k o => verdict (earlier ++ os.take k) o := by
  induction os generalizing s earlier with
  | nil => rfl
  | cons o os ih =>
    have hstep : ∀ s', Follows s' (earlier ++ [o]) → s'.answers os =
        os.mapIdx fun k e => verdict (earlier ++ (o :: os).take (k + 1)) e := by
      intro s' h'
      simpa using ih h'
    rw [List.mapIdx_cons, List.take_zero, List.append_nil]
    rcases h.step o with ⟨_, hv, s', hacc, hnext⟩ | ⟨_, e, hv, hacc, hnext⟩
    · simp only [answers, hacc, hv, hstep s' hnext]
    · simp only [answers, hacc, hv, hstep s hnext]

/-- **Acceptance over whole histories.** Each offer is answered as the history before it calls
for, so exactly the strict maxima are taken. The store is the one that these alone build, so no
later query, visit or offer can tell the two histories apart; it lists their records in order, and
branches and targets are those of the strict maxima. -/
theorem answers_eq_verdicts_and_run_eq_maxima (os : List Offer) :
    empty.answers os = (os.mapIdx fun k o => verdict (os.take k) o) ∧
    empty.accepted os = strictMaxima os ∧
    empty.run os = empty.run (strictMaxima os) ∧
    (empty.run os).toList = (strictMaxima os).map Offer.record ∧
    (empty.run os).branches = ((strictMaxima os).map Offer.record).filter Instruction.isBranch ∧
    ∀ t, t ∈ (empty.run os).targetList ↔
      ∃ o ∈ strictMaxima os, o.instruction.target? = some t := by
  have h : Follows (empty.run os) os := follows_empty.run os
  have hacc : empty.accepted os = strictMaxima os := follows_empty.accepted_eq os
  refine ⟨follows_empty.answers_eq os, hacc, ?_, h.toList_eq, ?_, ?_⟩
  · rw [← hacc, run_accepted]
  · rw [h.sound.branches_eq_filter, h.toList_eq]
  · intro t
    rw [mem_targetList, h.sound.targets, h.toList_eq]
    constructor
    · rintro ⟨i, hi, ht⟩
      obtain ⟨o, ho, rfl⟩ := List.mem_map.mp hi
      exact ⟨o, ho, (target?_record o).symm.trans ht⟩
    · rintro ⟨o, ho, ht⟩
      exact ⟨o.record, List.mem_map_of_mem ho, (target?_record o).trans ht⟩

end Store

end Bytecode
