import Bytecode.Proofs.Store.Acceptance
import Bytecode.Proofs.Store.Visits

/-!
# Comments do not interfere

Taking all comments away commutes with everything a store does: with an addition, a new comment, a
whole history (`bare_run`) and each query. So two histories that differ in their comments only reach
stores that are equal once these are taken away, and get the same answers on the way.

* `Store.bare`, `Offer.bare`, `Event.bare`: a store, an offer and a call without comments;
* `AlikeButComments`: two stores answer alike, comments aside, which they do if they are equal
  without them (`alike_of_bare_eq`);
* `Offer.allComments`: all comments that an offer brings; the last one is what the store keeps
  (`map_comment_run`) and what every view of the store shows (`comment_of_seen_run`).
-/

namespace Bytecode

namespace Offer

/-- The offer without comments, neither on the instruction nor set on it later. -/
def bare (o : Offer) : Offer := ⟨o.instruction.bare, []⟩

/-- All comments that an offer brings, in turn: the one that its instruction has, and those that are
set on it once it is taken. -/
def allComments (o : Offer) : List String := o.instruction.comment.toList ++ o.comments

/-- Of the comments of an offer its record has the last one, and nothing else changes. -/
theorem record_spec (o : Offer) :
    o.record.bare = o.instruction.bare ∧ o.record.comment = o.allComments.getLast? := by
  unfold record allComments
  cases h : o.comments.getLast? with
  | none =>
    rw [List.getLast?_append, h, Option.none_or]
    cases o.instruction.comment <;> exact ⟨rfl, rfl⟩
  | some text =>
    rw [List.getLast?_append, h, Option.some_or]
    exact ⟨rfl, rfl⟩

end Offer

/-- The call without the comment on its instruction. -/
def Event.bare : Event → Event
  | .label a => .label a
  | .instruction i => .instruction i.bare

namespace Store

/-- The store with all comments taken away. -/
def bare (s : Store) : Store :=
  { s with instructions := s.instructions.map Instruction.bare }

/-! ## Building -/

@[simp]
theorem contains_bare (s : Store) (a : Address) : s.bare.contains a = s.contains a := rfl

@[simp]
theorem isTarget_bare (s : Store) (t : Address) : s.bare.isTarget t = s.isTarget t := rfl

@[simp]
theorem targetList_bare (s : Store) : s.bare.targetList = s.targetList := rfl

@[simp]
theorem toList_bare (s : Store) : s.bare.toList = s.toList.map Instruction.bare := by
  simp [toList, bare]

@[simp]
theorem size_bare (s : Store) : s.bare.size = s.size := by
  simp [size, bare]

theorem getElem?_bare (s : Store) (p : Nat) :
    s.bare.instructions[p]? = s.instructions[p]?.map Instruction.bare := by
  simp [bare]

theorem bare_empty : empty.bare = empty := by
  simp [bare, empty]

theorem last?_bare (s : Store) : s.bare.last? = s.last?.map Instruction.bare := by
  rw [last?_eq, last?_eq, toList_bare, List.getLast?_map]

theorem bare_append (s : Store) (i : Instruction) :
    (s.append i).bare = s.bare.append i.bare := by
  have hsize : (s.instructions.map Instruction.bare).size = s.instructions.size := Array.size_map
  unfold append bare
  simp only [Array.map_push, size, hsize]
  rfl

theorem bare_setComment (s : Store) (a : Address) (text : String) :
    (s.setComment a text).bare = s.bare := by
  unfold setComment
  cases s.positions[a]? with
  | none => rfl
  | some p =>
    have hsame : (s.instructions.modify p (·.withComment text)).map Instruction.bare =
        s.instructions.map Instruction.bare := by
      refine Array.ext_getElem? fun q => ?_
      rw [Array.getElem?_map, Array.getElem?_map, Array.getElem?_modify]
      split
      · rw [Option.map_map]
        rfl
      · rfl
    unfold bare
    simp only [hsame]

theorem bare_add (s : Store) (i : Instruction) :
    s.bare.add i.bare = (s.add i).map bare := by
  unfold add
  rw [contains_bare, last?_bare]
  change (if s.contains i.address = true then _ else _) = _
  cases s.contains i.address with
  | true => rfl
  | false =>
    cases s.last? with
    | none => exact congrArg Except.ok (s.bare_append i).symm
    | some last =>
      change (if i.address < last.address then _ else _) =
        Except.map bare (if i.address < last.address then _ else _)
      split
      · rfl
      · exact congrArg Except.ok (s.bare_append i).symm

theorem bare_accept (s : Store) (o : Offer) : s.bare.accept o.bare = (s.accept o).map bare := by
  have hfold : ∀ (texts : List String) (s : Store) (a : Address),
      (texts.foldl (fun s text => s.setComment a text) s).bare = s.bare := by
    intro texts
    induction texts with
    | nil => exact fun s a => rfl
    | cons text texts ih => exact fun s a => (ih _ a).trans (s.bare_setComment a text)
  unfold accept Offer.bare
  rw [bare_add]
  cases s.add o.instruction with
  | error e => rfl
  | ok s' => exact congrArg Except.ok (hfold _ _ _).symm

/-- A history without its comments leads to the store without comments. -/
theorem bare_run (s : Store) (os : List Offer) :
    s.bare.run (os.map Offer.bare) = (s.run os).bare := by
  induction os generalizing s with
  | nil => rfl
  | cons o os ih =>
    rw [List.map_cons, run, run, bare_accept]
    cases s.accept o with
    | ok s' => exact ih s'
    | error e => exact ih s

theorem answers_bare (s : Store) (os : List Offer) :
    s.bare.answers (os.map Offer.bare) = s.answers os := by
  induction os generalizing s with
  | nil => rfl
  | cons o os ih =>
    rw [List.map_cons, answers, answers, bare_accept]
    cases s.accept o with
    | ok s' => exact congrArg (_ :: ·) (ih s')
    | error e => exact congrArg (_ :: ·) (ih s)

/-! ## Reading -/

theorem get?_bare (s : Store) (a : Address) : s.bare.get? a = (s.get? a).map Instruction.bare := by
  unfold get?
  rw [Option.map_bind]
  exact congrArg _ (funext fun p => getElem?_bare s p)

theorem next?_bare (s : Store) (a : Address) :
    s.bare.next? a = (s.next? a).map Instruction.bare := by
  unfold next?
  rw [Option.map_bind]
  exact congrArg _ (funext fun p => getElem?_bare s (p + 1))

theorem prev?_bare (s : Store) (a : Address) :
    s.bare.prev? a = (s.prev? a).map Instruction.bare := by
  unfold prev?
  rw [Option.map_bind]
  refine congrArg _ (funext fun p => ?_)
  cases p with
  | zero => rfl
  | succ p => exact getElem?_bare s p

theorem slice_bare (s : Store) (start stop : Address) :
    s.bare.slice start stop = (s.slice start stop).map (List.map Instruction.bare) := by
  have hpositions : s.bare.positions = s.positions := rfl
  unfold slice
  rw [toList_bare, hpositions]
  cases s.positions[start]? with
  | none => rfl
  | some p =>
    simp only [Except.map, ← List.map_drop, List.takeWhile_map]
    rfl

theorem branches_bare (s : Store) : s.bare.branches = s.branches.map Instruction.bare := by
  unfold branches
  rw [List.map_filterMap]
  exact congrArg (List.filterMap · _) (funext fun p => getElem?_bare s p)

/-! ## Visits -/

theorem eventsOf_bare (s : Store) (is : List Instruction) :
    s.bare.eventsOf (is.map Instruction.bare) = (s.eventsOf is).map Event.bare := by
  induction is with
  | nil => rfl
  | cons i is ih =>
    have hone : s.bare.eventsAt i.bare = (s.eventsAt i).map Event.bare := by
      unfold eventsAt
      change (if s.isTarget i.address = true then _ else _) = _
      cases s.isTarget i.address <;> rfl
    rw [List.map_cons, eventsOf_cons, eventsOf_cons, List.map_append, ih, hone]

theorem visitCalls_bare (s : Store) : s.bare.visitCalls = s.visitCalls.map Event.bare := by
  rw [visitCalls_eq, visitCalls_eq, events, toList_bare, eventsOf_bare]
  rfl

theorem rangeCalls_bare (s : Store) (start stop : Address) :
    s.bare.rangeCalls start stop = (s.rangeCalls start stop).map (List.map Event.bare) := by
  rw [rangeCalls_eq, rangeCalls_eq, slice_bare]
  cases s.slice start stop with
  | error e => rfl
  | ok is => exact congrArg Except.ok (s.eventsOf_bare is)

/-! ## Two stores -/

/-- Two stores answer alike, comments aside. -/
structure AlikeButComments (s s' : Store) : Prop where
  size : s.size = s'.size
  contains : ∀ a, s.contains a = s'.contains a
  listed : s.toList.map Instruction.bare = s'.toList.map Instruction.bare
  found : ∀ a, (s.get? a).map Instruction.bare = (s'.get? a).map Instruction.bare
  next : ∀ a, (s.next? a).map Instruction.bare = (s'.next? a).map Instruction.bare
  prev : ∀ a, (s.prev? a).map Instruction.bare = (s'.prev? a).map Instruction.bare
  slice : ∀ start stop, (s.slice start stop).map (List.map Instruction.bare) =
    (s'.slice start stop).map (List.map Instruction.bare)
  branches : s.branches.map Instruction.bare = s'.branches.map Instruction.bare
  targets : s.targetList = s'.targetList ∧ ∀ t, s.isTarget t = s'.isTarget t
  calls : s.visitCalls.map Event.bare = s'.visitCalls.map Event.bare
  rangeCalls : ∀ start stop, (s.rangeCalls start stop).map (List.map Event.bare) =
    (s'.rangeCalls start stop).map (List.map Event.bare)

/-- Stores that are equal without their comments answer alike. -/
theorem alike_of_bare_eq {s s' : Store} (h : s.bare = s'.bare) : AlikeButComments s s' where
  size := by rw [← size_bare, h, size_bare]
  contains a := by rw [← contains_bare, h, contains_bare]
  listed := by rw [← toList_bare, h, toList_bare]
  found a := by rw [← get?_bare, h, get?_bare]
  next a := by rw [← next?_bare, h, next?_bare]
  prev a := by rw [← prev?_bare, h, prev?_bare]
  slice start stop := by rw [← slice_bare, h, slice_bare]
  branches := by rw [← branches_bare, h, branches_bare]
  targets := ⟨by rw [← targetList_bare, h, targetList_bare],
    fun t => by rw [← isTarget_bare, h, isTarget_bare]⟩
  calls := by rw [← visitCalls_bare, h, visitCalls_bare]
  rangeCalls start stop := by rw [← rangeCalls_bare, h, rangeCalls_bare]

/-- Histories that differ in their comments only reach the same store, comments aside, and are
answered alike. -/
theorem run_of_bare_eq {os os' : List Offer} (same : os.map Offer.bare = os'.map Offer.bare) :
    (empty.run os).bare = (empty.run os').bare ∧ empty.answers os = empty.answers os' := by
  have hrun : ∀ os, (empty.run os).bare = empty.run (os.map Offer.bare) := fun os => by
    rw [← bare_run, bare_empty]
  have hanswers : ∀ os, empty.answers os = empty.answers (os.map Offer.bare) := fun os => by
    rw [← answers_bare empty os, bare_empty]
  exact ⟨by rw [hrun, hrun, same], by rw [hanswers os, hanswers os', same]⟩

/-- Each stored instruction is one that was taken, with the last of its comments. -/
theorem map_comment_run (os : List Offer) :
    (empty.run os).toList.map (fun i => (i.bare, i.comment)) =
      (empty.accepted os).map fun o => (o.instruction.bare, o.allComments.getLast?) := by
  have hlist := (follows_empty.run os).toList_eq
  rw [List.nil_append] at hlist
  rw [hlist, Offer.strictMaxima, ← follows_empty.accepted_eq os, List.map_map]
  refine List.map_congr_left fun o _ => ?_
  simp only [Function.comp_apply, o.record_spec.1, o.record_spec.2]

/-! ## Where a comment is seen -/

/-- Some query or visit of the store gives the instruction. -/
inductive Seen (s : Store) (i : Instruction) : Prop where
  | listed (h : i ∈ s.toList)
  | found (a : Address) (h : s.get? a = some i)
  | next (a : Address) (h : s.next? a = some i)
  | prev (a : Address) (h : s.prev? a = some i)
  | slice (start stop : Address) (is : List Instruction) (h : s.slice start stop = .ok is)
    (mem : i ∈ is)
  | branch (h : i ∈ s.branches)
  | visited (h : .instruction i ∈ s.visitCalls)
  | visitedRange (start stop : Address) (es : List Event) (h : s.rangeCalls start stop = .ok es)
    (mem : .instruction i ∈ es)

variable {s : Store} {i : Instruction}

theorem mem_toList_of_getElem? {p : Nat} (h : s.instructions[p]? = some i) : i ∈ s.toList :=
  Array.mem_toList_iff.mpr (Array.mem_of_getElem? h)

theorem mem_toList_of_slice {start stop : Address} {is : List Instruction}
    (h : s.slice start stop = .ok is) (hi : i ∈ is) : i ∈ s.toList := by
  unfold slice at h
  split at h
  · cases h
    exact List.mem_of_mem_drop ((List.takeWhile_sublist _).mem hi)
  · cases h

/-- All views are of one list. -/
theorem Seen.mem_toList (h : s.Seen i) : i ∈ s.toList := by
  cases h with
  | listed h => exact h
  | found a h =>
    obtain ⟨p, _, hp⟩ := Option.bind_eq_some_iff.mp h
    exact mem_toList_of_getElem? hp
  | next a h =>
    obtain ⟨p, _, hp⟩ := Option.bind_eq_some_iff.mp h
    exact mem_toList_of_getElem? hp
  | prev a h =>
    obtain ⟨p, _, hp⟩ := Option.bind_eq_some_iff.mp h
    cases p with
    | zero => cases hp
    | succ p => exact mem_toList_of_getElem? hp
  | slice start stop is h mem => exact mem_toList_of_slice h mem
  | branch h =>
    obtain ⟨p, _, hp⟩ := List.mem_filterMap.mp h
    exact mem_toList_of_getElem? hp
  | visited h =>
    rw [visitCalls_eq] at h
    exact (s.instruction_mem_eventsOf_iff s.toList i).mp h
  | visitedRange start stop es h mem =>
    rw [rangeCalls_eq] at h
    cases hslice : s.slice start stop with
    | error e =>
      rw [hslice] at h
      cases h
    | ok is =>
      rw [hslice] at h
      cases h
      exact mem_toList_of_slice hslice ((s.instruction_mem_eventsOf_iff is i).mp mem)

/-- Wherever an instruction is seen, it is one that was taken and has the last of its comments. -/
theorem comment_of_seen_run (os : List Offer) (h : (empty.run os).Seen i) :
    ∃ o ∈ empty.accepted os, i.bare = o.instruction.bare ∧ i.comment = o.allComments.getLast? := by
  have hmem := List.mem_map_of_mem (f := fun i => (i.bare, i.comment)) h.mem_toList
  rw [map_comment_run] at hmem
  obtain ⟨o, ho, heq⟩ := List.mem_map.mp hmem
  obtain ⟨hbare, hcomment⟩ := Prod.mk.inj heq
  exact ⟨o, ho, hbare.symm, hcomment.symm⟩

end Store

end Bytecode
