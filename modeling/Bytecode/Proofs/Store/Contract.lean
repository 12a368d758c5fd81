import Bytecode.Proofs.Sequencing
import Bytecode.Proofs.Store.Visits

/-!
# Visits and writers that fail

What a visit owes to any writer: the calls of the stored instructions in address order, one after
the other, until one of them fails.

* `expectedCalls`: these calls, read off the list of instructions alone;
* `Writer.watched`: a writer that does what another one does and notes each call before it is made;
* `Carries`: some calls all succeed, one after the other;
* `Contract`: either all calls succeed, or the visit ends with the first one that fails;
* `contract_forM`: calls made one after the other keep the contract, and the note of them is exact.

A writer is any computation with a state and errors of its own, so it may fail by any rule.
-/

namespace Bytecode

/-- The address that a call is about. -/
def Event.address : Event → Address
  | .label a => a
  | .instruction i => i.address

/-- The calls that some instructions ask for: each one's own, after the one of its label if some
branch among them goes there. -/
def expectedCalls (is : List Instruction) : List Event :=
  is.flatMap fun i =>
    (if is.any fun b => decide (b.target? = some i.address) then [.label i.address] else []) ++
      [.instruction i]

/-! ## Watching a writer -/

section Watching

variable {ε σ : Type}

/-- Does what the writer does, and notes each call before it is made. -/
def Writer.watched (w : Writer (ExceptT ε (StateM σ))) :
    Writer (ExceptT ε (StateM (σ × List Event))) where
  label a := fun (state, calls) =>
    let (result, next) := (w.label a).run state
    (result, next, calls ++ [.label a])
  instruction i := fun (state, calls) =>
    let (result, next) := (w.instruction i).run state
    (result, next, calls ++ [.instruction i])

/-- What is seen of a visit: its calls, what it returns, and how it leaves the writer. -/
structure Seen (ε σ : Type) where
  calls : List Event
  result : Except ε Unit
  state : σ

/-- What is seen of a computation that works on a watched writer. -/
def watch (state : σ) (visit : ExceptT ε (StateM (σ × List Event)) Unit) : Seen ε σ :=
  let (result, next, calls) := visit.run.run (state, [])
  ⟨calls, result, next⟩

/-- The calls all succeed, one after the other. -/
inductive Carries (w : Writer (ExceptT ε (StateM σ))) : σ → List Event → σ → Prop where
  | nil (state : σ) : Carries w state [] state
  | cons {state middle next : σ} {e : Event} {es : List Event}
      (first : (w.handle e).run.run state = (.ok (), middle)) (rest : Carries w middle es next) :
      Carries w state (e :: es) next

/-- What a visit may look like that has these calls to make. -/
inductive Contract (w : Writer (ExceptT ε (StateM σ))) (state : σ) (es : List Event) :
    Seen ε σ → Prop where
  /-- No call fails, and all are made. -/
  | whole {next : σ} (good : Carries w state es next) : Contract w state es ⟨es, .ok (), next⟩
  /-- Some calls succeed and the next one fails: it is the last one made, and its error is
  returned. -/
  | cut {before after : List Event} {e : Event} {middle next : σ} {error : ε}
      (parts : es = before ++ e :: after) (good : Carries w state before middle)
      (bad : (w.handle e).run.run middle = (.error error, next)) :
      Contract w state es ⟨before ++ [e], .error error, next⟩

/-- A visit of a range as one computation: without a range it fails as `refuse` says. -/
def Store.rangeVisit (s : Store) (refuse : StoreError → ε) (start stop : Address)
    (w : Writer (ExceptT ε (StateM σ))) : ExceptT ε (StateM σ) Unit :=
  match s.visitRange start stop w with
  | .ok visit => visit
  | .error e => throw (refuse e)

theorem run_handle_watched (w : Writer (ExceptT ε (StateM σ))) (e : Event) (state : σ)
    (calls : List Event) :
    (w.watched.handle e).run.run (state, calls) =
      (((w.handle e).run.run state).1, ((w.handle e).run.run state).2, calls ++ [e]) := by
  cases e <;> rfl

theorem Contract.cons {w : Writer (ExceptT ε (StateM σ))} {state middle : σ} {e : Event}
    {es : List Event} {seen : Seen ε σ} (first : (w.handle e).run.run state = (.ok (), middle))
    (rest : Contract w middle es seen) :
    Contract w state (e :: es) { seen with calls := e :: seen.calls } := by
  cases rest with
  | whole good => exact .whole (.cons first good)
  | cut parts good bad => exact .cut (congrArg (e :: ·) parts) (.cons first good) bad

theorem Carries.keeps {w : Writer (ExceptT ε (StateM σ))} {keep : σ → Prop}
    (step : ∀ e state, keep state →
      ∃ next, (w.handle e).run.run state = (.ok (), next) ∧ keep next)
    {state next : σ} {es : List Event} (h : Carries w state es next) (start : keep state) :
    keep next := by
  induction h with
  | nil state => exact start
  | cons first rest ih =>
    obtain ⟨middle, hrun, hkeep⟩ := step _ _ start
    rw [first] at hrun
    exact ih ((Prod.mk.inj hrun).2 ▸ hkeep)

/-- A writer that takes every call, as long as its state keeps some property, is called for all. -/
theorem Contract.calls_eq {w : Writer (ExceptT ε (StateM σ))} {state : σ} {es : List Event}
    {seen : Seen ε σ} (h : Contract w state es seen) (keep : σ → Prop)
    (step : ∀ e state, keep state →
      ∃ next, (w.handle e).run.run state = (.ok (), next) ∧ keep next)
    (start : keep state) : seen.calls = es := by
  cases h with
  | whole good => rfl
  | cut parts good bad =>
    obtain ⟨next, hrun, _⟩ := step _ _ (good.keeps step start)
    rw [bad] at hrun
    cases hrun

/-- Calls that are made one after the other keep the contract; watching them changes neither what is
returned nor how the writer is left. -/
theorem contract_forM (w : Writer (ExceptT ε (StateM σ))) (es : List Event) (state : σ)
    (calls : List Event) :
    ∃ seen, Contract w state es seen ∧
      (es.forM w.handle).run.run state = (seen.result, seen.state) ∧
      (es.forM w.watched.handle).run.run (state, calls) =
        (seen.result, seen.state, calls ++ seen.calls) := by
  -- The watcher may have noted calls before, and the writer be in any state by then.
  induction es generalizing state calls with
  | nil => exact ⟨⟨[], .ok (), state⟩, .whole (.nil state), rfl, by rw [List.append_nil]; rfl⟩
  | cons e es ih =>
    rw [run_forM_cons, run_forM_cons, run_handle_watched]
    rcases hcall : (w.handle e).run.run state with ⟨error | ⟨⟨⟩⟩, middle⟩
    · have parts : e :: es = [] ++ e :: es := rfl
      exact ⟨⟨[e], .error error, middle⟩, .cut parts (.nil state) hcall, rfl, rfl⟩
    · obtain ⟨seen, hseen, hrun, hwatched⟩ := ih middle (calls ++ [e])
      refine ⟨{ seen with calls := e :: seen.calls }, hseen.cons hcall, hrun, ?_⟩
      simp only [hwatched, List.append_assoc, List.singleton_append]

theorem watch_forM (w : Writer (ExceptT ε (StateM σ))) (es : List Event) (state : σ) :
    Contract w state es (watch state (es.forM w.watched.handle)) ∧
      (es.forM w.handle).run.run state =
        ((watch state (es.forM w.watched.handle)).result,
          (watch state (es.forM w.watched.handle)).state) := by
  obtain ⟨seen, hseen, hrun, hwatched⟩ := contract_forM w es state []
  have hwatch : watch state (es.forM w.watched.handle) = seen := by
    rw [watch, hwatched]
    rfl
  rw [hwatch]
  exact ⟨hseen, hrun⟩

end Watching

/-! ## The calls of a store -/

namespace Store

variable {s : Store}

theorem Sound.isTarget_eq_any (h : s.Sound) (a : Address) :
    s.isTarget a = s.toList.any fun b => decide (b.target? = some a) := by
  rw [Bool.eq_iff_iff, h.targets, List.any_eq_true]
  simp only [decide_eq_true_eq]

theorem Sound.events_eq_expectedCalls (h : s.Sound) : s.events = expectedCalls s.toList := by
  unfold events eventsOf expectedCalls
  congr 1
  funext i
  rw [eventsAt, h.isTarget_eq_any]
  split <;> rfl

theorem eventsOf_filter (s : Store) (keep : Address → Bool) (is : List Instruction) :
    s.eventsOf (is.filter fun i => keep i.address) =
      (s.eventsOf is).filter fun e => keep e.address := by
  induction is with
  | nil => rfl
  | cons i is ih =>
    have hat : (s.eventsAt i).filter (fun e => keep e.address) =
        if keep i.address then s.eventsAt i else [] := by
      unfold eventsAt
      cases s.isTarget i.address <;> cases hk : keep i.address <;>
        simp [Event.address, hk]
    rw [eventsOf_cons, List.filter_append, hat, ← ih, List.filter_cons]
    split
    · exact eventsOf_cons ..
    · rfl

/-- **The contract of a visit, for every writer.** A visit makes the calls of the listed
instructions, which are in address order, up to and including the first one that fails, and returns
its error; if none fails, it makes all of them. A range that starts at a stored address does the
same with the calls between its ends. A range that starts anywhere else makes no call and leaves the
writer as it was, whatever its end. What is noted of a visit is what it does to the writer itself. -/
theorem visit_keeps_contract (os : List Offer) {ε σ : Type} (w : Writer (ExceptT ε (StateM σ)))
    (state : σ) (refuse : StoreError → ε) :
    let s := empty.run os
    let whole := watch state (s.visit w.watched)
    (s.toList.map (·.address)).Pairwise (· < ·) ∧
    Contract w state (expectedCalls s.toList) whole ∧
    (s.visit w).run.run state = (whole.result, whole.state) ∧
    ∀ start stop,
      let range := watch state (s.rangeVisit refuse start stop w.watched)
      (s.rangeVisit refuse start stop w).run.run state = (range.result, range.state) ∧
      (start ∈ s.toList.map (·.address) →
        Contract w state ((expectedCalls s.toList).filter fun e =>
          decide (start ≤ e.address) && decide (e.address ≤ stop)) range) ∧
      (start ∉ s.toList.map (·.address) →
        range = ⟨[], .error (refuse (.rangeStartNotFound start)), state⟩ ∧
        (StoreError.rangeStartNotFound start).kind = .notFound ∧
        (StoreError.rangeStartNotFound start).message =
          "no instruction at " ++ start.raw ++ " to start a slice from") := by
  intro s whole
  have h : s.Sound := sound_run os
  have hwhole := watch_forM w s.events state
  rw [← visit_eq_forM, ← visit_eq_forM, h.events_eq_expectedCalls] at hwhole
  refine ⟨h.ascending, hwhole.1, hwhole.2, fun start stop => ?_⟩
  cases hs : s.contains start with
  | true =>
    have hrange := watch_forM w (s.eventsOf (s.between start stop)) state
    have hcalls : s.eventsOf (s.between start stop) = (expectedCalls s.toList).filter fun e =>
        decide (start ≤ e.address) && decide (e.address ≤ stop) := by
      rw [← h.events_eq_expectedCalls]
      exact s.eventsOf_filter (fun a => decide (start ≤ a) && decide (a ≤ stop)) s.toList
    simp only [rangeVisit, h.visitRange_eq hs]
    refine ⟨hrange.2, fun _ => hcalls ▸ hrange.1, fun hnot => ?_⟩
    exact absurd ((h.contains_iff start).mp hs) hnot
  | false =>
    have hnot : start ∉ s.toList.map (·.address) := fun hmem => by
      rw [(h.contains_iff start).mpr hmem] at hs
      cases hs
    have herror : ∀ {τ : Type} (v : Writer (ExceptT ε (StateM τ))),
        s.visitRange start stop v = .error (.rangeStartNotFound start) := fun v => by
      rw [visitRange, h.slice_eq_error hs]
      rfl
    simp only [rangeVisit, herror]
    exact ⟨rfl, fun hmem => absurd hmem hnot, fun _ => ⟨rfl, rfl, rfl⟩⟩

end Store

end Bytecode
