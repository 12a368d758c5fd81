/-!
# One computation after the other

When a computation that runs several others succeeds, each of them did; when one fails, what comes
after it is not run. Here this is said for results (`ok_of_bind`, `ok_of_forM`) and for computations
with a state, which keep the state that the failure left (`run_bind`, `run_forM_cons`).
-/

namespace Bytecode

variable {ε σ α β : Type}

theorem ok_of_bind {x : Except ε α} {f : α → Except ε β} {b : β} (h : (x >>= f) = .ok b) :
    ∃ a, x = .ok a ∧ f a = .ok b := by
  cases x with
  | error e => cases h
  | ok a => exact ⟨a, rfl, h⟩

theorem ok_of_forM {f : α → Except ε Unit} {as : List α} (h : as.forM f = .ok ()) :
    ∀ a ∈ as, f a = .ok () := by
  induction as with
  | nil => simp
  | cons a as ih =>
    change (f a >>= fun _ => as.forM f) = _ at h
    obtain ⟨⟨⟩, hfirst, hrest⟩ := ok_of_bind h
    exact List.forall_mem_cons.mpr ⟨hfirst, ih hrest⟩

theorem mapError_eq_ok_iff {δ : Type} {x : Except ε α} {f : ε → δ} {a : α} :
    x.mapError f = .ok a ↔ x = .ok a := by
  cases x with
  | error e => constructor <;> intro h <;> cases h
  | ok b =>
    change Except.ok b = _ ↔ _
    rw [Except.ok.injEq, Except.ok.injEq]

theorem map_eq_error_iff {x : Except ε α} {f : α → β} {e : ε} :
    x.map f = .error e ↔ x = .error e := by
  cases x with
  | error e' =>
    change Except.error e' = _ ↔ _
    rw [Except.error.injEq, Except.error.injEq]
  | ok a => constructor <;> intro h <;> cases h

theorem exists_map_eq_ok_iff {x : Except ε α} {f : α → β} :
    (∃ b, x.map f = .ok b) ↔ ∃ a, x = .ok a := by
  cases x <;> simp [Except.map]

theorem run_bind (x : ExceptT ε (StateM σ) α) (f : α → ExceptT ε (StateM σ) β) (state : σ) :
    (ExceptT.run (x >>= f)).run state =
      match (ExceptT.run x).run state with
      | (.ok a, next) => (ExceptT.run (f a)).run next
      | (.error e, next) => (.error e, next) := by
  rw [ExceptT.run_bind, StateT.run_bind]
  rcases (ExceptT.run x).run state with ⟨e | a, next⟩ <;> rfl

theorem run_forM_cons (f : α → ExceptT ε (StateM σ) Unit) (a : α) (as : List α) (state : σ) :
    (ExceptT.run ((a :: as).forM f)).run state =
      match (ExceptT.run (f a)).run state with
      | (.ok (), next) => (ExceptT.run (as.forM f)).run next
      | (.error e, next) => (.error e, next) := by
  rw [show (a :: as).forM f = (do f a; as.forM f) from rfl, run_bind]
  rcases (ExceptT.run (f a)).run state with ⟨e | ⟨⟩, next⟩ <;> rfl

end Bytecode
