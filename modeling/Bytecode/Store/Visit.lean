import Bytecode.Store.Basic

/-!
# Visits

A visit hands the instructions to a writer in address order, and before each one that some branch may
go to, its label. The writer decides how things look, the store where labels fall.

* `visit`, `visitRange`: the whole store, or a slice of it;
* `events`: the calls of a visit as a list, for a writer that never fails.
-/

namespace Bytecode

/-- Calls that a visit makes; a call may fail in the monad, which ends the visit. -/
structure Writer (m : Type → Type) where
  label : Address → m Unit
  instruction : Instruction → m Unit

/-- One call of a visit. -/
inductive Event where
  | label (address : Address)
  | instruction (i : Instruction)
  deriving DecidableEq, Repr

/-- The call that an event stands for. -/
def Writer.handle {m : Type → Type} (w : Writer m) : Event → m Unit
  | .label a => w.label a
  | .instruction i => w.instruction i

namespace Store

/-- The calls for one instruction. -/
def eventsAt (s : Store) (i : Instruction) : List Event :=
  if s.isTarget i.address then [.label i.address, .instruction i] else [.instruction i]

/-- The calls for some instructions. -/
def eventsOf (s : Store) (is : List Instruction) : List Event := is.flatMap s.eventsAt

/-- The calls of a visit. -/
def events (s : Store) : List Event := s.eventsOf s.toList

variable {m : Type → Type} [Monad m]

/-- Hands over some instructions of the store. -/
def visitEach (s : Store) (w : Writer m) : List Instruction → m Unit
  | [] => pure ()
  | i :: is => do
    if s.isTarget i.address then w.label i.address
    w.instruction i
    visitEach s w is

def visit (s : Store) (w : Writer m) : m Unit := s.visitEach w s.toList

/-- Visits a slice. Where there is none, no call is made. -/
def visitRange (s : Store) (start stop : Address) (w : Writer m) : Except StoreError (m Unit) :=
  (s.slice start stop).map (s.visitEach w)

end Store

/-! ## Call logs -/

/-- The calls of a visit so far, the latest first, and how many more will succeed. -/
structure CallLog where
  seen : List Event := []
  left : Option Nat := none
  deriving DecidableEq, Repr

namespace CallLog

/-- Notes a call, or fails if no call is left. -/
def note (e : Event) : ExceptT Unit (StateM CallLog) Unit := do
  let r ← get
  match r.left with
  | some 0 => throw ()
  | some (n + 1) => set { r with seen := e :: r.seen, left := some n }
  | none => set { r with seen := e :: r.seen }

def writer : Writer (ExceptT Unit (StateM CallLog)) where
  label a := note (.label a)
  instruction i := note (.instruction i)

end CallLog

end Bytecode
