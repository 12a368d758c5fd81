import Bytecode.Store.Basic

/-!
# Runs of the store

Whole histories: instructions are offered one after another, and comments are put on those that are
taken. A run goes on after a refusal; a load stops at the first one.
-/

namespace Bytecode

/-- An instruction offered to a store, and the comments set on it, in turn, once it is taken. -/
structure Offer where
  instruction : Instruction
  comments : List String := []
  deriving DecidableEq, Repr

namespace Store

/-- Adds an instruction and sets comments on it. -/
def accept (s : Store) (o : Offer) : Except StoreError Store :=
  (s.add o.instruction).map fun s =>
    o.comments.foldl (fun s text => s.setComment o.instruction.address text) s

/-- The store after some offers; a refused one leaves it as it was. -/
def run (s : Store) : List Offer → Store
  | [] => s
  | o :: os =>
    match s.accept o with
    | .ok s' => run s' os
    | .error _ => run s os

/-- What each of some offers is answered. -/
def answers (s : Store) : List Offer → List (Except StoreError Unit)
  | [] => []
  | o :: os =>
    match s.accept o with
    | .ok s' => .ok () :: answers s' os
    | .error e => .error e :: answers s os

/-- The store of some instructions, all of which have to be taken. -/
def load (s : Store) : List Instruction → Except StoreError Store
  | [] => .ok s
  | i :: is =>
    match s.add i with
    | .ok s' => load s' is
    | .error e => .error e

end Store

end Bytecode
