import Bytecode.Instruction
import Bytecode.Store.Error
import Std.Data.TreeMap
import Std.Data.TreeSet

/-!
# The instruction store

A store keeps the instructions of one decoding pass in the order in which they came, which has to be
ascending address order. Beside them it keeps the position of each address, the positions of the
branches, and every address that some branch may go to.

* `add`: appends an instruction, or refuses it and changes nothing;
* `setComment`: replaces the comment on a stored instruction;
* `get?`, `next?`, `prev?`, `first?`, `last?`, `slice`: reading, by address;
* `branches`, `isTarget`, `targetList`: what the branches say.
-/

namespace Bytecode

structure Store where
  /-- In ascending address order. -/
  instructions : Array Instruction := #[]
  /-- Where in `instructions` an address is. -/
  positions : Std.TreeMap Address Nat := ∅
  /-- Where in `instructions` the branches are, in order. -/
  branchPositions : Array Nat := #[]
  /-- Where branches may go, stored or not. -/
  targets : Std.TreeSet Address := ∅

namespace Store

def empty : Store := {}

/-! ## Reading -/

def toList (s : Store) : List Instruction := s.instructions.toList

def size (s : Store) : Nat := s.instructions.size

def isEmpty (s : Store) : Bool := s.size = 0

def contains (s : Store) (a : Address) : Bool := s.positions.contains a

/-- The instruction at an address. -/
def get? (s : Store) (a : Address) : Option Instruction :=
  s.positions[a]?.bind fun p => s.instructions[p]?

def first? (s : Store) : Option Instruction := s.instructions[0]?

def last? (s : Store) : Option Instruction := s.instructions.back?

/-- The instruction after the one at `a`. -/
def next? (s : Store) (a : Address) : Option Instruction :=
  s.positions[a]?.bind fun p => s.instructions[p + 1]?

/-- The instruction before the one at `a`. -/
def prev? (s : Store) (a : Address) : Option Instruction :=
  s.positions[a]?.bind fun p =>
    match p with
    | 0 => none
    | p + 1 => s.instructions[p]?

/-- The instructions from the one at `start` on, up to the last address that is not above `stop`. -/
def slice (s : Store) (start stop : Address) : Except StoreError (List Instruction) :=
  match s.positions[start]? with
  | some p => .ok ((s.toList.drop p).takeWhile fun i => i.address ≤ stop)
  | none => .error (.rangeStartNotFound start)

/-- The branches, in the order in which they were added. -/
def branches (s : Store) : List Instruction :=
  s.branchPositions.toList.filterMap fun p => s.instructions[p]?

def isTarget (s : Store) (a : Address) : Bool := s.targets.contains a

/-- Where branches may go, lowest first. -/
def targetList (s : Store) : List Address := s.targets.toList

/-! ## Building -/

/-- Puts an instruction after the last one. -/
def append (s : Store) (i : Instruction) : Store where
  instructions := s.instructions.push i
  positions := s.positions.insert i.address s.size
  branchPositions := if i.isBranch then s.branchPositions.push s.size else s.branchPositions
  targets := match i.target? with
    | some t => s.targets.insert t
    | none => s.targets

/-- Appends an instruction with a new address above all others. -/
def add (s : Store) (i : Instruction) : Except StoreError Store :=
  if s.contains i.address then .error (.duplicateAddress i.address)
  else match s.last? with
    | some last =>
      if i.address < last.address then .error (.addressOutOfOrder i.address last.address)
      else .ok (s.append i)
    | none => .ok (s.append i)

/-- Replaces the comment on the instruction at `a`, if there is one. -/
def setComment (s : Store) (a : Address) (text : String) : Store :=
  match s.positions[a]? with
  | some p => { s with instructions := s.instructions.modify p (·.withComment text) }
  | none => s

end Store

end Bytecode
