import Bytecode.Address

/-!
# Instructions

What a decoder hands over for each instruction: where it lies, what it does, its operands in order,
whether it may transfer control elsewhere, and a comment for the reader. Instructions know nothing
of their neighbours; the order belongs to the store that keeps them.
-/

namespace Bytecode

inductive Operand where
  /-- A name defined by the bytecode format. -/
  | symbol (name : String)
  | integer (value : UInt32)
  | signed (value : Int32)
  | float (value : Float)
  | text (value : String)
  /-- An address in the stream; shown as a label where one will exist. -/
  | reference (target : Address)
  deriving DecidableEq, Repr

inductive Kind where
  /-- Control goes on to the next instruction only. -/
  | plain
  /-- Control may go to `target`, which need not be a stored address. -/
  | branch (target : Address)
  deriving DecidableEq, Repr

def Kind.target? : Kind → Option Address
  | .plain => none
  | .branch t => some t

structure Instruction where
  address : Address
  opcode : String
  operands : List Operand := []
  kind : Kind := .plain
  comment : Option String := none
  deriving DecidableEq, Repr

namespace Instruction

/-- The branch target, for a branch. -/
def target? (i : Instruction) : Option Address := i.kind.target?

def isBranch (i : Instruction) : Bool := i.target?.isSome

def withComment (i : Instruction) (text : String) : Instruction :=
  { i with comment := some text }

/-- The instruction without its comment. -/
def bare (i : Instruction) : Instruction := { i with comment := none }

end Instruction

end Bytecode
