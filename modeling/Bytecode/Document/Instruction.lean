import Bytecode.Document.Operand

/-!
# Instructions in documents

The record of an instruction as it is written: its kind by name, a target only for a branch, and a
comment only if there is one.
-/

namespace Bytecode.Instruction

def kindMembers : Kind → List (String × Json.Value)
  | .plain => [("kind", .string "plain")]
  | .branch t => [("kind", .string "branch"), ("target", .ofWord t)]

def commentMembers : Option String → List (String × Json.Value)
  | none => []
  | some text => [("comment", .string text)]

def toValue (i : Instruction) : Json.Value :=
  .object <|
    [("address", .ofWord i.address), ("opcode", .string i.opcode),
      ("operands", .list (i.operands.map Operand.toValue))] ++
    kindMembers i.kind ++ commentMembers i.comment

/-- The record on one line. -/
def compact (i : Instruction) : String := i.toValue.compact

end Bytecode.Instruction

namespace Bytecode

/-- The records of some instructions, each member on a line of its own. -/
def prettyRecords (is : List Instruction) : String :=
  (Json.Value.list (is.map Instruction.toValue)).pretty

end Bytecode
