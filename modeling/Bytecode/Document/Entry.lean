import Bytecode.Document.Operand
import Bytecode.Json.Record

/-!
# Entries of a listing

An entry is an instruction as a listing gives it: a target makes it a branch, whatever the target is,
and every other member than the address and the opcode may be left out.
-/

namespace Bytecode

structure Entry where
  address : Address
  opcode : String
  operands : List Operand := []
  target : Option Address := none
  comment : Option String := none
  deriving DecidableEq, Repr

namespace Entry

/-- The instruction that the entry gives. -/
def instruction (e : Entry) : Instruction where
  address := e.address
  opcode := e.opcode
  operands := e.operands
  kind := match e.target with
    | some t => .branch t
    | none => .plain
  comment := e.comment

/-- The members read so far. -/
structure Draft where
  address : Option Address := none
  opcode : Option String := none
  operands : Option (List Operand) := none
  target : Option (Option Address) := none
  comment : Option (Option String) := none

def Draft.finish (d : Draft) : Except String Entry :=
  match d.address, d.opcode with
  | some address, some opcode =>
    .ok ⟨address, opcode, d.operands.getD [], d.target.getD none, d.comment.getD none⟩
  | none, _ => .error "address"
  | some _, none => .error "opcode"

def addressField : Json.Field Draft :=
  .of "address" Draft.address (fun v d => { d with address := some v }) .word

def opcodeField : Json.Field Draft :=
  .of "opcode" Draft.opcode (fun v d => { d with opcode := some v }) .text

def operandsField : Json.Field Draft :=
  .of "operands" Draft.operands (fun v d => { d with operands := some v }) (.list Operand.decoder)

def targetField : Json.Field Draft :=
  .of "target" Draft.target (fun v d => { d with target := some v }) (.nullable .word)

def commentField : Json.Field Draft :=
  .of "comment" Draft.comment (fun v d => { d with comment := some v }) (.nullable .text)

def record : Json.Record Draft Entry where
  title := "struct Entry"
  fields := [addressField, opcodeField, operandsField, targetField, commentField]
  blank := {}
  finish := Draft.finish

def decoder : Json.Decoder Entry := record.decoder

end Entry

end Bytecode
