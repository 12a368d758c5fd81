import Bytecode.Instruction
import Bytecode.Json.Decoder
import Bytecode.Json.Value

/-!
# Operands in documents

An operand is an object of one member, named after the kind of the operand. Words are written as
integers and have to be in range when they are read.
-/

namespace Bytecode

namespace Json

def Value.ofWord (n : UInt32) : Value := .number (.integer n.toNat)

/-- An unsigned 32-bit word. -/
def Decoder.word : Decoder UInt32 :=
  (Decoder.integer "u32" 0 0xFFFFFFFF).map fun n => UInt32.ofNat n.toNat

/-- A signed 32-bit word. -/
def Decoder.signedWord : Decoder Int32 :=
  (Decoder.integer "i32" (-0x80000000) 0x7FFFFFFF).map Int32.ofInt

end Json

namespace Operand

/-- The name of the member. -/
def kindName : Operand → String
  | .symbol _ => "symbol"
  | .integer _ => "integer"
  | .signed _ => "signed_integer"
  | .float _ => "float"
  | .text _ => "string"
  | .reference _ => "code_reference"

def contentValue : Operand → Json.Value
  | .symbol name => .string name
  | .integer n => .ofWord n
  | .signed n => .number (.integer n.toInt)
  | .float x => .number (.float x)
  | .text s => .string s
  | .reference a => .ofWord a

def toValue (op : Operand) : Json.Value := .object [(op.kindName, op.contentValue)]

/-- How each kind of operand is read. -/
def readers : List (String × Json.Decoder Operand) :=
  [("symbol", Json.Decoder.text.map .symbol),
   ("integer", Json.Decoder.word.map .integer),
   ("signed_integer", Json.Decoder.signedWord.map .signed),
   ("float", Json.Decoder.double.map .float),
   ("string", Json.Decoder.text.map .text),
   ("code_reference", Json.Decoder.word.map .reference)]

def decoder : Json.Decoder Operand := .variants readers

end Operand

end Bytecode
