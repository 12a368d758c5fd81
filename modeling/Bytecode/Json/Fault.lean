import Bytecode.Json.Number
import Bytecode.System
import Bytecode.Text.Quoted

/-!
# Faults of documents

Why a document cannot be read, and where. A place is the number of bytes that were still unread, so
that a reader needs no counter: line and column are counted over the bytes before it.

A fault floats until the value being read gives up. A list or object that gives up first looks for
its own end, as far as the next bracket or comma, and the place is where that look ends.
-/

namespace Bytecode.Json

/-- What was found where something else was expected. -/
inductive Found where
  | null
  | boolean (value : Bool)
  | number (value : Number)
  | string (value : String)
  | sequence
  | map
  /-- The name of a variant without its content. -/
  | bareVariant
  deriving DecidableEq, Repr

def Found.text : Found → String
  | .null => "null"
  | .boolean true => "boolean `true`"
  | .boolean false => "boolean `false`"
  | .number (.integer n) => "integer `" ++ String.ofList (Number.integerText n) ++ "`"
  | .number (.float x) => "floating point `" ++ String.ofList (Number.floatText x) ++ "`"
  | .string s => "string " ++ Text.quoteDiagnostic s
  | .sequence => "sequence"
  | .map => "map"
  | .bareVariant => "unit variant"

inductive Cause where
  /-- The document ends inside a value, a list, an object or a string. -/
  | valueEnds
  | listEnds
  | objectEnds
  | stringEnds
  | expectedValue
  | expectedWord
  | expectedColon
  | expectedCommaOrBracket
  | expectedCommaOrBrace
  | keyNotString
  | trailingComma
  | trailingCharacters
  | invalidNumber
  | numberOutOfRange
  | controlCharacter
  | invalidEscape
  | loneSurrogate
  | unfinishedSurrogate
  | invalidCodePoint
  | wrongType (found : Found) (expected : String)
  | wrongValue (found : Found) (expected : String)
  | wrongLength (count : Nat) (expected : String)
  | missingField (name : String)
  | repeatedField (name : String)
  | unknownVariant (name : String) (known : List String)
  /-- The reader of the bytes failed. -/
  | source (error : SystemError)
  deriving DecidableEq, Repr

/-- A coarser division of causes. -/
inductive Category where
  | source
  | malformed
  | data
  | ended
  deriving DecidableEq, Repr

namespace Cause

def category : Cause → Category
  | .valueEnds | .listEnds | .objectEnds | .stringEnds => .ended
  | .wrongType .. | .wrongValue .. | .wrongLength .. | .missingField _ | .repeatedField _
  | .unknownVariant .. => .data
  | .source _ => .source
  | _ => .malformed

def message : Cause → String
  | .valueEnds => "EOF while parsing a value"
  | .listEnds => "EOF while parsing a list"
  | .objectEnds => "EOF while parsing an object"
  | .stringEnds => "EOF while parsing a string"
  | .expectedValue => "expected value"
  | .expectedWord => "expected ident"
  | .expectedColon => "expected `:`"
  | .expectedCommaOrBracket => "expected `,` or `]`"
  | .expectedCommaOrBrace => "expected `,` or `\x7d`"
  | .keyNotString => "key must be a string"
  | .trailingComma => "trailing comma"
  | .trailingCharacters => "trailing characters"
  | .invalidNumber => "invalid number"
  | .numberOutOfRange => "number out of range"
  | .controlCharacter => "control character (\\u0000-\\u001F) found while parsing a string"
  | .invalidEscape => "invalid escape"
  | .loneSurrogate => "lone leading surrogate in hex escape"
  | .unfinishedSurrogate => "unexpected end of hex escape"
  | .invalidCodePoint => "invalid unicode code point"
  | .wrongType found expected => "invalid type: " ++ found.text ++ ", expected " ++ expected
  | .wrongValue found expected => "invalid value: " ++ found.text ++ ", expected " ++ expected
  | .wrongLength count expected =>
    "invalid length " ++ String.ofList (Numeral.decimal count) ++ ", expected " ++ expected
  | .missingField name => "missing field `" ++ name ++ "`"
  | .repeatedField name => "duplicate field `" ++ name ++ "`"
  | .unknownVariant name known =>
    "unknown variant `" ++ name ++ "`, expected one of " ++
      String.intercalate ", " (known.map fun k => "`" ++ k ++ "`")
  | .source error => error.message

end Cause

/-! ## Faults while reading -/

/-- White space between tokens: space, tab, line feed and carriage return. -/
def isBlank (b : UInt8) : Bool := b = 0x20 || b = 0x09 || b = 0x0A || b = 0x0D

def skipBlank (s : List UInt8) : List UInt8 := s.dropWhile isBlank

theorem skipBlank_length_le (s : List UInt8) : (skipBlank s).length ≤ s.length :=
  (List.dropWhile_suffix _).length_le

inductive Fault where
  /-- The place is known: `unread` bytes were not looked at. -/
  | placed (cause : Cause) (unread : Nat)
  /-- The place is to be settled by what encloses the fault; `rest` is left to read. -/
  | floating (cause : Cause) (rest : List UInt8)
  deriving DecidableEq, Repr

/-- The fault of bytes that end where more are needed. -/
def cutOff (ending : Ending) (cause : Cause) : Fault :=
  match ending with
  | .complete => .placed cause 0
  | .broken error => .floating (.source error) []

namespace Fault

/-- The place of a fault that has one, or else the given number of unread bytes. -/
def settleAt (unread : List UInt8 → Nat) : Fault → Fault
  | .placed cause n => .placed cause n
  | .floating cause rest => .placed cause (unread rest)

/-- Nothing more is looked at. -/
def settle : Fault → Fault := settleAt List.length

/-- A list looks for its closing bracket, past one comma. -/
def settleList : Fault → Fault := settleAt fun rest =>
  match skipBlank rest with
  | [] => 0
  | b :: r => if b = 0x2C then (skipBlank r).length - 1 else r.length

/-- An object looks at the next byte that is no white space. -/
def settleObject : Fault → Fault := settleAt fun rest => (skipBlank rest).length - 1

end Fault

/-! ## Faults with a place in the document -/

/-- Lines count from one; the column is the number of bytes since the last line feed. -/
structure Position where
  line : Nat
  column : Nat
  deriving DecidableEq, Repr

/-- The position after some bytes. -/
def Position.after (bytes : List UInt8) : Position :=
  ⟨1 + bytes.count 0x0A, (bytes.reverse.takeWhile (· ≠ 0x0A)).length⟩

structure Error where
  cause : Cause
  position : Option Position
  deriving DecidableEq, Repr

namespace Error

/-- The fault of reading `document`. -/
def ofFault (document : List UInt8) : Fault → Error
  | .placed cause unread => ⟨cause, some (.after (document.take (document.length - unread)))⟩
  | .floating cause _ => ⟨cause, none⟩

def message (e : Error) : String :=
  match e.position with
  | some p =>
    e.cause.message ++ " at line " ++ String.ofList (Numeral.decimal p.line) ++ " column " ++
      String.ofList (Numeral.decimal p.column)
  | none => e.cause.message

/-- The form in which a failing program shows the error. -/
def debugText (e : Error) : String :=
  let p := e.position.getD ⟨0, 0⟩
  "Error(" ++ Text.quoteDiagnostic e.cause.message ++ ", line: " ++
    String.ofList (Numeral.decimal p.line) ++ ", column: " ++
    String.ofList (Numeral.decimal p.column) ++ ")"

end Error

end Bytecode.Json
