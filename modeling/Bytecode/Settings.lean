/-!
# Settings

How a store is shown: the stem of labels, whether lines start with their address, how far they are
indented, and in which of two formats.
-/

namespace Bytecode

/-- A text in lower case, as far as its letters are ASCII. -/
def lowerAscii (s : String) : String := String.ofList (s.toList.map Char.toLower)

inductive Format where
  /-- Assembly text. -/
  | text
  /-- The instruction records themselves. -/
  | json
  deriving DecidableEq, Repr

namespace Format

/-- Reads the name of a format, in either case. -/
def ofText? (s : String) : Option Format :=
  let name := lowerAscii s
  if name = "text" ∨ name = "txt" then some .text
  else if name = "json" then some .json
  else none

/-- The name in messages. -/
def friendlyName : Format → String
  | .text => "text"
  | .json => "JSON"

end Format

structure Settings where
  /-- What labels start with. -/
  labelStem : String := "loc"
  showAddresses : Bool := true
  /-- Spaces before each instruction. Any number of 64 bits can be asked for, so also more spaces than
  a text can have (`maxTextLength`). -/
  indent : Nat := 4
  format : Format := .text
  deriving DecidableEq, Repr

end Bytecode
