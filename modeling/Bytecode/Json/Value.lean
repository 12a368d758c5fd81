import Bytecode.Json.Number

/-!
# Values and their written form

The tree of a document and one printer for it. A style says what stands before an item of a list or
object, at a given depth, and between a member's name and its value; empty lists and objects are
written without anything between the brackets.

In strings only the double quote, the backslash and the characters below U+0020 are escaped.
-/

namespace Bytecode.Json

inductive Value where
  | null
  | boolean (value : Bool)
  | number (value : Number)
  | string (value : String)
  | list (items : List Value)
  | object (members : List (String × Value))

def escapeChar (c : Char) : List Char :=
  if c = '"' ∨ c = '\\' then ['\\', c]
  else if c = '\x08' then ['\\', 'b']
  else if c = '\t' then ['\\', 't']
  else if c = '\n' then ['\\', 'n']
  else if c = '\x0c' then ['\\', 'f']
  else if c = '\r' then ['\\', 'r']
  else if c.toNat < 0x20 then
    ['\\', 'u', '0', '0', Numeral.lowerDigit (c.toNat / 16), Numeral.lowerDigit (c.toNat % 16)]
  else [c]

def stringText (s : String) : List Char := ['"'] ++ s.toList.flatMap escapeChar ++ ['"']

structure Style where
  /-- What stands before an item at this depth, and before the bracket that closes the items. -/
  line : Nat → List Char
  colon : List Char

/-- Everything on one line and no space. -/
def Style.compact : Style := ⟨fun _ => [], [':']⟩

/-- An item a line, two spaces for each depth. -/
def Style.pretty : Style := ⟨fun depth => '\n' :: List.replicate (2 * depth) ' ', [':', ' ']⟩

namespace Value

mutual

/-- The text of a value whose first character stands at `depth`. -/
def write (style : Style) (depth : Nat) : Value → List Char
  | .null => ['n', 'u', 'l', 'l']
  | .boolean true => ['t', 'r', 'u', 'e']
  | .boolean false => ['f', 'a', 'l', 's', 'e']
  | .number n => n.text
  | .string s => stringText s
  | .list [] => ['[', ']']
  | .list (v :: vs) =>
    ['['] ++ writeItems style (depth + 1) (v :: vs) ++ style.line depth ++ [']']
  | .object [] => ['\x7b', '\x7d']
  | .object (m :: ms) =>
    ['\x7b'] ++ writeMembers style (depth + 1) (m :: ms) ++ style.line depth ++ ['\x7d']
termination_by structural v => v

/-- Each item on a line of its own at `depth`, commas between them. -/
def writeItems (style : Style) (depth : Nat) : List Value → List Char
  | [] => []
  | v :: vs =>
    style.line depth ++ write style depth v ++ (if vs.isEmpty then [] else [',']) ++
      writeItems style depth vs

def writeMembers (style : Style) (depth : Nat) : List (String × Value) → List Char
  | [] => []
  | (name, v) :: ms =>
    style.line depth ++ stringText name ++ style.colon ++ write style depth v ++
      (if ms.isEmpty then [] else [',']) ++ writeMembers style depth ms

end

def compact (v : Value) : String := String.ofList (v.write .compact 0)

def pretty (v : Value) : String := String.ofList (v.write .pretty 0)

end Value

end Bytecode.Json
