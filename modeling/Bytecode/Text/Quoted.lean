import Bytecode.Numeral
import Bytecode.Text.Printable

/-!
# Quoted text

Two ways to write a text between double quotes, each character by itself.

* `operand`: for operands of an instruction; everything outside U+0020 to U+007E is escaped, and so
  are both kinds of quotes and the backslash;
* `diagnostic`: for messages; printable characters stand as they are, an apostrophe too.
-/

namespace Bytecode.Text

/-- An escape by code point: hexadecimal digits between braces. -/
def codePointEscape (c : Char) : List Char :=
  ['\\', 'u', '\x7b'] ++ Numeral.lowerHex c.toNat ++ ['\x7d']

/-- A character of an operand. -/
def operandChar (c : Char) : List Char :=
  if c = '\t' then ['\\', 't']
  else if c = '\r' then ['\\', 'r']
  else if c = '\n' then ['\\', 'n']
  else if c = '\'' ∨ c = '"' ∨ c = '\\' then ['\\', c]
  else if 0x20 ≤ c.toNat ∧ c.toNat ≤ 0x7E then [c]
  else codePointEscape c

/-- A character of a message. -/
def diagnosticChar (c : Char) : List Char :=
  if c = '\x00' then ['\\', '0']
  else if c = '\t' then ['\\', 't']
  else if c = '\r' then ['\\', 'r']
  else if c = '\n' then ['\\', 'n']
  else if c = '"' ∨ c = '\\' then ['\\', c]
  else if isPrintable c then [c]
  else codePointEscape c

/-- Double quotes around the written forms of all characters. -/
def quote (write : Char → List Char) (s : String) : String :=
  String.ofList (['"'] ++ s.toList.flatMap write ++ ['"'])

def quoteOperand (s : String) : String := quote operandChar s

def quoteDiagnostic (s : String) : String := quote diagnosticChar s

end Bytecode.Text
