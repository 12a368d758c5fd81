import Bytecode.Text.Printable.Ranges

/-!
# Printable characters

A character is printable if it has a shape of its own: it is no control, format, private or
unassigned character, no separator other than the space, is not shown as nothing by default, and is
no mark that extends the character before it.
-/

namespace Bytecode.Text

def isPrintable (c : Char) : Bool :=
  let n := c.toNat
  if n < 0x80 then 0x20 ≤ n && n < 0x7F
  else !shapelessRanges.any fun (low, high) => low ≤ n && n ≤ high

end Bytecode.Text
