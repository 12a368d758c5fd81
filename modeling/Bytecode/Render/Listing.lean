import Bytecode.Document.Instruction
import Bytecode.Render.Text

/-!
# Whole listings

The output for a store, or for a range of it, in the format of the settings. A range that cannot be
shown is refused before anything is written.

* `writeListing`: the output, as far as its lines can be made;
* `printListing`: what a program does that makes the lines, one after the other.
-/

namespace Bytecode.Render

/-- First address, and the last one that may be shown. -/
abbrev Range := Address × Address

/-- The records of some instructions, and a line feed. -/
def writeRecords (is : List Instruction) : Output Unit := Output.writeAll [prettyRecords is, "\n"]

def writeListing (settings : Settings) (store : Store) (range : Option Range) :
    Except StoreError (Output Unit) :=
  match settings.format, range with
  | .text, none => .ok (store.visit (textWriter settings store))
  | .text, some (start, stop) => store.visitRange start stop (textWriter settings store)
  | .json, none => .ok (writeRecords store.toList)
  | .json, some (start, stop) => (store.slice start stop).map writeRecords

/-- The same, with the lines of a text still to be made. The settings do not indent records. -/
def printListing (settings : Settings) (store : Store) (range : Option Range) :
    Except StoreError (Printing Unit) :=
  match settings.format, range with
  | .text, none => .ok (store.visit (guardedWriter settings store))
  | .text, some (start, stop) => store.visitRange start stop (guardedWriter settings store)
  | .json, _ => (writeListing settings store range).map Output.printing

end Bytecode.Render
