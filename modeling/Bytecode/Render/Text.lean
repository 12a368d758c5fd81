import Bytecode.Label
import Bytecode.Settings
import Bytecode.Sink
import Bytecode.Store.Visit
import Bytecode.Text.Quoted
import Bytecode.Decimal.Layout

/-!
# Assembly text

One line for each label and each instruction. A line is written in pieces, so a sink may fill up
inside it; what is written for an instruction never depends on what was written before.

* `referenceText`: a label where one will exist, and `$` with eight digits elsewhere;
* `linePieces`, `labelPieces`: the pieces of a line, its line feed included;
* `textWriter`: the writer of a visit, for lines that can be made;
* `guardedWriter`: the writer that also makes the lines, which ends the program at an instruction if
  there cannot be that many spaces.
-/

namespace Bytecode.Render

/-- A reference to an address of the store. Labels exist for stored instructions that some branch may
go to. -/
def referenceText (settings : Settings) (store : Store) (a : Address) : String :=
  if store.contains a && store.isTarget a then Label.text ⟨settings.labelStem, a⟩ else a.raw

/-- Halves are rounded up, there is no exponent, and whole numbers have no fraction. -/
def floatLayout : Decimal.Layout := ⟨.up, fun _ => true, false⟩

def floatText (x : Float) : String :=
  match Decimal.Reading.ofBits x.toBits with
  | .finite negative size => String.ofList (floatLayout.finiteText negative size)
  | .infinite false => "inf"
  | .infinite true => "-inf"
  | .noNumber => "NaN"

/-- A whole number of either sign. -/
def integerText (n : Int) : String :=
  let digits := String.ofList (Numeral.decimal n.natAbs)
  if n < 0 then "-" ++ digits else digits

def operandText (settings : Settings) (store : Store) : Operand → String
  | .symbol name => name
  | .integer n => integerText n.toNat
  | .signed n => integerText n.toInt
  | .float x => floatText x
  | .text s => Text.quoteOperand s
  | .reference a => referenceText settings store a

/-- Spaces, and the address column if it is wanted. -/
def startPieces (settings : Settings) (i : Instruction) : List String :=
  String.ofList (List.replicate settings.indent ' ') ::
    if settings.showAddresses then [i.address.column ++ "  "] else []

/-- What the instruction is applied to: its operands, and the target of a branch. -/
def argumentTexts (settings : Settings) (store : Store) (i : Instruction) : List String :=
  i.operands.map (operandText settings store) ++
    i.target?.toList.map (referenceText settings store)

/-- One space before the first argument, a comma and a space before the others. -/
def separated : List String → List String
  | [] => []
  | a :: as => " " :: a :: as.flatMap fun b => [", ", b]

def commentPieces (i : Instruction) : List String :=
  match i.comment with
  | some text => ["  ; " ++ text]
  | none => []

/-- The pieces after the indentation and the address column, up to the comment. -/
def bodyPieces (settings : Settings) (store : Store) (i : Instruction) : List String :=
  i.opcode :: separated (argumentTexts settings store i)

/-- The line of an instruction. -/
def linePieces (settings : Settings) (store : Store) (i : Instruction) : List String :=
  startPieces settings i ++ bodyPieces settings store i ++ commentPieces i ++ ["\n"]

/-- The line of a label; it is never indented. -/
def labelPieces (settings : Settings) (a : Address) : List String :=
  [Label.text ⟨settings.labelStem, a⟩ ++ ":\n"]

/-- The pieces that are written for one call of a visit. -/
def eventPieces (settings : Settings) (store : Store) : Event → List String
  | .label a => labelPieces settings a
  | .instruction i => linePieces settings store i

/-- The text that is written for one call of a visit. -/
def eventText (settings : Settings) (store : Store) (e : Event) : String :=
  String.join (eventPieces settings store e)

/-- Writes assembly text; `store` decides which addresses have labels. -/
def textWriter (settings : Settings) (store : Store) : Writer Output where
  label a := Output.writeAll (labelPieces settings a)
  instruction i := Output.writeAll (linePieces settings store i)

/-- Makes and writes assembly text. The spaces of a line are made as one text, before anything of
the line is written. -/
def guardedWriter (settings : Settings) (store : Store) : Writer Printing where
  label a := ((textWriter settings store).label a).printing
  instruction i := do
    Printing.reserve settings.indent
    ((textWriter settings store).instruction i).printing

end Bytecode.Render
