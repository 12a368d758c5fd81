/-!
# Sinks

A byte stream that may fill up. A write that does not fit is taken as far as it fits and then fails;
an empty write always succeeds.

* `Output`: computations that write texts that are at hand;
* `Printing`: computations that also make the texts that they write. There is a longest text, and to
  ask for a longer one ends the whole program.
-/

namespace Bytecode

structure Sink where
  taken : ByteArray := ∅
  /-- How many more bytes will be taken; none for all. -/
  room : Option Nat := none

/-- The failure of a sink that is full. -/
inductive SinkFull where
  | full
  deriving DecidableEq, Repr

/-- A computation that writes. -/
abbrev Output := ExceptT SinkFull (StateM Sink)

namespace Output

def write (text : String) : Output Unit := do
  let sink ← get
  let bytes := text.toUTF8
  match sink.room with
  | none => set { sink with taken := sink.taken ++ bytes }
  | some room =>
    if bytes.size ≤ room then
      set { taken := sink.taken ++ bytes, room := some (room - bytes.size) : Sink }
    else
      set { taken := sink.taken ++ bytes.extract 0 room, room := some 0 : Sink }
      throw .full

/-- Writes one text after another. -/
def writeAll : List String → Output Unit
  | [] => pure ()
  | text :: texts => do
    write text
    writeAll texts

/-- The bytes that are taken on a sink with this much room, and the failure, if any. -/
def run (output : Output Unit) (room : Option Nat) : ByteArray × Except SinkFull Unit :=
  let (result, sink) := (ExceptT.run output).run { room }
  (sink.taken, result)

end Output

/-! ## Texts that are made -/

/-- How many bytes a text has at most. Memory for that many is taken for granted. -/
def maxTextLength : Nat := 0x7FFFFFFFFFFFFFFF

/-- What keeps a computation from printing all that it has to print. -/
inductive Interruption where
  /-- The sink is full, which is a failure like others. -/
  | full
  /-- A text was asked for that is longer than a text can be. Nothing is done after that. -/
  | overflow
  deriving DecidableEq, Repr

/-- A computation that makes texts and writes them. -/
abbrev Printing := ExceptT Interruption (StateM Sink)

namespace Printing

/-- Makes a text of some bytes, as far as that may end the program. -/
def reserve (length : Nat) : Printing Unit :=
  if maxTextLength < length then throw .overflow else pure ()

/-- The bytes that are taken on a sink with this much room, and the interruption, if any. -/
def run (printing : Printing Unit) (room : Option Nat) : ByteArray × Except Interruption Unit :=
  let (result, sink) := (ExceptT.run printing).run { room }
  (sink.taken, result)

end Printing

/-- What writes texts that are at hand. -/
def Output.printing (output : Output Unit) : Printing Unit :=
  ExceptT.adapt (fun _ => .full) output

end Bytecode
