import Bytecode.Document.Listing
import Bytecode.Document.Settings

/-!
# Failures of the program

What ends the program early, the line it then leaves on standard error, and its exit code.
-/

namespace Bytecode.Command

inductive Failure where
  /-- A command-line value that cannot be used. -/
  | invalidInput (message : String)
  | system (error : SystemError)
  | document (error : Json.Error)
  | store (error : StoreError)
  /-- A text was asked for that is longer than a text can be. The program does not report this; it
  is stopped on the spot. -/
  | overflow
  deriving DecidableEq, Repr

namespace Failure

/-- The failure of a document; where the reader failed, it is the reader's failure. -/
def ofDocument (e : Json.Error) : Failure :=
  match e.cause with
  | .source error => .system error
  | _ => .document e

def ofLoad : LoadError → Failure
  | .system e => .system e
  | .document e => ofDocument e
  | .store e => .store e

def ofSettings : Settings.ReadError → Failure
  | .system e => .system e
  | .document e => ofDocument e

/-- How the failure is told apart from others. -/
def kind : Failure → ErrorKind
  | .invalidInput _ => .invalidInput
  | .system e => e.kind
  | .document e => e.system.kind
  | .store e => e.kind
  | .overflow => .other

/-- A failure with a kind and a text of its own. -/
def customText (kind : ErrorKind) (error : String) : String :=
  "Custom \x7b kind: " ++ kind.name ++ ", error: " ++ error ++ " \x7d"

def systemText (e : SystemError) : String :=
  let text := Text.quoteDiagnostic e.text
  match e.code with
  | some code =>
    "Os \x7b code: " ++ String.ofList (Numeral.decimal code) ++ ", kind: " ++ e.kind.name ++
      ", message: " ++ text ++ " \x7d"
  | none => "Error \x7b kind: " ++ e.kind.name ++ ", message: " ++ text ++ " \x7d"

def debugText (f : Failure) : String :=
  match f with
  | .invalidInput message => customText f.kind (Text.quoteDiagnostic message)
  | .system e => systemText e
  | .document e => customText f.kind e.debugText
  | .store e => customText f.kind e.debugText
  | .overflow => "capacity overflow"

/-- What is left on standard error. Of a program that is stopped it is the reason alone: where in
the program that was does not stand here. -/
def report (f : Failure) : String :=
  match f with
  | .overflow => f.debugText ++ "\n"
  | _ => "Error: " ++ f.debugText ++ "\n"

def exitCode : Failure → UInt8
  | .overflow => 101
  | _ => 1

end Failure

end Bytecode.Command
