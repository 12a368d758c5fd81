import Bytecode.Address.Typed
import Bytecode.Command.Arguments
import Bytecode.Command.Failure
import Bytecode.Render.Branches
import Bytecode.Render.Listing

/-!
# Running a command

What a request does with the files it names: text on standard output, warnings and at most one failure
on standard error, and an exit code.

* `effectiveSettings`: the settings file under the options of the command line;
* `preparedListing`: what `dis` is to print;
* `disassemble`, `listBranches`: the two commands;
* `Request.run`: the outcome of a request.
-/

namespace Bytecode.Command

/-- What has been printed so far. -/
structure Console where
  out : ByteArray := ∅
  /-- Warnings, in order. -/
  warnings : List String := []

abbrev Session := ExceptT Failure (StateM Console)

def warn (message : String) : Session Unit :=
  modify fun console => { console with warnings := console.warnings ++ [message] }

/-- Prints all that a computation writes, until it is done or ends the program. Standard output takes
every byte. -/
def print (printing : Printing Unit) : Session Unit := do
  let (bytes, result) := printing.run none
  modify fun console => { console with out := console.out ++ bytes }
  match result with
  | .error .overflow => throw .overflow
  | _ => return ()

/-- A result, or the end of the session. -/
def orFail {ε α : Type} (failure : ε → Failure) : Except ε α → Session α
  | .ok a => pure a
  | .error e => throw (failure e)

/-! ## Settings -/

/-- The file that is read if no other is named. -/
def defaultConfig : String := "dsodis.json"

/-- The settings of the file. A file that does not exist gives the defaults, with a warning if it was
named. -/
def fileSettings (files : Opener) (config : Option String) : Session Settings :=
  let name := config.getD defaultConfig
  match Settings.read files name with
  | .ok settings => pure settings
  | .error e =>
    let failure := Failure.ofSettings e
    -- All that counts is the kind, wherever the failure came up.
    if failure.kind = .notFound then do
      if config.isSome then
        warn ("Config file " ++ name ++ " does not exist, using defaults")
      return {}
    else throw failure

/-- A number of spaces. -/
def indentOfText? (s : String) : Option Nat := Numeral.read? 10 UInt64.size s.toList

/-- The settings of the file, under the options that every command knows. -/
def sharedSettings (files : Opener) (r : Request) : Session Settings := do
  let settings ← fileSettings files r.config
  let settings := { settings with labelStem := r.labelStem.getD settings.labelStem }
  match r.indent with
  | none => return settings
  | some text =>
    match indentOfText? text with
    | some n => return { settings with indent := n }
    | none => throw (.invalidInput "Indentation must be a number of spaces")

/-- Sets the format, or warns that there is none of that name. -/
def withFormat (settings : Settings) : Option String → Session Settings
  | none => pure settings
  | some name =>
    match Format.ofText? name with
    | some format => pure { settings with format := format }
    | none => do
      warn ("Unknown output format " ++ name ++ ", using " ++ settings.format.friendlyName ++
        " output")
      return settings

/-- The settings of the `dis` command. -/
def effectiveSettings (files : Opener) (r : Request) : Session Settings := do
  let settings ← withFormat (← sharedSettings files r) r.format
  return if r.hideAddresses then { settings with showAddresses := false } else settings

/-! ## Commands -/

/-- An address given for an option. -/
def addressOption (settings : Settings) (option text : String) : Session Address :=
  match Address.ofText? text settings.labelStem with
  | some a => pure a
  | none => throw (.invalidInput (text ++ " is not a valid address for --" ++ option))

/-- The range that a request names, if any; without an end it goes on to the last address. -/
def rangeOption (settings : Settings) (r : Request) : Session (Option Render.Range) :=
  match r.start with
  | none => pure none
  | some start => do
    let start ← addressOption settings "from" start
    match r.stop with
    | none => return some (start, Address.last)
    | some stop => return some (start, ← addressOption settings "to" stop)

/-- What is to be printed for the listing, with these settings. -/
def preparedListing (files : Opener) (r : Request) (settings : Settings) :
    Session (Printing Unit) := do
  let store ← orFail .ofLoad (loadListing files r.listing)
  let range ← rangeOption settings r
  if store.isEmpty then
    warn ("Listing " ++ r.listing ++ " contains no instructions")
  orFail .store (Render.printListing settings store range)

def disassemble (files : Opener) (r : Request) : Session Unit := do
  let settings ← effectiveSettings files r
  print (← preparedListing files r settings)

/-- What is warned about a target that is not stored. -/
def strayWarning (a : Address) : String := "Branch target " ++ a.raw ++ " is outside the listing"

def listBranches (files : Opener) (r : Request) : Session Unit := do
  let settings ← sharedSettings files r
  let store ← orFail .ofLoad (loadListing files r.listing)
  print (Output.write (Render.branchesText settings store)).printing
  (Render.strayTargets store).forM fun a => warn (strayWarning a)

/-! ## Outcomes -/

/-- How a run ends. -/
structure Outcome where
  exitCode : UInt8
  out : ByteArray
  err : String

def session (files : Opener) (r : Request) : Session Unit :=
  match r.verb with
  | .disassemble => disassemble files r
  | .branches => listBranches files r

def warningText (message : String) : String := "WARN: " ++ message ++ "\n"

def Request.run (files : Opener) (r : Request) : Outcome :=
  let (result, console) := (ExceptT.run (session files r)).run {}
  let warnings := String.join (console.warnings.map warningText)
  match result with
  | .ok () => ⟨0, console.out, warnings⟩
  | .error failure => ⟨failure.exitCode, console.out, warnings ++ failure.report⟩

end Bytecode.Command
