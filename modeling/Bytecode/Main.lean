import Bytecode.Command.Run

/-!
# The program

Reads the two files that a request names, runs the request, and prints its outcome.
-/

namespace Bytecode

/-- A failure of the system as the library tells them apart. -/
def systemError (e : IO.Error) : SystemError :=
  match e with
  | .noFileOrDirectory .. => .noSuchFile
  | .permissionDenied .. => ⟨.permissionDenied, "Permission denied", some 13⟩
  | .inappropriateType _ code _ =>
    if code = 20 then .notADirectory else if code = 21 then .isADirectory
    else ⟨.other, toString e, none⟩
  | .invalidArgument _ code _ =>
    if code = 36 then .nameTooLong else ⟨.other, toString e, none⟩
  | _ => ⟨.other, toString e, none⟩

/-- The bytes of a file, read to the end or to the first failure. -/
def readSource (name : String) : IO (Except SystemError Source) := do
  if name.contains '\x00' then return .error .nulInName
  match ← (IO.FS.Handle.mk name .read).toBaseIO with
  | .error e => return .error (systemError e)
  | .ok handle =>
    match ← handle.readBinToEnd.toBaseIO with
    | .error e => return .ok ⟨[], .broken (systemError e)⟩
    | .ok bytes => return .ok ⟨bytes.toList, .complete⟩

/-- What is printed instead of an outcome. -/
def usageText (usage : Command.Usage) : String :=
  "usage: bytecode [--config FILE] [--label-prefix STEM] [--indent N] dis LISTING\n" ++
    "         [--from ADDR] [--to ADDR] [--format text|json] [--no-addresses]\n" ++
    "       bytecode [--config FILE] [--label-prefix STEM] branches LISTING\n" ++
    "(" ++ usage.name ++ ")\n"

end Bytecode

open Bytecode Command in
def main (args : List String) : IO UInt32 := do
  match Request.ofArguments args with
  | .error usage =>
    if usage = .helpDisplayed ∨ usage = .versionDisplayed then
      IO.print (usageText usage)
      return 0
    else
      IO.eprint (usageText usage)
      return 1
  | .ok request =>
    let config := request.config.getD defaultConfig
    let configSource ← readSource config
    let listingSource ← readSource request.listing
    let files : Opener := fun name => if name = config then configSource else listingSource
    let outcome := request.run files
    let stdout ← IO.getStdout
    stdout.write outcome.out
    stdout.flush
    IO.eprint outcome.err
    return outcome.exitCode.toUInt32
