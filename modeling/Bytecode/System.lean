import Bytecode.Numeral

/-!
# The system's side

What the file system and streams answer when they fail, and what a reader gets from an opened file:
bytes, and the way they end.
-/

namespace Bytecode

/-- The kind of a failure, as far as callers tell failures apart. -/
inductive ErrorKind where
  | notFound
  | notADirectory
  | isADirectory
  | permissionDenied
  | invalidFilename
  | invalidInput
  | invalidData
  | unexpectedEnd
  | connectionReset
  | other
  deriving DecidableEq, Repr

def ErrorKind.name : ErrorKind → String
  | .notFound => "NotFound"
  | .notADirectory => "NotADirectory"
  | .isADirectory => "IsADirectory"
  | .permissionDenied => "PermissionDenied"
  | .invalidFilename => "InvalidFilename"
  | .invalidInput => "InvalidInput"
  | .invalidData => "InvalidData"
  | .unexpectedEnd => "UnexpectedEof"
  | .connectionReset => "ConnectionReset"
  | .other => "Other"

/-- A failure of the system; `code` is its number, if it has one. -/
structure SystemError where
  kind : ErrorKind
  text : String
  code : Option Nat := none
  deriving DecidableEq, Repr

namespace SystemError

def noSuchFile : SystemError := ⟨.notFound, "No such file or directory", some 2⟩

def notADirectory : SystemError := ⟨.notADirectory, "Not a directory", some 20⟩

def isADirectory : SystemError := ⟨.isADirectory, "Is a directory", some 21⟩

def nameTooLong : SystemError := ⟨.invalidFilename, "File name too long", some 36⟩

/-- The name asked for holds a NUL, so the system is not asked at all. -/
def nulInName : SystemError := ⟨.invalidInput, "file name contained an unexpected NUL byte", none⟩

def message (e : SystemError) : String :=
  match e.code with
  | some code => e.text ++ " (os error " ++ String.ofList (Numeral.decimal code) ++ ")"
  | none => e.text

end SystemError

/-- What comes after the last byte of a source. -/
inductive Ending where
  | complete
  /-- The reader fails where more bytes would come. -/
  | broken (error : SystemError)
  deriving DecidableEq, Repr

/-- The bytes that a reader delivers. -/
structure Source where
  bytes : List UInt8
  ending : Ending := .complete
  deriving DecidableEq, Repr

/-- Opening a file by name. -/
abbrev Opener := String → Except SystemError Source

end Bytecode
