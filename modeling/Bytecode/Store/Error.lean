import Bytecode.Address
import Bytecode.System

/-!
# Refusals of the store

Why the store takes no instruction, or gives no slice.
-/

namespace Bytecode

inductive StoreError where
  /-- The address is stored already. -/
  | duplicateAddress (address : Address)
  /-- The address is below the last stored one. -/
  | addressOutOfOrder (address last : Address)
  /-- A slice was to start at an address that is not stored. -/
  | rangeStartNotFound (address : Address)
  deriving DecidableEq, Repr

namespace StoreError

def message : StoreError → String
  | .duplicateAddress a => "instruction at " ++ a.raw ++ " was already added"
  | .addressOutOfOrder a last => "instruction at " ++ a.raw ++ " was added after " ++ last.raw
  | .rangeStartNotFound a => "no instruction at " ++ a.raw ++ " to start a slice from"

def kind : StoreError → ErrorKind
  | .rangeStartNotFound _ => .notFound
  | _ => .invalidData

/-- The form in which a failing program shows the refusal. -/
def debugText (e : StoreError) : String :=
  let number (a : Address) := String.ofList (Numeral.decimal a.toNat)
  match e with
  | .duplicateAddress a => "DuplicateAddress(" ++ number a ++ ")"
  | .addressOutOfOrder a last =>
    "AddressOutOfOrder \x7b address: " ++ number a ++ ", last: " ++ number last ++ " \x7d"
  | .rangeStartNotFound a => "RangeStartNotFound(" ++ number a ++ ")"

end StoreError

end Bytecode
