import Bytecode.Json.Record
import Bytecode.Settings

/-!
# Settings files

A settings file is a document with any of the four settings; the others have their defaults.
-/

namespace Bytecode

namespace Settings

/-- The settings read so far. -/
structure Draft where
  labelStem : Option String := none
  showAddresses : Option Bool := none
  indent : Option Nat := none
  format : Option Format := none

def Draft.finish (d : Draft) : Except String Settings :=
  let default : Settings := {}
  .ok ⟨d.labelStem.getD default.labelStem, d.showAddresses.getD default.showAddresses,
    d.indent.getD default.indent, d.format.getD default.format⟩

/-- The name of a format. -/
def formatDecoder : Json.Decoder Format :=
  .string "valid output format" fun name =>
    match Format.ofText? name with
    | some format => .ok format
    | none => .error (.wrongValue (.string name) "valid output format")

/-- A number of spaces, which fits in 64 bits. -/
def indentDecoder : Json.Decoder Nat :=
  (Json.Decoder.integer "usize" 0 0xFFFFFFFFFFFFFFFF).map Int.toNat

def labelStemField : Json.Field Draft :=
  .of "label_prefix" Draft.labelStem (fun v d => { d with labelStem := some v }) .text

def showAddressesField : Json.Field Draft :=
  .of "show_addresses" Draft.showAddresses (fun v d => { d with showAddresses := some v }) .boolean

def indentField : Json.Field Draft :=
  .of "indent" Draft.indent (fun v d => { d with indent := some v }) indentDecoder

def formatField : Json.Field Draft :=
  .of "format" Draft.format (fun v d => { d with format := some v }) formatDecoder

def record : Json.Record Draft Settings where
  title := "struct Config"
  fields := [labelStemField, showAddressesField, indentField, formatField]
  blank := {}
  finish := Draft.finish

def decoder : Json.Decoder Settings := record.decoder

/-- Why a settings file gives no settings. -/
inductive ReadError where
  | system (error : SystemError)
  | document (error : Json.Error)
  deriving DecidableEq, Repr

/-- The settings of a file. -/
def read (files : Opener) (name : String) : Except ReadError Settings :=
  match files name with
  | .error e => .error (.system e)
  | .ok source => (decoder.document source).mapError .document

end Settings

end Bytecode
