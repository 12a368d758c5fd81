import Bytecode.Document.Entry
import Bytecode.Store.Run

/-!
# Listings

A listing is a document with the entries of one decoding pass. Loading it offers every entry to a new
store, in the order of the document, and keeps nothing unless all are taken.
-/

namespace Bytecode

structure Listing where
  entries : List Entry
  deriving DecidableEq, Repr

namespace Listing

/-- The entries, if they were read. -/
structure Draft where
  entries : Option (List Entry) := none

def Draft.finish (d : Draft) : Except String Listing :=
  match d.entries with
  | some entries => .ok ⟨entries⟩
  | none => .error "instructions"

def entriesField : Json.Field Draft :=
  .of "instructions" Draft.entries (fun v d => { d with entries := some v }) (.list Entry.decoder)

def record : Json.Record Draft Listing where
  title := "struct Listing"
  fields := [entriesField]
  blank := {}
  finish := Draft.finish

def decoder : Json.Decoder Listing := record.decoder

/-- The store of all entries, in order. -/
def store (l : Listing) : Except StoreError Store :=
  Store.empty.load (l.entries.map Entry.instruction)

end Listing

/-! ## Loading -/

/-- How a failure of a document is reported to callers that tell kinds of failures apart. -/
def Json.Error.system (e : Json.Error) : SystemError :=
  match e.cause with
  | .source error => error
  | cause => ⟨if cause.category = .ended then .unexpectedEnd else .invalidData, e.message, none⟩

inductive LoadError where
  /-- The file cannot be opened. -/
  | system (error : SystemError)
  /-- The document cannot be read. -/
  | document (error : Json.Error)
  /-- The instructions cannot be stored. -/
  | store (error : StoreError)
  deriving DecidableEq, Repr

namespace LoadError

def message : LoadError → String
  | .system e => "I/O error: " ++ e.message
  | .document e => "JSON error: " ++ e.message
  | .store e => "Invalid listing: " ++ e.message

def kind : LoadError → ErrorKind
  | .system e => e.kind
  | .document e => e.system.kind
  | .store e => e.kind

end LoadError

/-- The store of a listing document. -/
def readListing (source : Source) : Except LoadError Store :=
  match Listing.decoder.document source with
  | .error e => .error (.document e)
  | .ok listing => listing.store.mapError .store

/-- The store of a listing file. -/
def loadListing (files : Opener) (name : String) : Except LoadError Store :=
  match files name with
  | .error e => .error (.system e)
  | .ok source => readListing source

end Bytecode
