import Bytecode.Proofs.Render.Output
import Bytecode.Proofs.Store.Queries
import Bytecode.Render.Listing

/-!
# Records in JSON

In JSON the output is one piece of text, the records of the selected instructions and a line feed.
What a range selects is said without the store's look-ups (`Store.shown`): the records from its
first address to its last one.
-/

namespace Bytecode

theorem Text.toList_data_toUTF8 (s : String) : s.toUTF8.data.toList = Text.encode s.toList := by
  have hbytes : s.toUTF8 = (Text.encode s.toList).toByteArray := by
    rw [String.toUTF8_eq_toByteArray, ← String.utf8Encode_toList]
    rfl
  rw [hbytes, List.toList_data_toByteArray]

/-- The records that are shown: all, or those of a range. -/
def Store.shown (s : Store) : Option Render.Range → List Instruction
  | none => s.toList
  | some range => s.between range.1 range.2

namespace Store

variable {s : Store}

/-- What is shown is stored, in the order of the store. -/
theorem shown_sublist (s : Store) (range : Option Render.Range) :
    (s.shown range).Sublist s.toList := by
  cases range with
  | none => exact List.Sublist.refl _
  | some range => exact List.filter_sublist

theorem Sound.rising_shown (h : s.Sound) (range : Option Render.Range) :
    ((s.shown range).map (·.address)).Pairwise (· < ·) :=
  h.ascending.sublist ((s.shown_sublist range).map _)

end Store

namespace Render

open Store

/-- The bytes of some records in JSON. -/
def recordsBytes (is : List Instruction) : ByteArray := (prettyRecords is ++ "\n").toUTF8

theorem toList_recordsBytes (is : List Instruction) :
    (recordsBytes is).data.toList =
      Text.encode ((Json.Value.list (is.map Instruction.toValue)).write .pretty 0) ++ [0x0A] := by
  rw [recordsBytes, Text.toList_data_toUTF8, String.toList_append, Text.encode_append,
    prettyRecords, Json.Value.pretty, String.toList_ofList]
  rfl

theorem writes_records (is : List Instruction) : (writeRecords is).Writes (recordsBytes is) := by
  have hwrites := Output.writes_writeAll [prettyRecords is, "\n"]
  rwa [String.join_cons, String.join_cons, String.join_nil, String.append_empty] at hwrites

theorem writeListing_json {settings : Settings} (format : settings.format = .json) {store : Store}
    (h : store.Sound) {range : Option Range}
    (stored : ∀ r ∈ range, store.contains r.1 = true) :
    writeListing settings store range = .ok (writeRecords (store.shown range)) := by
  unfold writeListing
  rw [format]
  cases range with
  | none => rfl
  | some range =>
    simp only
    rw [h.slice_eq_between (stored range rfl)]
    rfl

end Render

end Bytecode
