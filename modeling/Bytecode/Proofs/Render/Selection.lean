import Bytecode.Proofs.Sequencing
import Bytecode.Proofs.Store.Slices
import Bytecode.Render.Listing

/-!
# What a listing shows

Whatever the format, and whether it is only written or also made, a listing is the instructions of
the store or of a range of it, put into some form (`writeListing_eq_map`, `printListing_eq_map`).
So which ranges are refused is a question about slices alone.

* `selected`: the instructions that are shown;
* `shownAddresses`: their addresses;
* `writeListing_eq_error_iff`, `exists_writeListing_iff`: the ranges that are refused, and all others.
-/

namespace Bytecode.Render

open Store

/-- The instructions that are shown. -/
def selected (store : Store) (range : Option Range) : Except StoreError (List Instruction) :=
  match range with
  | none => .ok store.toList
  | some (start, stop) => store.slice start stop

/-- The addresses of a listing that are shown. -/
def shownAddresses (range : Option Range) (as : List Address) : List Address :=
  match range with
  | none => as
  | some (start, stop) => as.filter fun a => start ≤ a && a ≤ stop

variable {store : Store}

theorem addresses_of_selected (h : store.Sound) {range : Option Range} {is : List Instruction}
    (hs : selected store range = .ok is) :
    is.map (·.address) = shownAddresses range store.addresses := by
  unfold selected at hs
  rcases range with _ | ⟨start, stop⟩
  · cases hs
    rfl
  · obtain ⟨-, rfl⟩ := h.slice_eq_ok_iff.mp hs
    exact (List.filter_map (p := fun a => start ≤ a && a ≤ stop)).symm

theorem selected_eq_error_iff (h : store.Sound) (range : Option Range) (e : StoreError) :
    selected store range = .error e ↔
      ∃ q ∈ range, q.1 ∉ store.addresses ∧ e = .rangeStartNotFound q.1 := by
  rcases range with _ | ⟨start, stop⟩
  · simp [selected]
  · simp only [selected, Option.mem_some_iff, exists_eq_left', h.slice_eq_error_iff]

theorem exists_selected_iff (h : store.Sound) (range : Option Range) :
    (∃ is, selected store range = .ok is) ↔ ∀ q ∈ range, q.1 ∈ store.addresses := by
  rcases range with _ | ⟨start, stop⟩
  · simp [selected]
  · simp only [selected, Option.mem_some_iff, forall_eq', h.slice_eq_ok_iff, h.contains_iff,
      exists_and_left, exists_eq, and_true]

/-! ## Both forms of a listing -/

variable (settings : Settings)

theorem writeListing_eq_map (store : Store) (range : Option Range) :
    writeListing settings store range = (selected store range).map
      (match settings.format with
      | .text => store.visitEach (textWriter settings store)
      | .json => writeRecords) := by
  unfold writeListing selected
  cases settings.format <;> cases range <;> rfl

theorem printListing_eq_map (store : Store) (range : Option Range) :
    printListing settings store range = (selected store range).map
      (match settings.format with
      | .text => store.visitEach (guardedWriter settings store)
      | .json => fun is => (writeRecords is).printing) := by
  unfold printListing writeListing selected
  cases settings.format with
  | text => cases range <;> rfl
  | json =>
    cases range with
    | none => rfl
    | some range => cases hs : store.slice range.1 range.2 <;> simp only [hs] <;> rfl

/-- Whatever the format, a range is refused exactly if its start is not stored. -/
theorem writeListing_eq_error_iff (h : store.Sound) (range : Option Range) (e : StoreError) :
    writeListing settings store range = .error e ↔
      ∃ q ∈ range, q.1 ∉ store.addresses ∧ e = .rangeStartNotFound q.1 := by
  rw [writeListing_eq_map, map_eq_error_iff, selected_eq_error_iff h]

theorem printListing_eq_error_iff {range : Option Range} {e : StoreError} :
    printListing settings store range = .error e ↔
      writeListing settings store range = .error e := by
  rw [printListing_eq_map, writeListing_eq_map, map_eq_error_iff, map_eq_error_iff]

/-- Any other range is written. -/
theorem exists_writeListing_iff (h : store.Sound) (range : Option Range) :
    (∃ written, writeListing settings store range = .ok written) ↔
      ∀ q ∈ range, q.1 ∈ store.addresses := by
  rw [writeListing_eq_map, exists_map_eq_ok_iff, exists_selected_iff h]

theorem exists_printListing_iff {range : Option Range} :
    (∃ printing, printListing settings store range = .ok printing) ↔
      ∃ written, writeListing settings store range = .ok written := by
  rw [printListing_eq_map, writeListing_eq_map, exists_map_eq_ok_iff, exists_map_eq_ok_iff]

end Bytecode.Render
