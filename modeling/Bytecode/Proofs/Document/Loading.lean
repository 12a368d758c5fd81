import Bytecode.Document.Listing
import Bytecode.Proofs.Store.Loading
import Mathlib.Data.List.Chain

/-!
# Which listings are loaded

A listing is loaded exactly if its addresses rise from entry to entry, and then every entry is
stored, in order and as it is. Any other listing has a first place where they do not rise
(`FirstFall`), and what is wrong there is all that the failure tells: the entries before that place
are the ones that were stored, the entries behind it are never looked at.
-/

namespace Bytecode

/-! ## Where addresses do not rise -/

/-- The first place where addresses do not rise: `low` comes right after `high`, which is at
position `k`. -/
structure FirstFall (as : List Address) (k : Nat) (high low : Address) : Prop where
  before : as[k]? = some high
  here : as[k + 1]? = some low
  falls : low ≤ high
  /-- Every earlier address rises to the next one. -/
  least : ∀ j < k, ∀ a b, as[j]? = some a → as[j + 1]? = some b → a < b

theorem pairwise_iff_isChain (as : List Address) :
    as.Pairwise (· < ·) ↔ as.IsChain (· < ·) := by
  have : Trans (α := Address) (· < ·) (· < ·) (· < ·) := ⟨UInt32.lt_trans⟩
  exact List.isChain_iff_pairwise.symm

theorem exists_firstFall {as : List Address} (h : ¬ as.IsChain (· < ·)) :
    ∃ k high low, FirstFall as k high low := by
  induction as with
  | nil => exact absurd .nil h
  | cons a as ih =>
    cases as with
    | nil => exact absurd (.singleton a) h
    | cons b as =>
      -- The first two fall, or the first fall of the rest is one place further on.
      by_cases hab : a < b
      · obtain ⟨k, high, low, hfall⟩ := ih fun hchain => h (.cons_cons hab hchain)
        refine ⟨k + 1, high, low, hfall.before, hfall.here, hfall.falls, fun j hj c d hc hd => ?_⟩
        cases j with
        | zero =>
          obtain rfl : a = c := by simpa using hc
          obtain rfl : b = d := by simpa using hd
          exact hab
        | succ j => exact hfall.least j (by omega) c d hc hd
      · exact ⟨0, a, b, rfl, rfl, UInt32.not_lt.mp hab, fun j hj => by omega⟩

theorem FirstFall.lt_length {as : List Address} {k : Nat} {high low : Address}
    (h : FirstFall as k high low) : k + 1 < as.length :=
  (List.getElem?_eq_some_iff.mp h.here).1

/-- Up to the first fall addresses rise. -/
theorem FirstFall.rising {as : List Address} {k : Nat} {high low : Address}
    (h : FirstFall as k high low) : (as.take (k + 1)).Pairwise (· < ·) := by
  rw [pairwise_iff_isChain, List.isChain_iff_getElem]
  intro j hj
  rw [List.length_take] at hj
  rw [List.getElem_take, List.getElem_take]
  exact h.least j (by omega) _ _ (List.getElem?_eq_getElem _) (List.getElem?_eq_getElem _)

theorem FirstFall.not_rising {as : List Address} {k : Nat} {high low : Address}
    (h : FirstFall as k high low) : ¬ as.Pairwise (· < ·) := by
  rw [pairwise_iff_isChain, List.isChain_iff_getElem]
  intro hchain
  obtain ⟨hk, hhigh⟩ := List.getElem?_eq_some_iff.mp h.before
  obtain ⟨hk', hlow⟩ := List.getElem?_eq_some_iff.mp h.here
  have := hchain k hk'
  rw [hhigh, hlow] at this
  exact UInt32.not_lt.mpr h.falls this

/-! ## Loading instructions -/

namespace Store

theorem load_append (s : Store) (is js : List Instruction) :
    s.load (is ++ js) = (s.load is).bind fun t => t.load js := by
  induction is generalizing s with
  | nil => rfl
  | cons i is ih =>
    rw [List.cons_append, load, load]
    cases s.add i with
    | ok t => exact ih t
    | error e => rfl

theorem sound_ofList {is : List Instruction} (rising : (is.map (·.address)).Pairwise (· < ·)) :
    (ofList is).Sound :=
  (load_eq_ofList rising).2 ▸ sound_run _

/-- Where the address after the last one does not rise, loading ends, whatever comes behind. -/
theorem load_eq_error {before after : List Instruction} {i : Instruction} {last : Address}
    (rising : (before.map (·.address)).Pairwise (· < ·))
    (hlast : (before.map (·.address)).getLast? = some last) (falls : i.address ≤ last) :
    empty.load (before ++ i :: after) =
      .error (if i.address ∈ before.map (·.address) then .duplicateAddress i.address
        else .addressOutOfOrder i.address last) := by
  have haddresses : (ofList before).addresses = before.map (·.address) := by
    rw [addresses, toList_ofList]
  rw [load_append, (load_eq_ofList rising).1, Except.bind, load]
  rcases (sound_ofList rising).add_cases i with
    ⟨above, _⟩ | ⟨hmem, hadd⟩ | ⟨hnew, top, htop, _, hadd⟩
  · rw [haddresses] at above
    have := above last (List.mem_of_getLast? hlast)
    exact absurd this (UInt32.not_lt.mpr falls)
  · rw [haddresses] at hmem
    rw [hadd, if_pos hmem]
  · rw [haddresses] at hnew htop
    obtain rfl : top = last := Option.some.inj (htop.symm.trans hlast)
    rw [hadd, if_neg hnew]

end Store

/-! ## Loading listings -/

namespace Listing

/-- The addresses of the entries, in order. -/
def addresses (l : Listing) : List Address := l.entries.map (·.address)

theorem addresses_eq (l : Listing) :
    (l.entries.map Entry.instruction).map (·.address) = l.addresses := by
  rw [List.map_map]
  rfl

theorem store_of_firstFall {l : Listing} {k : Nat} {high low : Address}
    (h : FirstFall l.addresses k high low) (others : List Entry) :
    Listing.store ⟨l.entries.take (k + 2) ++ others⟩ =
      .error (if low ∈ l.addresses.take (k + 1) then .duplicateAddress low
        else .addressOutOfOrder low high) := by
  have hk : k + 1 < l.entries.length := by simpa [addresses] using h.lt_length
  obtain rfl : l.entries[k + 1].instruction.address = low := by
    have := h.here
    rw [addresses, List.getElem?_map, List.getElem?_eq_getElem hk] at this
    exact Option.some.inj this
  have hparts : l.entries.take (k + 2) = l.entries.take (k + 1) ++ [l.entries[k + 1]] :=
    List.take_succ_eq_append_getElem hk
  have hmap : ((l.entries.take (k + 1)).map Entry.instruction).map (·.address) =
      l.addresses.take (k + 1) := by
    rw [← addresses_eq, List.map_take, List.map_take]
  have hlast : (l.addresses.take (k + 1)).getLast? = some high := by
    rw [List.getLast?_take, if_neg (by omega), Nat.add_sub_cancel, h.before]
    rfl
  have hrising := h.rising
  rw [← hmap] at hrising hlast
  rw [Listing.store, hparts, List.append_assoc, List.singleton_append, List.map_append,
    List.map_cons, Store.load_eq_error hrising hlast h.falls, hmap]

theorem exists_firstFall_iff (l : Listing) :
    (∃ k high low, FirstFall l.addresses k high low) ↔ ¬ l.addresses.Pairwise (· < ·) := by
  constructor
  · rintro ⟨k, high, low, h⟩
    exact h.not_rising
  · rw [pairwise_iff_isChain]
    exact exists_firstFall

theorem store_eq_of_firstFall {l : Listing} {k : Nat} {high low : Address}
    (h : FirstFall l.addresses k high low) :
    l.store = .error (if low ∈ l.addresses.take (k + 1) then .duplicateAddress low
      else .addressOutOfOrder low high) := by
  have hall := store_of_firstFall h (l.entries.drop (k + 2))
  rwa [List.take_append_drop] at hall

/-- A listing gives a store only if its addresses rise, and this one. -/
theorem store_eq_ok_iff (l : Listing) (s : Store) :
    l.store = .ok s ↔
      l.addresses.Pairwise (· < ·) ∧ s = Store.ofList (l.entries.map Entry.instruction) := by
  by_cases rising : l.addresses.Pairwise (· < ·)
  · have hstore : l.store = .ok (Store.ofList (l.entries.map Entry.instruction)) :=
      (Store.load_eq_ofList (by rwa [addresses_eq])).1
    rw [hstore, Except.ok.injEq, eq_comm]
    simp [rising]
  · obtain ⟨k, high, low, hfall⟩ := l.exists_firstFall_iff.mpr rising
    simp [store_eq_of_firstFall hfall, rising]

theorem sound_of_store {l : Listing} {s : Store} (h : l.store = .ok s) :
    s.Sound ∧ s.addresses = l.addresses := by
  obtain ⟨rising, rfl⟩ := (l.store_eq_ok_iff s).mp h
  rw [← addresses_eq] at rising ⊢
  exact ⟨Store.sound_ofList rising, by rw [Store.addresses, Store.toList_ofList]⟩

/-- **Rising listings are loaded, and no others.** A listing whose addresses rise gives the store of
its entries, in order and with all they say. In any other one there is a first address that is not
above the one before it; it is a duplicate if some entry before it has that address and out of
order if none has, and no entry behind it makes a difference. -/
theorem store_iff_rising (l : Listing) :
    ((∃ s, l.store = .ok s) ↔ l.addresses.Pairwise (· < ·)) ∧
    (∀ s, l.store = .ok s → s.toList = l.entries.map Entry.instruction) ∧
    (∀ e ∈ l.entries, e.instruction.address = e.address ∧ e.instruction.opcode = e.opcode ∧
      e.instruction.operands = e.operands ∧ e.instruction.target? = e.target ∧
      e.instruction.comment = e.comment) ∧
    (¬ l.addresses.Pairwise (· < ·) → ∃ k high low, FirstFall l.addresses k high low) ∧
    (∀ k high low, FirstFall l.addresses k high low →
      l.store = .error (if low ∈ l.addresses.take (k + 1) then .duplicateAddress low
        else .addressOutOfOrder low high) ∧
      ∀ others, Listing.store ⟨l.entries.take (k + 2) ++ others⟩ = l.store) ∧
    ∀ source, decoder.document source = .ok l → readListing source = l.store.mapError .store := by
  refine ⟨⟨?_, fun h => ⟨_, (l.store_eq_ok_iff _).mpr ⟨h, rfl⟩⟩⟩, fun s hs => ?_,
    fun e _ => ⟨rfl, rfl, rfl, ?_, rfl⟩, l.exists_firstFall_iff.mpr,
    fun k high low h => ⟨store_eq_of_firstFall h, ?_⟩, ?_⟩
  · rintro ⟨s, hs⟩
    exact ((l.store_eq_ok_iff s).mp hs).1
  · rw [((l.store_eq_ok_iff s).mp hs).2, Store.toList_ofList]
  · cases e with
    | mk address opcode operands target comment => cases target <;> rfl
  · intro others
    rw [store_of_firstFall h others, store_eq_of_firstFall h]
  · intro source hsource
    rw [readListing, hsource]

end Listing

end Bytecode
