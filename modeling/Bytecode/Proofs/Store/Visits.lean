import Bytecode.Proofs.Sequencing
import Bytecode.Proofs.Store.Queries
import Bytecode.Store.Visit

/-!
# The calls of a visit

A visit makes the calls that its events stand for, one after the other (`visitEach_eq_forM`), and
the events of a list are those of its parts. So whatever cuts the list of a store cuts the events
of the whole visit in the same places:

* `filter_split`: a rising list is cut at an address;
* `flatMap_tiles`: ranges that begin at rising starts and end just below the next start make up the
  list;
* `Sound.events_cut`: the events of any range are a block of the events of the whole;
* `visitCalls`, `rangeCalls`: the calls of a visit as a writer notes them, which are the events.
-/

namespace Bytecode.Store

/-! ## Visits as lists of calls -/

theorem eventsOf_cons (s : Store) (i : Instruction) (is : List Instruction) :
    s.eventsOf (i :: is) = s.eventsAt i ++ s.eventsOf is :=
  List.flatMap_cons

theorem eventsOf_append (s : Store) (is js : List Instruction) :
    s.eventsOf (is ++ js) = s.eventsOf is ++ s.eventsOf js :=
  List.flatMap_append

theorem instruction_mem_eventsOf_iff (s : Store) (is : List Instruction) (i : Instruction) :
    .instruction i ∈ s.eventsOf is ↔ i ∈ is := by
  rw [eventsOf, List.mem_flatMap]
  constructor
  · rintro ⟨j, hj, hmem⟩
    rw [eventsAt] at hmem
    split at hmem <;> simp at hmem <;> exact hmem ▸ hj
  · intro hi
    refine ⟨i, hi, ?_⟩
    rw [eventsAt]
    split <;> simp

section Calls

variable {m : Type → Type} [Monad m]

theorem visitEach_eq_forM (s : Store) (w : Writer m) (is : List Instruction) :
    s.visitEach w is = (s.eventsOf is).forM w.handle := by
  induction is with
  | nil => rfl
  | cons i is ih =>
    rw [visitEach, ih, eventsOf_cons, eventsAt]
    cases s.isTarget i.address <;> simp [Writer.handle]

theorem visit_eq_forM (s : Store) (w : Writer m) : s.visit w = s.events.forM w.handle :=
  s.visitEach_eq_forM w s.toList

theorem Sound.visitRange_eq {s : Store} (h : s.Sound) {start : Address}
    (hs : s.contains start = true) (stop : Address) (w : Writer m) :
    s.visitRange start stop w = .ok ((s.eventsOf (s.between start stop)).forM w.handle) := by
  unfold visitRange
  rw [h.slice_eq_between hs, ← visitEach_eq_forM]
  rfl

end Calls

/-! ## Visits that are noted -/

/-- The calls of a visit, as a writer notes them that takes them all. -/
def visitCalls (s : Store) : List Event :=
  ((s.visit CallLog.writer).run.run {}).2.seen.reverse

/-- The calls of a visit of a range. -/
def rangeCalls (s : Store) (start stop : Address) : Except StoreError (List Event) :=
  (s.visitRange start stop CallLog.writer).map fun visit => (visit.run.run {}).2.seen.reverse

theorem run_forM_note (es : List Event) (seen : List Event) :
    (es.forM CallLog.writer.handle).run.run ⟨seen, none⟩ =
      (.ok (), ⟨es.reverse ++ seen, none⟩) := by
  induction es generalizing seen with
  | nil => rfl
  | cons e es ih =>
    have hnote : (CallLog.writer.handle e).run.run ⟨seen, none⟩ =
        (.ok (), ⟨e :: seen, none⟩) := by
      cases e <;> rfl
    rw [run_forM_cons, hnote]
    simp only [ih, List.reverse_cons, List.append_assoc, List.singleton_append]

/-- The noted calls are those that the events stand for. -/
theorem visitCalls_eq (s : Store) : s.visitCalls = s.events := by
  rw [visitCalls, visit_eq_forM, run_forM_note]
  simp

theorem rangeCalls_eq (s : Store) (start stop : Address) :
    s.rangeCalls start stop = (s.slice start stop).map s.eventsOf := by
  unfold rangeCalls visitRange
  cases s.slice start stop with
  | error e => rfl
  | ok is =>
    simp only [Except.map, visitEach_eq_forM, run_forM_note]
    simp

/-! ## Cutting a rising list -/

/-- What lies low comes before what does not, if whatever lies below a low address is low. -/
theorem filter_split {is : List Instruction} (rising : (is.map (·.address)).Pairwise (· < ·))
    {low : Address → Bool} (down : ∀ a b, a < b → low b = true → low a = true)
    (q : Instruction → Bool) :
    is.filter q = (is.filter fun i => q i && low i.address) ++
      is.filter fun i => q i && !low i.address := by
  induction is with
  | nil => rfl
  | cons j is ih =>
    obtain ⟨hj, hrest⟩ := List.pairwise_cons.mp rising
    cases hlow : low j.address with
    | true =>
      simp only [List.filter_cons, ih hrest, hlow, Bool.and_true, Bool.not_true, Bool.and_false,
        Bool.false_eq_true, ↓reduceIte]
      split <;> rfl
    | false =>
      -- From here on nothing lies low.
      have hhigh : ∀ i ∈ j :: is, low i.address = false := by
        intro i hi
        rcases List.mem_cons.mp hi with rfl | hi
        · exact hlow
        · cases hi' : low i.address with
          | false => rfl
          | true =>
            have := down _ _ (hj _ (List.mem_map_of_mem hi)) hi'
            rw [hlow] at this
            cases this
      have hnone : ((j :: is).filter fun i => q i && low i.address) = [] := by
        rw [List.filter_eq_nil_iff]
        intro i hi
        simp [hhigh i hi]
      rw [hnone, List.nil_append]
      refine List.filter_congr fun i hi => ?_
      simp [hhigh i hi]

theorem lt_down (c a b : Address) (h : a < b) (hb : decide (b < c) = true) :
    decide (a < c) = true :=
  decide_eq_true (UInt32.lt_trans h (of_decide_eq_true hb))

theorem le_down (c a b : Address) (h : a < b) (hb : decide (b ≤ c) = true) :
    decide (a ≤ c) = true :=
  decide_eq_true (UInt32.le_trans (UInt32.le_of_lt h) (of_decide_eq_true hb))

/-- The ranges that begin at some starts: each ends just below the next start, the last one at the
highest address. -/
def tiles : List Address → List (Address × Address)
  | [] => []
  | [start] => [(start, Address.last)]
  | start :: next :: starts => (start, next - 1) :: tiles (next :: starts)

theorem le_pred_iff {a b c : Address} (h : a < b) : c ≤ b - 1 ↔ c < b := by
  have hone : (1 : UInt32) ≤ b := by
    rw [UInt32.le_iff_toNat_le]
    have := UInt32.lt_iff_toNat_lt.mp h
    simp; omega
  rw [UInt32.le_iff_toNat_le, UInt32.lt_iff_toNat_lt, UInt32.toNat_sub_of_le _ _ hone]
  have := UInt32.le_iff_toNat_le.mp hone
  simp only [UInt32.toNat_one] at this ⊢
  omega

variable {s : Store}

/-- Tiles make up the list from the first start on. -/
theorem Sound.flatMap_tiles (h : s.Sound) (start : Address) (starts : List Address)
    (rising : (start :: starts).Pairwise (· < ·)) :
    ((tiles (start :: starts)).flatMap fun r => s.between r.1 r.2) =
      s.toList.filter fun i => decide (start ≤ i.address) := by
  induction starts generalizing start with
  | nil =>
    simp [tiles, between, Address.le_last]
  | cons next starts ih =>
    obtain ⟨hstart, hrest⟩ := List.pairwise_cons.mp rising
    have hlt : start < next := hstart next List.mem_cons_self
    rw [tiles, List.flatMap_cons, ih next hrest]
    rw [filter_split h.ascending (lt_down next) fun i => decide (start ≤ i.address)]
    have hfirst : s.between start (next - 1) =
        s.toList.filter fun i => decide (start ≤ i.address) && decide (i.address < next) :=
      List.filter_congr fun i _ => by simp only [le_pred_iff hlt]
    have hothers : (s.toList.filter fun i => decide (next ≤ i.address)) =
        s.toList.filter fun i => decide (start ≤ i.address) && !decide (i.address < next) := by
      refine List.filter_congr fun i _ => ?_
      by_cases hi : i.address < next
      · simp [hi, UInt32.not_le.mpr hi]
      · have hle := UInt32.not_lt.mp hi
        simp [hi, hle, UInt32.le_trans (UInt32.le_of_lt hlt) hle]
    rw [hfirst, hothers]

/-- Every listed address is at or above the first one. -/
theorem Sound.first_le (h : s.Sound) {first i : Instruction} (hfirst : s.first? = some first)
    (hi : i ∈ s.toList) : first.address ≤ i.address := by
  rw [first?_eq] at hfirst
  obtain ⟨rest, hlist⟩ := List.head?_eq_some_iff.mp hfirst
  have hasc := h.ascending
  rw [addresses, hlist, List.map_cons] at hasc
  rw [hlist] at hi
  rcases List.mem_cons.mp hi with rfl | hi
  · exact UInt32.le_refl _
  · exact UInt32.le_of_lt ((List.pairwise_cons.mp hasc).1 _ (List.mem_map_of_mem hi))

/-- Tiles that begin at the first address make up the whole list. -/
theorem Sound.flatMap_tiles_eq_toList (h : s.Sound) {starts : List Address}
    (rising : starts.Pairwise (· < ·)) (first : starts.head? = s.first?.map (·.address)) :
    ((tiles starts).flatMap fun r => s.between r.1 r.2) = s.toList := by
  cases hfirst : s.first? with
  | none =>
    rw [hfirst, Option.map_none, List.head?_eq_none_iff] at first
    rw [first?_eq, List.head?_eq_none_iff] at hfirst
    rw [first, hfirst]
    rfl
  | some i =>
    rw [hfirst, Option.map_some] at first
    obtain ⟨rest, rfl⟩ := List.head?_eq_some_iff.mp first
    rw [h.flatMap_tiles i.address rest rising]
    exact List.filter_eq_self.mpr fun j hj => decide_eq_true (h.first_le hfirst hj)

/-! ## Ranges as blocks of the whole -/

/-- Without an end a range takes all that is listed from its start on. -/
theorem Sound.between_last (h : s.Sound) {low high : List Instruction} {i : Instruction}
    (hlist : s.toList = low ++ i :: high) : s.between i.address Address.last = i :: high := by
  have hp : s.toList[low.length]? = some i := by simp [hlist]
  have hdrop := drop_eq_filter h.ascending hp
  rw [hlist, List.drop_left, ← hlist] at hdrop
  rw [hdrop, between]
  refine List.filter_congr fun j _ => ?_
  simp [Address.le_last]

/-- The records below an address. -/
def below (s : Store) (start : Address) : List Instruction :=
  s.toList.filter fun i => decide (i.address < start)

/-- The records that a range leaves out after its start. -/
def beyond (s : Store) (start stop : Address) : List Instruction :=
  s.toList.filter fun i => decide (start ≤ i.address) && !decide (i.address ≤ stop)

theorem Sound.toList_cut (h : s.Sound) (start stop : Address) :
    s.toList = s.below start ++ s.between start stop ++ s.beyond start stop := by
  have hstart := filter_split h.ascending (lt_down start) fun _ => true
  have hstop := filter_split h.ascending (le_down stop) fun i => !decide (i.address < start)
  simp only [Bool.true_and] at hstart
  have hall : (s.toList.filter fun _ => true) = s.toList := List.filter_eq_self.mpr fun _ _ => rfl
  have hge : ∀ i : Instruction, (!decide (i.address < start)) = decide (start ≤ i.address) := by
    intro i
    by_cases hi : i.address < start
    · simp [hi, UInt32.not_le.mpr hi]
    · simp [hi, UInt32.not_lt.mp hi]
  rw [hall, hstop] at hstart
  simp only [hge] at hstart
  rw [List.append_assoc]
  exact hstart

/-- The events of a range are a block of the events of the whole visit. -/
theorem Sound.events_cut (h : s.Sound) (start stop : Address) :
    s.events = s.eventsOf (s.below start) ++ s.eventsOf (s.between start stop) ++
      s.eventsOf (s.beyond start stop) := by
  rw [← eventsOf_append, ← eventsOf_append, ← h.toList_cut start stop]
  rfl

end Bytecode.Store
