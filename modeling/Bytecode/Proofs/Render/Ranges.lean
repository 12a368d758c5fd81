import Bytecode.Proofs.Render.Output
import Bytecode.Proofs.Store.Visits
import Bytecode.Render.Text

/-!
# Ranges of the assembly text

The text of a visit is the text of its events, one after the other, and the text of an event
depends on the settings and the store only: not on the range in which it is shown, and not on what
was written before (`writes_events`). So a text is cut wherever its events are cut: the texts of
ranges that tile the store make up the whole text, and any range is a block of it.
-/

namespace Bytecode.Render

open Store

/-- The bytes of some events. -/
def eventsBytes (settings : Settings) (store : Store) (es : List Event) : ByteArray :=
  (String.join (es.map (eventText settings store))).toUTF8

theorem eventsBytes_append (settings : Settings) (store : Store) (es fs : List Event) :
    eventsBytes settings store (es ++ fs) =
      eventsBytes settings store es ++ eventsBytes settings store fs := by
  simp [eventsBytes, String.join_append]

/-- The bytes that are written for the whole store. -/
def wholeBytes (settings : Settings) (store : Store) : ByteArray :=
  ((store.visit (textWriter settings store)).run none).1

/-- The bytes that are written for a range. -/
def rangeBytes (settings : Settings) (store : Store) (range : Address × Address) :
    Except StoreError ByteArray :=
  (store.visitRange range.1 range.2 (textWriter settings store)).map fun out => (out.run none).1

/-! ## The text of events -/

/-- Writes the pieces of each call, one after the other. -/
def pieceWriter (pieces : Event → List String) : Writer Output where
  label a := Output.writeAll (pieces (.label a))
  instruction i := Output.writeAll (pieces (.instruction i))

theorem writes_pieces (pieces : Event → List String) (e : Event) :
    ((pieceWriter pieces).handle e).Writes (String.join (pieces e)).toUTF8 := by
  cases e with
  | label a => exact Output.writes_writeAll (pieces (.label a))
  | instruction i => exact Output.writes_writeAll (pieces (.instruction i))

/-- However the text of the calls is cut into pieces, its bytes are written. -/
theorem writes_forM_pieces (pieces : Event → List String) (es : List Event) :
    Output.Writes (es.forM (pieceWriter pieces).handle)
      (String.join (es.map fun e => String.join (pieces e))).toUTF8 := by
  induction es with
  | nil => exact Output.writes_pure
  | cons e es ih =>
    rw [List.map_cons, String.join_cons, String.toUTF8_eq_toByteArray, String.toByteArray_append]
    exact (writes_pieces pieces e).seq ih

theorem writes_event (settings : Settings) (store : Store) (e : Event) :
    ((textWriter settings store).handle e).Writes (eventText settings store e).toUTF8 :=
  writes_pieces (eventPieces settings store) e

theorem writes_events (settings : Settings) (store : Store) (es : List Event) :
    Output.Writes (es.forM (textWriter settings store).handle) (eventsBytes settings store es) :=
  writes_forM_pieces (eventPieces settings store) es

theorem wholeBytes_eq (settings : Settings) (store : Store) :
    wholeBytes settings store = eventsBytes settings store store.events := by
  rw [wholeBytes, visit_eq_forM, (writes_events settings store _).run_none]

theorem rangeBytes_eq (settings : Settings) {store : Store} (h : store.Sound) {start : Address}
    (hs : store.contains start = true) (stop : Address) :
    rangeBytes settings store (start, stop) =
      .ok (eventsBytes settings store (store.eventsOf (store.between start stop))) := by
  rw [rangeBytes, h.visitRange_eq hs, Except.map, (writes_events settings store _).run_none]

/-! ## Tiles -/

/-- Each tile that starts at a stored address is shown, and the texts of some tiles are the text
of all their records. -/
theorem mapM_rangeBytes (settings : Settings) {store : Store} (h : store.Sound)
    (ranges : List (Address × Address)) (stored : ∀ r ∈ ranges, store.contains r.1 = true) :
    ∃ chunks, ranges.mapM (rangeBytes settings store) = .ok chunks ∧
      ∀ done, chunks.foldl (· ++ ·) done = done ++ eventsBytes settings store
        (store.eventsOf (ranges.flatMap fun r => store.between r.1 r.2)) := by
  induction ranges with
  | nil => exact ⟨[], rfl, fun done => by simp [eventsOf, eventsBytes]⟩
  | cons r ranges ih =>
    obtain ⟨chunks, hchunks, hbytes⟩ := ih fun q hq => stored q (List.mem_cons_of_mem _ hq)
    have hr := rangeBytes_eq settings h (stored r List.mem_cons_self) r.2
    refine ⟨eventsBytes settings store (store.eventsOf (store.between r.1 r.2)) :: chunks, ?_,
      fun done => ?_⟩
    · rw [List.mapM_cons, hr, hchunks]
      rfl
    · rw [List.foldl_cons, hbytes, List.flatMap_cons, eventsOf_append, eventsBytes_append,
        ByteArray.append_assoc]

theorem starts_of_tiles {starts : List Address} {r : Address × Address} (hr : r ∈ tiles starts) :
    r.1 ∈ starts := by
  induction starts with
  | nil => simp [tiles] at hr
  | cons start starts ih =>
    cases starts with
    | nil =>
      rw [tiles, List.mem_singleton] at hr
      simp [hr]
    | cons next starts =>
      rw [tiles] at hr
      rcases List.mem_cons.mp hr with rfl | hr
      · exact List.mem_cons_self
      · exact List.mem_cons_of_mem _ (ih hr)

/-- **Ranges tile the text.** Ranges that begin at rising stored addresses, from the first one on,
and end just below the next start are all shown, and their bytes, one after the other, are the
bytes of the whole visit. Any range is a block of the whole: the same events give the same bytes
there, between those below its start and those beyond its end. -/
theorem tiles_make_whole (os : List Offer) (settings : Settings) (starts : List Address)
    (rising : starts.Pairwise (· < ·))
    (stored : ∀ a ∈ starts, (empty.run os).contains a = true)
    (first : starts.head? = (empty.run os).first?.map (·.address)) :
    let s := empty.run os
    (∃ chunks, (tiles starts).mapM (rangeBytes settings s) = .ok chunks ∧
      chunks.foldl (· ++ ·) ByteArray.empty = wholeBytes settings s) ∧
    ∀ start stop, s.contains start = true →
      s.events = s.eventsOf (s.below start) ++ s.eventsOf (s.between start stop) ++
        s.eventsOf (s.beyond start stop) ∧
      rangeBytes settings s (start, stop) =
        .ok (eventsBytes settings s (s.eventsOf (s.between start stop))) ∧
      wholeBytes settings s = eventsBytes settings s (s.eventsOf (s.below start)) ++
        eventsBytes settings s (s.eventsOf (s.between start stop)) ++
        eventsBytes settings s (s.eventsOf (s.beyond start stop)) := by
  intro s
  have h : s.Sound := sound_run os
  constructor
  · obtain ⟨chunks, hchunks, hbytes⟩ :=
      mapM_rangeBytes settings h (tiles starts) fun r hr => stored _ (starts_of_tiles hr)
    refine ⟨chunks, hchunks, ?_⟩
    rw [hbytes, h.flatMap_tiles_eq_toList rising first, wholeBytes_eq, ByteArray.empty_append]
    rfl
  · intro start stop hs
    have hcut := h.events_cut start stop
    refine ⟨hcut, rangeBytes_eq settings h hs stop, ?_⟩
    rw [wholeBytes_eq, hcut, eventsBytes_append, eventsBytes_append]

/-- A cut at a labelled instruction, and one at the highest address. -/
theorem tiles_make_whole_at_label :
    let os : List Offer :=
      [⟨⟨0, "push", [.integer 2], .plain, none⟩, []⟩,
        ⟨⟨4, "jmp", [.reference 8], .branch 8, none⟩, ["a", "b"]⟩,
        ⟨⟨8, "ret", [], .branch 0xFFFFFFFF, some ""⟩, []⟩,
        ⟨⟨2, "late", [], .branch 0, none⟩, []⟩,
        ⟨⟨0xFFFFFFFF, "end", [], .plain, none⟩, []⟩]
    let s := empty.run os
    ∃ chunks, (tiles [0, 8, 0xFFFFFFFF]).mapM (rangeBytes {} s) = .ok chunks ∧
      chunks.foldl (· ++ ·) ByteArray.empty = wholeBytes {} s :=
  (tiles_make_whole _ {} [0, 8, 0xFFFFFFFF] (by decide)
    (List.all_eq_true.mp (by decide +kernel)) (by decide)).1

end Bytecode.Render
