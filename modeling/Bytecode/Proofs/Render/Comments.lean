import Bytecode.Proofs.Render.Ranges
import Bytecode.Proofs.Store.Comments
import Mathlib.Data.List.Forall2

/-!
# Comments in the assembly text

A comment is shown at the end of the line of its instruction and nowhere else: each line is a stem
and the text of the comment (`eventText_eq`), and the stem is the one of the store without comments
(`lineStem_bare`). With what is known of stores that are equal without their comments, histories
that differ in their comments only are told apart by the ends of some lines alone (`undisturbed`).

* `commentText`: what a comment adds to a line;
* `SameLine`: two calls write one line, with a comment of its own each;
* `Undisturbed`: all that two histories have in common if they differ in comments only.
-/

namespace Bytecode

/-- The comment on the instruction that a call hands over. -/
def Event.comment? : Event → Option String
  | .label _ => none
  | .instruction i => i.comment

namespace Render

open Store

/-- What a comment adds to a line; an empty one still adds its semicolon. -/
def commentText : Option String → String
  | none => ""
  | some text => "  ; " ++ text

/-- The line of a call, up to the comment. -/
def lineStem (settings : Settings) (store : Store) : Event → String
  | .label a => Label.text ⟨settings.labelStem, a⟩ ++ ":"
  | .instruction i => String.join (startPieces settings i ++ bodyPieces settings store i)

/-- A line is its stem, the comment and a line feed. -/
theorem eventText_eq (settings : Settings) (store : Store) (e : Event) :
    eventText settings store e = lineStem settings store e ++ commentText e.comment? ++ "\n" := by
  cases e with
  | label a =>
    simp [eventText, eventPieces, labelPieces, lineStem, commentText, Event.comment?,
      String.append_assoc]
  | instruction i =>
    have hcomment : String.join (commentPieces i) = commentText i.comment := by
      unfold commentPieces
      cases i.comment <;> simp [commentText]
    rw [eventText, eventPieces, linePieces, String.join_append, String.join_append, hcomment]
    simp [lineStem, Event.comment?]

/-- The stem does not depend on any comment. -/
theorem lineStem_bare (settings : Settings) (store : Store) (e : Event) :
    lineStem settings store.bare e.bare = lineStem settings store e := by
  cases e <;> rfl

/-- Two calls differ in the comment only, and write the same line up to it. -/
def SameLine (settings : Settings) (s s' : Store) (e e' : Event) : Prop :=
  e.bare = e'.bare ∧ ∃ line,
    eventText settings s e = line ++ commentText e.comment? ++ "\n" ∧
    eventText settings s' e' = line ++ commentText e'.comment? ++ "\n"

theorem sameLine_of_bare_eq (settings : Settings) {s s' : Store} (hstore : s.bare = s'.bare)
    {e e' : Event} (he : e.bare = e'.bare) : SameLine settings s s' e e' := by
  have hstem : lineStem settings s e = lineStem settings s' e' := by
    rw [← lineStem_bare, hstore, he, lineStem_bare]
  exact ⟨he, lineStem settings s e, eventText_eq settings s e, hstem ▸ eventText_eq settings s' e'⟩

theorem forall₂_sameLine (settings : Settings) {s s' : Store} (hstore : s.bare = s'.bare)
    {es es' : List Event} (h : es.map Event.bare = es'.map Event.bare) :
    List.Forall₂ (SameLine settings s s') es es' := by
  have hpairs : List.Forall₂ (fun e e' : Event => e.bare = e'.bare) es es' := by
    rw [← List.forall₂_eq_eq_eq] at h
    exact List.forall₂_map_right_iff.mp (List.forall₂_map_left_iff.mp h)
  exact hpairs.imp fun _ _ => sameLine_of_bare_eq settings hstore

/-! ## The bytes of noted calls -/

theorem wholeBytes_eq_calls (settings : Settings) (s : Store) :
    wholeBytes settings s = eventsBytes settings s s.visitCalls := by
  rw [wholeBytes_eq, visitCalls_eq]

theorem rangeBytes_eq_calls (settings : Settings) (s : Store) (start stop : Address) :
    rangeBytes settings s (start, stop) =
      (s.rangeCalls start stop).map (eventsBytes settings s) := by
  rw [rangeBytes, visitRange, rangeCalls_eq]
  cases s.slice start stop with
  | error e => rfl
  | ok is =>
    simp only [Except.map, visitEach_eq_forM, (writes_events settings s _).run_none]

/-! ## Two histories -/

/-- What a store that some offers have built shows, in terms of its calls and of the comments that
the offers brought. -/
structure ShowsOffers (settings : Settings) (os : List Offer) : Prop where
  /-- Each stored instruction is one that was taken, with the last comment set on it. -/
  comments : (empty.run os).toList.map (fun i => (i.bare, i.comment)) =
    (empty.accepted os).map fun o => (o.instruction.bare, o.allComments.getLast?)
  /-- So is each instruction that some query or visit gives. -/
  seen : ∀ i, (empty.run os).Seen i → ∃ o ∈ empty.accepted os,
    i.bare = o.instruction.bare ∧ i.comment = o.allComments.getLast?
  /-- The text is that of the calls, line by line. -/
  whole : wholeBytes settings (empty.run os) =
    eventsBytes settings (empty.run os) (empty.run os).visitCalls
  range : ∀ start stop, rangeBytes settings (empty.run os) (start, stop) =
    ((empty.run os).rangeCalls start stop).map (eventsBytes settings (empty.run os))

theorem shows_run (settings : Settings) (os : List Offer) : ShowsOffers settings os where
  comments := map_comment_run os
  seen _ h := comment_of_seen_run os h
  whole := wholeBytes_eq_calls settings _
  range := rangeBytes_eq_calls settings _

/-- What two histories have in common that differ in comments only. -/
structure Undisturbed (settings : Settings) (os os' : List Offer) : Prop where
  answers : empty.answers os = empty.answers os'
  alike : AlikeButComments (empty.run os) (empty.run os')
  shows : ShowsOffers settings os ∧ ShowsOffers settings os'
  lines : List.Forall₂ (SameLine settings (empty.run os) (empty.run os'))
    (empty.run os).visitCalls (empty.run os').visitCalls
  rangeLines : ∀ start stop es es', (empty.run os).rangeCalls start stop = .ok es →
    (empty.run os').rangeCalls start stop = .ok es' →
    List.Forall₂ (SameLine settings (empty.run os) (empty.run os')) es es'

/-- **Comments do not interfere.** Two histories that offer the same instructions in the same order,
with whatever comments before and after each is taken, get the same answers. Their stores answer
alike but for comments, each shows the last comment set on an instruction, and their texts are the
same line by line, once the comment is dropped from each. -/
theorem undisturbed (settings : Settings) {os os' : List Offer}
    (same : os.map Offer.bare = os'.map Offer.bare) : Undisturbed settings os os' := by
  obtain ⟨hstore, hanswers⟩ := run_of_bare_eq same
  have hals := alike_of_bare_eq hstore
  refine ⟨hanswers, hals, ⟨shows_run settings os, shows_run settings os'⟩,
    forall₂_sameLine settings hstore hals.calls, ?_⟩
  intro start stop es es' hes hes'
  have hmap := hals.rangeCalls start stop
  rw [hes, hes'] at hmap
  exact forall₂_sameLine settings hstore (Except.ok.inj hmap)

/-- A comment that comes with its instruction, one that is replaced twice, an empty one, and one on
an instruction that is refused, against none at all. -/
theorem undisturbed_by_all_kinds :
    let os : List Offer :=
      [⟨⟨0, "jmp", [], .branch 4, some "first"⟩, []⟩,
        ⟨⟨4, "ret", [], .plain, none⟩, ["a", "b", ""]⟩,
        ⟨⟨2, "late", [], .branch 0, some "lost"⟩, ["never set"]⟩]
    let os' : List Offer :=
      [⟨⟨0, "jmp", [], .branch 4, none⟩, []⟩, ⟨⟨4, "ret", [], .plain, none⟩, []⟩,
        ⟨⟨2, "late", [], .branch 0, none⟩, []⟩]
    os.map Offer.bare = os'.map Offer.bare ∧ Undisturbed {} os os' :=
  ⟨by decide, undisturbed {} (by decide)⟩

end Render

end Bytecode
