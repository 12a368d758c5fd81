import Bytecode.Proofs.Json.Reads
import Mathlib.Data.List.Forall2

/-!
# Lists that a decoder reads

The items of a list stand between commas and white space (`Separated`). Reading goes from item to
item: a comma leads to the next item exactly as the opening bracket leads to the first one
(`nextItem_comma`), so one induction over the separators covers every spacing
(`runItems_separated`).
-/

namespace Bytecode.Json

/-! ## Separated items -/

/-- `text` holds `items`, with commas between them and white space around them. -/
inductive Separated : List (List UInt8) → List UInt8 → Prop
  | none {ws} : Blanks ws → Separated [] ws
  | last {before item after} : Blanks before → Blanks after →
      Separated [item] (before ++ (item ++ after))
  | more {before item after next items text} : Blanks before → Blanks after →
      Separated (next :: items) text →
      Separated (item :: next :: items) (before ++ (item ++ (after ++ 0x2C :: text)))

/-- Before the first item there is only white space, which may be left out. -/
theorem Separated.first {item text : List UInt8} {items : List (List UInt8)}
    (h : Separated (item :: items) text) :
    ∃ before text', Blanks before ∧ text = before ++ (item ++ text') ∧
      Separated (item :: items) (item ++ text') := by
  cases h with
  | last hbefore hafter => exact ⟨_, _, hbefore, rfl, .last blanks_nil hafter⟩
  | more hbefore hafter hrest => exact ⟨_, _, hbefore, rfl, .more blanks_nil hafter hrest⟩

/-! ## Lists -/

theorem nextItem_stop (first : Bool) {ws : List UInt8} (hws : Blanks ws) (rest : List UInt8) :
    nextItem .complete first (ws ++ 0x5D :: rest) = .ok none := by
  unfold nextItem
  rw [skipBlank_token hws rfl]
  simp

theorem nextItem_first {text : List UInt8} (h : Starts text) {before : List UInt8}
    (hbefore : Blanks before) (s : List UInt8) :
    nextItem .complete true (before ++ (text ++ s)) = .ok (some (text ++ s)) := by
  have hskip := h.skipBlank_eq hbefore s
  obtain ⟨b, t, rfl, hb⟩ := h
  have hne : b ≠ 0x5D := ne_of_endsValue hb rfl
  unfold nextItem
  rw [hskip, List.cons_append]
  simp [hne]

theorem nextItem_next {text : List UInt8} (h : Starts text) {before after : List UInt8}
    (hafter : Blanks after) (hbefore : Blanks before) (s : List UInt8) :
    nextItem .complete false (after ++ 0x2C :: (before ++ (text ++ s))) =
      .ok (some (text ++ s)) := by
  have hskip := h.skipBlank_eq hbefore s
  obtain ⟨b, t, rfl, hb⟩ := h
  have hne : b ≠ 0x5D := ne_of_endsValue hb rfl
  unfold nextItem
  rw [skipBlank_token hafter rfl]
  simp only [Bool.false_eq_true, ↓reduceIte]
  rw [hskip, List.cons_append]
  simp [hne]

theorem runItems_stop {d : Decoder α} {ending : Ending} {first : Bool} {s : List UInt8}
    (h : nextItem ending first s = .ok none) (done : List α) :
    runItems d ending first done s = .ok (done.reverse, s) := by
  rw [runItems]
  split
  · rename_i f hf
    rw [h] at hf; cases hf
  · rfl
  · rename_i t ht
    rw [h] at ht; cases ht

theorem runItems_step {d : Decoder α} {ending : Ending} {first : Bool} {s t r : List UInt8} {a : α}
    (h : nextItem ending first s = .ok (some t)) (hrun : d.run ending t = .ok (a, r))
    (done : List α) :
    runItems d ending first done s = runItems d ending false (a :: done) r := by
  rw [runItems]
  split
  · rename_i f hf
    rw [h] at hf; cases hf
  · rename_i hnone
    rw [h] at hnone; cases hnone
  · rename_i t' ht
    rw [h] at ht; cases ht
    split
    · rename_i f hf
      rw [hrun] at hf; cases hf
    · rename_i a' r' hr
      rw [hrun] at hr; cases hr
      rfl

/-- A comma leads to the next item, as an opening bracket leads to the first one. -/
theorem nextItem_comma {item text after : List UInt8} {items : List (List UInt8)}
    (hsep : Separated (item :: items) text) (h : Starts item) (hafter : Blanks after)
    (s : List UInt8) :
    nextItem .complete false (after ++ 0x2C :: (text ++ s)) =
      nextItem .complete true (text ++ s) := by
  obtain ⟨before, text', hbefore, rfl, -⟩ := hsep.first
  rw [List.append_assoc, List.append_assoc, nextItem_first h hbefore,
    nextItem_next h hafter hbefore]

/-- From where the first of some items is found, all are read in order, up to the white space before
the bracket. -/
theorem runItems_separated {d : Decoder α} {items : List (List UInt8)} {text : List UInt8}
    (hsep : Separated items text) (hne : items ≠ []) {as : List α}
    (h : List.Forall₂ d.Reads items as) (rest : List UInt8) {first : Bool} {s : List UInt8}
    (hs : nextItem .complete first s = nextItem .complete true (text ++ 0x5D :: rest))
    (done : List α) :
    ∃ ws, Blanks ws ∧
      runItems d .complete first done s = .ok (done.reverse ++ as, ws ++ 0x5D :: rest) := by
  have hbracket : Delimited (0x5D :: rest) := delimited_cons rfl rest
  -- After an item the reader stands before a comma, so the place `s` varies along the separators.
  induction hsep generalizing as first s done with
  | none hws => exact absurd rfl hne
  | @last before item after hbefore hafter =>
    obtain ⟨a, as, ha, hnil, rfl⟩ := List.forall₂_cons_left_iff.mp h
    cases hnil
    have hrun := ha.run [] (after ++ 0x5D :: rest) blanks_nil (hbracket.after_blanks hafter)
    rw [List.append_assoc, List.append_assoc, nextItem_first ha.starts hbefore] at hs
    refine ⟨after, hafter, ?_⟩
    rw [runItems_step hs hrun, runItems_stop (nextItem_stop false hafter rest), List.reverse_cons]
  | @more before item after next items text hbefore hafter hrest ih =>
    obtain ⟨a, as, ha, has, rfl⟩ := List.forall₂_cons_left_iff.mp h
    obtain ⟨b, bs, hb, -, -⟩ := List.forall₂_cons_left_iff.mp has
    have hcomma : Delimited (0x2C :: (text ++ 0x5D :: rest)) := delimited_cons rfl _
    have hrun := ha.run [] _ blanks_nil (hcomma.after_blanks hafter)
    simp only [List.append_assoc, List.cons_append] at hs
    rw [nextItem_first ha.starts hbefore] at hs
    obtain ⟨ws, hws, hall⟩ :=
      ih (by simp) has (nextItem_comma hrest hb.starts hafter _) (a :: done)
    refine ⟨ws, hws, ?_⟩
    rw [runItems_step hs hrun, hall, List.reverse_cons, List.append_assoc]
    rfl

theorem Decoder.reads_list {d : Decoder α} {items : List (List UInt8)} {text : List UInt8}
    (hsep : Separated items text) {as : List α} (h : List.Forall₂ d.Reads items as) :
    d.list.Reads (0x5B :: (text ++ [0x5D])) as := by
  constructor
  · exact ⟨0x5B, _, rfl, rfl⟩
  · intro ws rest hws _
    have hitems : ∃ left, Blanks left ∧
        runItems d .complete true [] (text ++ 0x5D :: rest) = .ok (as, left ++ 0x5D :: rest) := by
      by_cases hne : items = []
      · subst hne
        cases h
        cases hsep with
        | none htext => exact ⟨text, htext, runItems_stop (nextItem_stop true htext rest) []⟩
      · exact runItems_separated hsep hne h rest rfl []
    obtain ⟨left, hleft, hrun⟩ := hitems
    show runList d .complete _ = _
    unfold runList
    rw [List.cons_append, skipBlank_token hws rfl, List.append_assoc]
    simp only [↓reduceIte, List.singleton_append, hrun]
    rw [skipBlank_token hleft rfl]
    rfl

end Bytecode.Json
