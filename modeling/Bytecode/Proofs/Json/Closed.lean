import Bytecode.Proofs.Json.Continuation
import Bytecode.Proofs.Json.Objects

/-!
# Values that close themselves

A list or an object is read up to a bracket of its own, a string up to its quote. What comes later
makes no difference to them, even if nothing was left behind them (`Closed`). It may make one to a
number, if the bytes ended with it; only a value that leaves something behind is read the same
(`Lasting`). Inside brackets every value leaves something behind, so lists and objects of lasting
values are closed.

For documents this says which bytes may be added: white space, and nothing else
(`Closed.document_append_eq_ok_iff`).
-/

namespace Bytecode.Json

variable {α β : Type} {ending : Ending} {s r : List UInt8}

/-- What is read, with something left behind, is read the same whatever comes later. -/
def Decoder.Lasting (d : Decoder α) : Prop :=
  ∀ (ending : Ending) (s r : List UInt8) (a : α), d.run ending s = .ok (a, r) → r ≠ [] →
    ∀ more, d.run ending (s ++ more) = .ok (a, r ++ more)

/-- What is read is read the same whatever comes later. -/
def Decoder.Closed (d : Decoder α) : Prop :=
  ∀ (ending : Ending) (s r : List UInt8) (a : α), d.run ending s = .ok (a, r) →
    ∀ more, d.run ending (s ++ more) = .ok (a, r ++ more)

namespace Decoder

theorem Closed.lasting {d : Decoder α} (h : d.Closed) : d.Lasting :=
  fun ending s r a hrun _ => h ending s r a hrun

theorem run_map_eq_ok_iff {d : Decoder α} {f : α → β} {b : β} :
    (d.map f).run ending s = .ok (b, r) ↔ ∃ a, d.run ending s = .ok (a, r) ∧ f a = b := by
  change (d.run ending s).map _ = _ ↔ _
  cases d.run ending s with
  | error e => simp [Except.map]
  | ok p => rcases p with ⟨a, t⟩; simp [Except.map, and_comm]

theorem Lasting.map {d : Decoder α} (h : d.Lasting) (f : α → β) : (d.map f).Lasting := by
  intro ending s r b hrun hr more
  obtain ⟨a, ha, hb⟩ := run_map_eq_ok_iff.mp hrun
  exact run_map_eq_ok_iff.mpr ⟨a, h ending s r a ha hr more, hb⟩

/-! ## Scalars -/

theorem lasting_number (expected : String) (accept : Number → Except Cause α) :
    (number expected accept).Lasting := by
  intro ending s r a h hr more
  change runNumber expected accept ending s = _ at h
  change runNumber expected accept ending (s ++ more) = _
  unfold runNumber at h
  split at h
  · cases h
  · rename_i b t hs
    split at h
    · rename_i hb
      split at h
      · cases h
      · rename_i n t' hnumber
        split at h
        · rename_i a' haccept
          cases h
          have hmore := readNumber_more hnumber hr more
          rw [List.cons_append] at hmore
          simp only [runNumber, skipBlank_more hs more, if_pos hb, hmore, haccept]
        · cases h
    · cases h

theorem closed_string (expected : String) (accept : String → Except Cause α) :
    (string expected accept).Closed := by
  intro ending s r a h more
  change runString expected accept ending s = _ at h
  change runString expected accept ending (s ++ more) = _
  unfold runString at h
  split at h
  · cases h
  · rename_i b t hs
    split at h
    · rename_i hb
      split at h
      · cases h
      · rename_i text t' hstring
        split at h
        · rename_i a' haccept
          cases h
          simp only [runString, skipBlank_more hs more, if_pos hb, readString_more hstring more,
            haccept]
        · cases h
    · cases h

theorem Lasting.nullable {d : Decoder α} (h : d.Lasting) : d.nullable.Lasting := by
  intro ending s r a hrun hr more
  change runNullable d ending s = _ at hrun
  change runNullable d ending (s ++ more) = _
  unfold runNullable at hrun
  split at hrun
  · -- No value is read from nothing.
    have := (d.map some).shrinks hrun
    cases this
  · rename_i b t hs
    simp only [runNullable, skipBlank_more hs more]
    split at hrun
    · rename_i hb
      rw [if_pos hb]
      cases hword : readWord ending nullTail t with
      | error f => rw [hword] at hrun; cases hrun
      | ok t' =>
        rw [hword] at hrun; cases hrun
        rw [readWord_more hword more]
        rfl
    · rename_i hb
      rw [if_neg hb]
      exact h.map some ending (b :: t) r a hrun hr more

end Decoder

/-! ## Lists -/

theorem nextItem_more {first : Bool} {item : Option (List UInt8)}
    (h : nextItem ending first s = .ok item) (more : List UInt8) :
    nextItem ending first (s ++ more) = .ok (item.map (· ++ more)) := by
  unfold nextItem at h
  split at h
  · cases h
  · rename_i b t hs
    simp only [nextItem, skipBlank_more hs more]
    split at h
    · rename_i hb
      cases h
      rw [if_pos hb]
      rfl
    rename_i hb
    rw [if_neg hb]
    split at h
    · rename_i hfirst
      cases h
      rw [if_pos hfirst]
      rfl
    rename_i hfirst
    rw [if_neg hfirst]
    split at h
    · rename_i hcomma
      rw [if_pos hcomma]
      split at h
      · cases h
      · rename_i c t' ht
        split at h
        · cases h
        · rename_i hc
          cases h
          simp only [skipBlank_more ht more, if_neg hc]
          rfl
    · cases h

theorem nextItem_eq_none {first : Bool} (h : nextItem ending first s = .ok none) :
    ∃ t, skipBlank s = 0x5D :: t := by
  unfold nextItem at h
  split at h
  · cases h
  · rename_i b t hs
    split at h
    · rename_i hb
      exact ⟨t, by rw [hs, hb]⟩
    split at h
    · cases h
    split at h
    · split at h
      · cases h
      · split at h <;> cases h
    · cases h

theorem ne_nil_of_skipBlank {b : UInt8} (h : skipBlank s = b :: r) : s ≠ [] := by
  rintro rfl
  cases h

theorem closeList_more (h : closeList ending s = .ok r) (more : List UInt8) :
    closeList ending (s ++ more) = .ok (r ++ more) := by
  unfold closeList at h
  split at h
  · cases h
  · rename_i b t hs
    split at h
    · rename_i hb
      cases h
      simp only [closeList, skipBlank_more hs more, if_pos hb]
    · split at h
      · split at h <;> cases h
      · cases h

theorem runItems_stops {d : Decoder α} {first : Bool} {done as : List α}
    (h : runItems d ending first done s = .ok (as, r)) : ∃ t, skipBlank r = 0x5D :: t := by
  fun_induction runItems d ending first done s with
  | case1 => cases h
  | case2 first done s hnone => cases h; exact nextItem_eq_none hnone
  | case3 => cases h
  | case4 first done s s' hitem a t hrun ih => exact ih h

theorem runItems_more {d : Decoder α} (hd : d.Lasting) {first : Bool} {done as : List α}
    (h : runItems d ending first done s = .ok (as, r)) (more : List UInt8) :
    runItems d ending first done (s ++ more) = .ok (as, r ++ more) := by
  fun_induction runItems d ending first done s with
  | case1 => cases h
  | case2 first done s hnone => cases h; exact runItems_stop (nextItem_more hnone more) done
  | case3 => cases h
  | case4 first done s s' hitem a t hrun ih =>
    -- The closing bracket is still to come, so the item left something behind.
    obtain ⟨_, hstop⟩ := runItems_stops h
    have ht : t ≠ [] := ne_nil_of_length_le (runItems_length h) (ne_nil_of_skipBlank hstop)
    rw [runItems_step (nextItem_more hitem more) (hd ending s' t a hrun ht more), ih h]

theorem Decoder.Lasting.list {d : Decoder α} (h : d.Lasting) : d.list.Closed := by
  intro ending s r as hrun more
  change runList d ending s = _ at hrun
  change runList d ending (s ++ more) = _
  unfold runList at hrun
  split at hrun
  · cases hrun
  · rename_i b t hs
    split at hrun
    · rename_i hb
      split at hrun
      · cases hrun
      · rename_i as' t' hitems
        cases hrun
        obtain ⟨left, hstop⟩ := runItems_stops hitems
        simp only [runList, skipBlank_more hs more, if_pos hb, runItems_more h hitems more,
          skipBlank_more hstop more, hstop, List.tail_cons]
    · cases hrun

/-! ## One of several named forms -/

theorem runVariant_more {known : List (String × Decoder α)} (hknown : ∀ p ∈ known, p.2.Lasting)
    {a : α} (h : runVariant known ending s = .ok (a, r)) (more : List UInt8) :
    runVariant known ending (s ++ more) = .ok (a, r ++ more) := by
  unfold runVariant at h
  split at h
  · cases h
  · rename_i name t₁ hname
    split at h
    · cases h
    · rename_i d hd
      split at h
      · cases h
      · rename_i t₂ hcolon
        split at h
        · cases h
        · rename_i a' t₃ hrun
          split at h
          · cases h
          · rename_i b t₄ hbrace
            split at h
            · rename_i hb
              cases h
              obtain ⟨l₁, l₂, rfl, _⟩ := List.lookup_eq_some_iff.mp hd
              have hlasting : d.Lasting := hknown (name, d) (by simp)
              have hmore := hlasting ending t₂ t₃ _ hrun (ne_nil_of_skipBlank hbrace) more
              simp only [runVariant, readString_more hname more, hd, readColon_more hcolon more,
                hmore, skipBlank_more hbrace more, if_pos hb]
            · cases h

theorem Decoder.closed_variants {known : List (String × Decoder α)}
    (hknown : ∀ p ∈ known, p.2.Lasting) : (variants known).Closed := by
  intro ending s r a h more
  change runVariants known ending s = _ at h
  change runVariants known ending (s ++ more) = _
  unfold runVariants at h
  split at h
  · cases h
  · rename_i b t hs
    split at h
    · rename_i hb
      split at h
      · cases h
      · rename_i c t' ht
        split at h
        · rename_i hc
          simp only [runVariants, skipBlank_more hs more, if_pos hb, skipBlank_more ht more,
            if_pos hc, runVariant_more hknown h more]
        · cases h
    · split at h <;> cases h

/-! ## Records -/

theorem Decoder.Lasting.field {σ : Type} {d : Decoder α} (h : d.Lasting) (name : String)
    (get : σ → Option α) (set : α → σ → σ) : (Field.of name get set d).value.Lasting :=
  h.map set

namespace Record

variable {σ : Type} {fields : List (Field σ)}

theorem runInOrder_more (hfields : ∀ field ∈ fields, field.value.Lasting) {count n : Nat}
    {draft draft' : σ} (h : runInOrder ending fields count draft s = .ok (draft', n, r))
    (hr : r ≠ []) (more : List UInt8) :
    runInOrder ending fields count draft (s ++ more) = .ok (draft', n, r ++ more) := by
  induction fields generalizing count draft s with
  | nil => cases h; rfl
  | cons field fields ih =>
    unfold runInOrder at h
    split at h
    · cases h
    · rename_i hnone
      cases h
      simp only [runInOrder, nextItem_more hnone more]
      rfl
    · rename_i s' hitem
      split at h
      · cases h
      · rename_i set t hvalue
        have ht : t ≠ [] := ne_nil_of_length_le (runInOrder_length h) hr
        have hmore := hfields field List.mem_cons_self ending s' t set hvalue ht more
        simp only [runInOrder, nextItem_more hitem more, Option.map_some, hmore,
          ih (fun other hmem => hfields other (List.mem_cons_of_mem _ hmem)) h]

theorem fromList_more {rc : Record σ α} (hfields : ∀ field ∈ rc.fields, field.value.Lasting)
    {a : α} (h : rc.fromList ending s = .ok (a, r)) (more : List UInt8) :
    rc.fromList ending (s ++ more) = .ok (a, r ++ more) := by
  unfold fromList at h
  split at h
  · cases h
  · rename_i draft count t hrun
    split at h
    · cases h
    · rename_i a' hfinish
      cases hclose : closeList ending t with
      | error f => rw [hclose] at h; cases h
      | ok t' =>
        rw [hclose] at h; cases h
        have ht : t ≠ [] := ne_nil_of_length_lt (closeList_length hclose)
        simp only [fromList, runInOrder_more hfields hrun ht more, hfinish,
          closeList_more hclose more]
        rfl

theorem nextName_more {first : Bool} {name : Option (List UInt8)}
    (h : nextName ending first s = .ok name) (more : List UInt8) :
    nextName ending first (s ++ more) = .ok (name.map (· ++ more)) := by
  unfold nextName at h
  split at h
  · cases h
  · rename_i b t hs
    simp only [nextName, skipBlank_more hs more]
    split at h
    · rename_i hb
      cases h
      rw [if_pos hb]
      rfl
    rename_i hb
    rw [if_neg hb]
    split at h
    · rename_i hfirst
      rw [if_pos hfirst]
      split at h
      · rename_i hquote
        cases h
        rw [if_pos hquote]
        rfl
      · cases h
    rename_i hfirst
    rw [if_neg hfirst]
    split at h
    · rename_i hcomma
      rw [if_pos hcomma]
      split at h
      · cases h
      · rename_i c t' ht
        split at h
        · rename_i hquote
          cases h
          simp only [skipBlank_more ht more, if_pos hquote]
          rfl
        · cases h
    · cases h

theorem nextName_eq_none {first : Bool} (h : nextName ending first s = .ok none) :
    ∃ t, skipBlank s = 0x7D :: t := by
  unfold nextName at h
  split at h
  · cases h
  · rename_i b t hs
    split at h
    · rename_i hb
      exact ⟨t, by rw [hs, hb]⟩
    split at h
    · split at h <;> cases h
    split at h
    · split at h
      · cases h
      · split at h <;> cases h
    · cases h

theorem runMember_more (hfields : ∀ field ∈ fields, field.value.Lasting) {draft draft' : σ}
    (h : runMember fields ending draft s = .ok (draft', r)) (hr : r ≠ []) (more : List UInt8) :
    runMember fields ending draft (s ++ more) = .ok (draft', r ++ more) := by
  unfold runMember at h
  split at h
  · cases h
  · rename_i name t hname
    split at h
    · rename_i field hfield
      split at h
      · cases h
      · rename_i hset
        split at h
        · cases h
        · rename_i t' hcolon
          cases hvalue : field.value.run ending t' with
          | error f => rw [hvalue] at h; cases h
          | ok p =>
            rw [hvalue] at h; cases h
            have hlasting := hfields field (List.mem_of_find?_eq_some hfield)
            simp only [runMember, readString_more hname more, hfield, if_neg hset,
              readColon_more hcolon more, hlasting ending t' _ _ hvalue hr more]
            rfl
    · rename_i hfield
      split at h
      · cases h
      · rename_i t' hcolon
        cases hvalue : skipValue ending t' with
        | error f => rw [hvalue] at h; cases h
        | ok t'' =>
          rw [hvalue] at h; cases h
          simp only [runMember, readString_more hname more, hfield, readColon_more hcolon more,
            skipValue_more hvalue hr more]
          rfl

theorem runMembers_stops {first : Bool} {draft draft' : σ}
    (h : runMembers fields ending first draft s = .ok (draft', r)) :
    ∃ t, skipBlank r = 0x7D :: t := by
  fun_induction runMembers fields ending first draft s with
  | case1 => cases h
  | case2 first draft s hnone => cases h; exact nextName_eq_none hnone
  | case3 => cases h
  | case4 first draft s s' hname draft'' t hmember ih => exact ih h

theorem runMembers_more (hfields : ∀ field ∈ fields, field.value.Lasting) {first : Bool}
    {draft draft' : σ} (h : runMembers fields ending first draft s = .ok (draft', r))
    (more : List UInt8) :
    runMembers fields ending first draft (s ++ more) = .ok (draft', r ++ more) := by
  fun_induction runMembers fields ending first draft s with
  | case1 => cases h
  | case2 first draft s hnone => cases h; exact runMembers_stop (nextName_more hnone more) _
  | case3 => cases h
  | case4 first draft s s' hname draft'' t hmember ih =>
    obtain ⟨_, hstop⟩ := runMembers_stops h
    have ht : t ≠ [] := ne_nil_of_length_le (runMembers_length h) (ne_nil_of_skipBlank hstop)
    rw [runMembers_step (nextName_more hname more) (runMember_more hfields hmember ht more), ih h]

theorem fromObject_more {rc : Record σ α} (hfields : ∀ field ∈ rc.fields, field.value.Lasting)
    {a : α} (h : rc.fromObject ending s = .ok (a, r)) (more : List UInt8) :
    rc.fromObject ending (s ++ more) = .ok (a, r ++ more) := by
  unfold fromObject at h
  split at h
  · cases h
  · rename_i draft t hrun
    split at h
    · cases h
    · rename_i a' hfinish
      cases h
      obtain ⟨left, hstop⟩ := runMembers_stops hrun
      simp only [fromObject, runMembers_more hfields hrun more, hfinish, skipBlank_more hstop more,
        hstop, List.tail_cons]

/-- A record is read up to the bracket or brace that closes it. -/
theorem closed_record {rc : Record σ α} (hfields : ∀ field ∈ rc.fields, field.value.Lasting) :
    rc.decoder.Closed := by
  intro ending s r a h more
  change rc.run ending s = _ at h
  change rc.run ending (s ++ more) = _
  unfold run at h
  split at h
  · cases h
  · rename_i b t hs
    simp only [run, skipBlank_more hs more]
    split at h
    · rename_i hlist
      have hmore := fromList_more hfields (mapError_eq_ok_iff.mp h) more
      rw [if_pos hlist, hmore]
      rfl
    rename_i hlist
    rw [if_neg hlist]
    split at h
    · rename_i hobject
      have hmore := fromObject_more hfields (mapError_eq_ok_iff.mp h) more
      rw [if_pos hobject, hmore]
      rfl
    · cases h

end Record

/-! ## Documents -/

theorem skipBlank_eq_nil_iff : skipBlank s = [] ↔ Blanks s := by
  induction s with
  | nil => exact ⟨fun _ => blanks_nil, fun _ => rfl⟩
  | cons b s ih =>
    unfold Blanks at ih ⊢
    rw [List.forall_mem_cons, ← ih]
    cases hb : isBlank b <;> simp [skipBlank, hb]

namespace Decoder

/-- A document is a value with white space behind it, from a reader that reaches the end. -/
theorem document_eq_ok_iff {d : Decoder α} {source : Source} {a : α} :
    d.document source = .ok a ↔ source.ending = .complete ∧
      ∃ r, d.run source.ending source.bytes = .ok (a, r) ∧ Blanks r := by
  rw [document, mapError_eq_ok_iff]
  constructor
  · intro h
    obtain ⟨⟨a', r⟩, hrun, h⟩ := ok_of_bind h
    dsimp only at h
    split at h
    · rename_i hblank
      obtain ⟨_, hlook, h⟩ := ok_of_bind h
      cases h
      refine ⟨?_, r, hrun, skipBlank_eq_nil_iff.mp hblank⟩
      cases hending : source.ending with
      | complete => rfl
      | broken error => rw [hending] at hlook; cases hlook
    · cases h
  · rintro ⟨hending, r, hrun, hblank⟩
    rw [hrun]
    simp only [bind, Except.bind, skipBlank_eq_nil_iff.mpr hblank, hending]
    rfl

/-- No document is read from a reader that fails where it should end. -/
theorem document_broken (d : Decoder α) (bytes : List UInt8) (error : SystemError) :
    ∃ e, d.document ⟨bytes, .broken error⟩ = .error e := by
  cases h : d.document ⟨bytes, .broken error⟩ with
  | ok a => cases (document_eq_ok_iff.mp h).1
  | error e => exact ⟨e, rfl⟩

/-- To a document of a closed value white space may be added, and nothing else. -/
theorem Closed.document_append_eq_ok_iff {d : Decoder α} (h : d.Closed) {p : List UInt8} {a : α}
    (hp : d.document ⟨p, .complete⟩ = .ok a) (more : List UInt8) (a' : α) :
    d.document ⟨p ++ more, .complete⟩ = .ok a' ↔ a' = a ∧ Blanks more := by
  obtain ⟨_, r, hrun, hr⟩ := document_eq_ok_iff.mp hp
  have hmore := h .complete p r a hrun more
  rw [document_eq_ok_iff]
  constructor
  · rintro ⟨_, r', hrun', hr'⟩
    obtain ⟨rfl, rfl⟩ := Prod.mk.inj (Except.ok.inj (hmore.symm.trans hrun'))
    exact ⟨rfl, fun b hb => hr' b (List.mem_append_right r hb)⟩
  · rintro ⟨rfl, hblank⟩
    exact ⟨rfl, r ++ more, hmore, hr.append hblank⟩

end Decoder

end Bytecode.Json
