import Bytecode.Json.Record
import Bytecode.Proofs.Json.Lists

/-!
# Objects that a decoder reads

An object of one named form is read as its content is (`reads_variants`). The members of a record
are steps on a draft: a known member sets its field, an unknown one is skipped and changes
nothing, and an object is read as the record of the draft to which its members lead
(`reads_object`).
-/

namespace Bytecode.Json

/-! ## Names -/

/-- `key` stands between the opening quote of a member's name and its value. -/
def Names (key : List UInt8) (name : String) : Prop :=
  ∃ body before, Quotes body name ∧ Blanks before ∧ key = body ++ (before ++ [0x3A])

theorem Names.read {key : List UInt8} {name : String} (h : Names key name) (s : List UInt8) :
    ∃ r, readString .complete (key ++ s) = .ok (name, r) ∧ readColon .complete r = .ok s := by
  obtain ⟨body, before, hbody, hbefore, rfl⟩ := h
  refine ⟨before ++ 0x3A :: s, ?_, ?_⟩
  · rw [List.append_assoc, List.append_assoc]
    exact hbody _ _
  · unfold readColon
    rw [skipBlank_token hbefore rfl]
    simp

/-! ## One of several named forms -/

/-- An object of one member is read as its content is, where its name is known. -/
theorem Decoder.reads_variants {known : List (String × Decoder α)} {name : String} {d : Decoder α}
    (hknown : known.lookup name = some d) {key before text after lead : List UInt8} {a : α}
    (hkey : Names key name) (hlead : Blanks lead) (hbefore : Blanks before) (hafter : Blanks after)
    (h : d.Reads text a) :
    (variants known).Reads
      (0x7B :: (lead ++ 0x22 :: (key ++ (before ++ (text ++ (after ++ [0x7D])))))) a := by
  constructor
  · exact ⟨0x7B, _, rfl, rfl⟩
  · intro ws rest hws _
    have hbrace : Delimited (0x7D :: rest) := delimited_cons rfl rest
    obtain ⟨r, hname, hcolon⟩ := hkey.read (before ++ (text ++ (after ++ 0x7D :: rest)))
    have hrun := h.run before _ hbefore (hbrace.after_blanks hafter)
    show runVariants known .complete _ = _
    unfold runVariants
    rw [List.cons_append, skipBlank_token hws rfl]
    simp only [↓reduceIte, List.append_assoc, List.cons_append, List.nil_append]
    rw [skipBlank_token hlead rfl]
    simp only [↓reduceIte, runVariant, hname, hknown, hcolon, hrun]
    rw [skipBlank_token hafter rfl]
    simp

/-! ## Members -/

/-- `text` is a value that nobody asked for. -/
def Skipped (text : List UInt8) : Prop :=
  ∀ ws rest, Blanks ws → Delimited rest → skipValue .complete (ws ++ (text ++ rest)) = .ok rest

namespace Record

variable {σ α : Type} {fields : List (Field σ)}

/-- `member` takes a draft to another one. -/
def Fills (fields : List (Field σ)) (member : List UInt8) (draft draft' : σ) : Prop :=
  ∃ m, member = 0x22 :: m ∧ ∀ rest, Delimited rest →
    runMember fields .complete draft (m ++ rest) = .ok (draft', rest)

theorem fills_known {key before text : List UInt8} {name : String} {field : Field σ} {draft : σ}
    {set : σ → σ} (hkey : Names key name) (hbefore : Blanks before)
    (hfield : fields.find? (fun f => f.name = name) = some field)
    (hfree : field.isSet draft = false) (h : field.value.Reads text set) :
    Fills fields (0x22 :: (key ++ (before ++ text))) draft (set draft) := by
  refine ⟨_, rfl, ?_⟩
  intro rest hrest
  obtain ⟨r, hname, hcolon⟩ := hkey.read (before ++ (text ++ rest))
  unfold runMember
  simp only [List.append_assoc, hname, hfield, hfree, hcolon]
  rw [h.run before rest hbefore hrest]
  rfl

theorem fills_unknown {key before text : List UInt8} {name : String} (draft : σ)
    (hkey : Names key name) (hbefore : Blanks before)
    (hfield : fields.find? (fun f => f.name = name) = none) (h : Skipped text) :
    Fills fields (0x22 :: (key ++ (before ++ text))) draft draft := by
  refine ⟨_, rfl, ?_⟩
  intro rest hrest
  obtain ⟨r, hname, hcolon⟩ := hkey.read (before ++ (text ++ rest))
  unfold runMember
  simp only [List.append_assoc, hname, hfield, hcolon]
  rw [h before rest hbefore hrest]
  rfl

/-- Members that take a draft to another one, one after the other. -/
inductive FillsAll (fields : List (Field σ)) : List (List UInt8) → σ → σ → Prop
  | nil {draft} : FillsAll fields [] draft draft
  | cons {member members draft draft' draft''} : Fills fields member draft draft' →
      FillsAll fields members draft' draft'' → FillsAll fields (member :: members) draft draft''

theorem nextName_stop (first : Bool) {ws : List UInt8} (hws : Blanks ws) (rest : List UInt8) :
    nextName .complete first (ws ++ 0x7D :: rest) = .ok none := by
  unfold nextName
  rw [skipBlank_token hws rfl]
  simp

theorem nextName_first {before : List UInt8} (hbefore : Blanks before) (s : List UInt8) :
    nextName .complete true (before ++ 0x22 :: s) = .ok (some s) := by
  unfold nextName
  rw [skipBlank_token hbefore rfl]
  simp

theorem nextName_next {before after : List UInt8} (hafter : Blanks after) (hbefore : Blanks before)
    (s : List UInt8) :
    nextName .complete false (after ++ 0x2C :: (before ++ 0x22 :: s)) = .ok (some s) := by
  unfold nextName
  rw [skipBlank_token hafter rfl]
  simp only [Bool.false_eq_true, ↓reduceIte]
  rw [skipBlank_token hbefore rfl]
  simp

theorem nextName_comma {m text after : List UInt8} {items : List (List UInt8)}
    (hsep : Separated ((0x22 :: m) :: items) text) (hafter : Blanks after) (s : List UInt8) :
    nextName .complete false (after ++ 0x2C :: (text ++ s)) =
      nextName .complete true (text ++ s) := by
  obtain ⟨before, text', hbefore, rfl, -⟩ := hsep.first
  rw [List.append_assoc, List.append_assoc, List.cons_append, nextName_first hbefore,
    nextName_next hafter hbefore]

theorem runMembers_stop {ending : Ending} {first : Bool} {s : List UInt8}
    (h : nextName ending first s = .ok none) (draft : σ) :
    runMembers fields ending first draft s = .ok (draft, s) := by
  rw [runMembers]
  split
  · rename_i f hf
    rw [h] at hf; cases hf
  · rfl
  · rename_i t ht
    rw [h] at ht; cases ht

theorem runMembers_step {ending : Ending} {first : Bool} {s t r : List UInt8} {draft draft' : σ}
    (h : nextName ending first s = .ok (some t))
    (hmember : runMember fields ending draft t = .ok (draft', r)) :
    runMembers fields ending first draft s = runMembers fields ending false draft' r := by
  rw [runMembers]
  split
  · rename_i f hf
    rw [h] at hf; cases hf
  · rename_i hnone
    rw [h] at hnone; cases hnone
  · rename_i t' ht
    rw [h] at ht; cases ht
    split
    · rename_i f hf
      rw [hmember] at hf; cases hf
    · rename_i draft'' r' hr
      rw [hmember] at hr; cases hr
      rfl

/-- From where the first of some members is found, all of them work on the draft, up to the white
space before the brace. -/
theorem runMembers_separated {items : List (List UInt8)} {text : List UInt8}
    (hsep : Separated items text) (hne : items ≠ []) {draft draft' : σ}
    (h : FillsAll fields items draft draft') (rest : List UInt8) {first : Bool} {s : List UInt8}
    (hs : nextName .complete first s = nextName .complete true (text ++ 0x7D :: rest)) :
    ∃ ws, Blanks ws ∧
      runMembers fields .complete first draft s = .ok (draft', ws ++ 0x7D :: rest) := by
  have hbrace : Delimited (0x7D :: rest) := delimited_cons rfl rest
  -- As for lists, the place `s` varies; the draft is what the members before it made.
  induction hsep generalizing draft first s with
  | none hws => exact absurd rfl hne
  | @last before item after hbefore hafter =>
    obtain _ | ⟨⟨m, rfl, hm⟩, hnil⟩ := h
    cases hnil
    have hrun := hm (after ++ 0x7D :: rest) (hbrace.after_blanks hafter)
    rw [List.append_assoc, List.append_assoc, List.cons_append, nextName_first hbefore] at hs
    refine ⟨after, hafter, ?_⟩
    rw [runMembers_step hs hrun, runMembers_stop (nextName_stop false hafter rest)]
  | @more before item after next items text hbefore hafter hrest ih =>
    obtain _ | ⟨⟨m, rfl, hm⟩, htail⟩ := h
    have hnext : ∃ m, next = 0x22 :: m := by
      obtain _ | ⟨⟨m, hm, -⟩, -⟩ := htail
      exact ⟨m, hm⟩
    obtain ⟨m', rfl⟩ := hnext
    have hcomma : Delimited (0x2C :: (text ++ 0x7D :: rest)) := delimited_cons rfl _
    have hrun := hm _ (hcomma.after_blanks hafter)
    simp only [List.append_assoc, List.cons_append] at hs
    rw [nextName_first hbefore] at hs
    rw [runMembers_step hs hrun]
    exact ih (by simp) htail (nextName_comma hrest hafter _)

/-- An object whose members fill a draft is read as the record of the draft. -/
theorem reads_object {rc : Record σ α} {items : List (List UInt8)} {text : List UInt8}
    (hsep : Separated items text) {draft : σ} (h : FillsAll rc.fields items rc.blank draft) {a : α}
    (hfinish : rc.finish draft = .ok a) : rc.decoder.Reads (0x7B :: (text ++ [0x7D])) a := by
  constructor
  · exact ⟨0x7B, _, rfl, rfl⟩
  · intro ws rest hws _
    have hmembers : ∃ left, Blanks left ∧ runMembers rc.fields .complete true rc.blank
        (text ++ 0x7D :: rest) = .ok (draft, left ++ 0x7D :: rest) := by
      by_cases hne : items = []
      · subst hne
        cases h
        cases hsep with
        | none htext => exact ⟨text, htext, runMembers_stop (nextName_stop true htext rest) _⟩
      · exact runMembers_separated hsep hne h rest rfl
    obtain ⟨left, hleft, hrun⟩ := hmembers
    show rc.run .complete _ = _
    unfold run
    rw [List.cons_append, skipBlank_token hws rfl, List.append_assoc]
    simp only [List.singleton_append]
    rw [if_neg (by decide)]
    simp only [↓reduceIte, fromObject, hrun, hfinish]
    rw [skipBlank_token hleft rfl]
    rfl

end Record

end Bytecode.Json
