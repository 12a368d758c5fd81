import Bytecode.Json.Decoder

/-!
# Records

A record is read from an object, member by member in any order, or from a list of its fields in
their own order. Fields fill a draft; members of unknown names are skipped; a list may stop early.

* `Record.decoder`: reads a record, and finishes the draft when the brackets close.
-/

namespace Bytecode.Json

/-- One field of a record whose drafts are of type `σ`. -/
structure Field (σ : Type) where
  name : String
  isSet : σ → Bool
  /-- Reads the field's value as the step that puts it into a draft. -/
  value : Decoder (σ → σ)

def Field.of (name : String) (get : σ → Option β) (set : β → σ → σ) (d : Decoder β) : Field σ :=
  ⟨name, fun draft => (get draft).isSome, d.map set⟩

structure Record (σ α : Type) where
  /-- What faults call the record. -/
  title : String
  fields : List (Field σ)
  blank : σ
  /-- The record of a draft, or the first field that it lacks. -/
  finish : σ → Except String α

namespace Record

variable {σ α : Type}

/-- What a list of the fields should have been. -/
def lengthTitle (rc : Record σ α) : String :=
  rc.title ++ " with " ++ String.ofList (Numeral.decimal rc.fields.length) ++
    (if rc.fields.length = 1 then " element" else " elements")

/-! ## From a list -/

/-- Fills the fields in order. Gives the draft, how many items there were, and what is left; the
closing bracket is not read yet. -/
def runInOrder (ending : Ending) :
    List (Field σ) → Nat → σ → List UInt8 → Except Fault (σ × Nat × List UInt8)
  | [], count, draft, s => .ok (draft, count, s)
  | field :: fields, count, draft, s =>
    match nextItem ending (count = 0) s with
    | .error f => .error f
    | .ok none => .ok (draft, count, s)
    | .ok (some s) =>
      match field.value.run ending s with
      | .error f => .error f
      | .ok (set, s) => runInOrder ending fields (count + 1) (set draft) s

/-- The record of a list, from after its opening bracket. -/
def fromList (rc : Record σ α) (ending : Ending) (s : List UInt8) :
    Except Fault (α × List UInt8) :=
  match runInOrder ending rc.fields 0 rc.blank s with
  | .error f => .error f
  | .ok (draft, count, s) =>
    match rc.finish draft with
    | .error _ => .error (.floating (.wrongLength count rc.lengthTitle) s)
    | .ok a => (closeList ending s).map fun r => (a, r)

/-! ## From an object -/

/-- Where the name of the next member starts, after its quote; none before the closing brace. -/
def nextName (ending : Ending) (first : Bool) (s : List UInt8) :
    Except Fault (Option (List UInt8)) :=
  match skipBlank s with
  | [] => .error (cutOff ending .objectEnds)
  | b :: r =>
    if b = 0x7D then .ok none
    else if first then
      if b = 0x22 then .ok (some r) else .error (.placed .keyNotString r.length)
    else if b = 0x2C then
      match skipBlank r with
      | [] => .error (cutOff ending .valueEnds)
      | c :: r =>
        if c = 0x22 then .ok (some r)
        else .error (.placed (if c = 0x7D then .trailingComma else .keyNotString) r.length)
    else .error (.placed .expectedCommaOrBrace r.length)

/-- One member, from after the quote of its name: the step it makes on a draft. -/
def runMember (fields : List (Field σ)) (ending : Ending) (draft : σ) (s : List UInt8) :
    Except Fault (σ × List UInt8) :=
  match readString ending s with
  | .error f => .error f
  | .ok (name, s) =>
    match fields.find? fun field => field.name = name with
    | some field =>
      if field.isSet draft then .error (.floating (.repeatedField name) s)
      else
        match readColon ending s with
        | .error f => .error f
        | .ok s => (field.value.run ending s).map fun (set, s) => (set draft, s)
    | none =>
      match readColon ending s with
      | .error f => .error f
      | .ok s => (skipValue ending s).map fun s => (draft, s)

theorem nextName_length {ending : Ending} {first : Bool} {s r : List UInt8}
    (h : nextName ending first s = .ok (some r)) : r.length < s.length := by
  unfold nextName at h
  have := skipBlank_length_le s
  split at h
  · cases h
  · rename_i b t hs
    rw [hs, List.length_cons] at this
    split at h
    · cases h
    · split at h
      · split at h
        · cases h; omega
        · cases h
      · split at h
        · have := skipBlank_length_le t
          split at h
          · cases h
          · rename_i c t' ht
            rw [ht, List.length_cons] at this
            split at h
            · cases h; omega
            · cases h
        · cases h

theorem runMember_length {fields : List (Field σ)} {ending : Ending} {draft draft' : σ}
    {s r : List UInt8} (h : runMember fields ending draft s = .ok (draft', r)) :
    r.length < s.length := by
  unfold runMember at h
  split at h
  · cases h
  · rename_i name t ht
    have := readString_length ht
    split at h
    · split at h
      · cases h
      · split at h
        · cases h
        · rename_i t' ht'
          have := readColon_length ht'
          have := map_run_length (f := fun (set : σ → σ) => set draft) h
          omega
    · split at h
      · cases h
      · rename_i t' ht'
        have := readColon_length ht'
        cases hv : skipValue ending t' with
        | error f => rw [hv] at h; cases h
        | ok t'' =>
          rw [hv] at h; cases h
          have := skipValue_length hv
          omega

/-- All members. Gives the draft, and what is left before the closing brace. -/
def runMembers (fields : List (Field σ)) (ending : Ending) (first : Bool) (draft : σ)
    (s : List UInt8) : Except Fault (σ × List UInt8) :=
  match _h : nextName ending first s with
  | .error f => .error f
  | .ok none => .ok (draft, s)
  | .ok (some s') =>
    match _hm : runMember fields ending draft s' with
    | .error f => .error f
    | .ok (draft, r) => runMembers fields ending false draft r
termination_by s.length
decreasing_by
  have := nextName_length _h
  have := runMember_length _hm
  omega

/-- The record of an object, from after its opening brace. -/
def fromObject (rc : Record σ α) (ending : Ending) (s : List UInt8) :
    Except Fault (α × List UInt8) :=
  match runMembers rc.fields ending true rc.blank s with
  | .error f => .error f
  | .ok (draft, s) =>
    match rc.finish draft with
    | .error name => .error (.floating (.missingField name) s)
    | .ok a => .ok (a, (skipBlank s).tail)

theorem runInOrder_length {ending : Ending} {fields : List (Field σ)} {count count' : Nat}
    {draft draft' : σ} {s r : List UInt8}
    (h : runInOrder ending fields count draft s = .ok (draft', count', r)) :
    r.length ≤ s.length := by
  induction fields generalizing count draft s with
  | nil => cases h; simp
  | cons field fields ih =>
    unfold runInOrder at h
    split at h
    · cases h
    · cases h; simp
    · rename_i s' hs
      have := nextItem_length hs
      split at h
      · cases h
      · rename_i set s'' hv
        have := field.value.shrinks hv
        have := ih h
        omega

theorem fromList_length {rc : Record σ α} {ending : Ending} {s r : List UInt8} {a : α}
    (h : rc.fromList ending s = .ok (a, r)) : r.length < s.length := by
  unfold fromList at h
  split at h
  · cases h
  · rename_i draft count t ht
    have := runInOrder_length ht
    split at h
    · cases h
    · cases hc : closeList ending t with
      | error f => rw [hc] at h; cases h
      | ok t' =>
        rw [hc] at h; cases h
        have := closeList_length hc
        omega

theorem runMembers_length {fields : List (Field σ)} {ending : Ending} {first : Bool}
    {draft draft' : σ} {s r : List UInt8}
    (h : runMembers fields ending first draft s = .ok (draft', r)) : r.length ≤ s.length := by
  fun_induction runMembers fields ending first draft s with
  | case1 => cases h
  | case2 => cases h; simp
  | case3 => cases h
  | case4 first draft s s' hs draft'' t ht ih =>
    have := ih h
    have := nextName_length hs
    have := runMember_length ht
    omega

theorem fromObject_length {rc : Record σ α} {ending : Ending} {s r : List UInt8} {a : α}
    (h : rc.fromObject ending s = .ok (a, r)) : r.length ≤ s.length := by
  unfold fromObject at h
  split at h
  · cases h
  · rename_i draft t ht
    have := runMembers_length ht
    have := skipBlank_length_le t
    split at h
    · cases h
    · cases h
      simp only [List.length_tail]; omega

/-! ## From either -/

def run (rc : Record σ α) (ending : Ending) (s : List UInt8) : Except Fault (α × List UInt8) :=
  match skipBlank s with
  | [] => .error (cutOff ending .valueEnds)
  | b :: r =>
    if b = 0x5B then (rc.fromList ending r).mapError Fault.settleList
    else if b = 0x7B then (rc.fromObject ending r).mapError Fault.settleObject
    else .error (mismatch ending rc.title b r)

theorem run_length {rc : Record σ α} {ending : Ending} {s r : List UInt8} {a : α}
    (h : rc.run ending s = .ok (a, r)) : r.length < s.length := by
  unfold run at h
  have := skipBlank_length_le s
  split at h
  · cases h
  · rename_i b t hs
    rw [hs, List.length_cons] at this
    split at h
    · cases hl : rc.fromList ending t with
      | error f => rw [hl] at h; cases h
      | ok p =>
        rw [hl] at h; cases h
        have := fromList_length hl
        omega
    · split at h
      · cases ho : rc.fromObject ending t with
        | error f => rw [ho] at h; cases h
        | ok p =>
          rw [ho] at h; cases h
          have := fromObject_length ho
          omega
      · cases h

def decoder (rc : Record σ α) : Decoder α := ⟨rc.run, run_length⟩

end Record

end Bytecode.Json
