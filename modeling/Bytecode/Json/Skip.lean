import Bytecode.Json.Quoted
import Bytecode.Json.Spelling

/-!
# Skipped values

Values that nobody asked for. Only their form is checked, at any depth: the open lists and objects
are kept on a stack of their own. Numbers out of range and strings that are not UTF-8 pass.

* `readWord`: the rest of `null`, `true` or `false`;
* `readColon`: the colon after a member's name;
* `skipValue`: what follows a value; `skipValue_length` says that a value takes up bytes;
* `skipFrom_value`, `skipFrom_opened`, `skipFrom_after`: its steps, from the next byte that is no
  white space.
-/

namespace Bytecode.Json

/-- What follows the bytes of `word`. -/
def readWord (ending : Ending) : List UInt8 → List UInt8 → Except Fault (List UInt8)
  | [], s => .ok s
  | _ :: _, [] => .error (cutOff ending .valueEnds)
  | w :: word, b :: r =>
    if b = w then readWord ending word r else .error (.placed .expectedWord r.length)

/-- `null` after its first letter. -/
def nullTail : List UInt8 := [0x75, 0x6C, 0x6C]

/-- `true` after its first letter. -/
def trueTail : List UInt8 := [0x72, 0x75, 0x65]

/-- `false` after its first letter. -/
def falseTail : List UInt8 := [0x61, 0x6C, 0x73, 0x65]

/-- What follows the colon after a member's name. -/
def readColon (ending : Ending) (s : List UInt8) : Except Fault (List UInt8) :=
  match skipBlank s with
  | [] => .error (cutOff ending .objectEnds)
  | b :: r => if b = 0x3A then .ok r else .error (.placed .expectedColon r.length)

/-- An open list or object. -/
inductive Frame where
  | list
  | object
  deriving DecidableEq, Repr

namespace Frame

def closing : Frame → UInt8
  | .list => 0x5D
  | .object => 0x7D

/-- The cause of a fault where the document ends inside. -/
def ends : Frame → Cause
  | .list => .listEnds
  | .object => .objectEnds

def expectedNext : Frame → Cause
  | .list => .expectedCommaOrBracket
  | .object => .expectedCommaOrBrace

end Frame

/-- What follows a value that holds no other, of which `b` is the first byte. -/
def skipScalar (ending : Ending) (b : UInt8) (r : List UInt8) : Except Fault (List UInt8) :=
  if b = 0x6E then readWord ending nullTail r
  else if b = 0x74 then readWord ending trueTail r
  else if b = 0x66 then readWord ending falseTail r
  else if b = 0x2D ∨ isDigit b then skipNumber ending (b :: r)
  else if b = 0x22 then skipString ending r
  else .error (.placed .expectedValue r.length)

/-- What follows a member's name and colon. -/
def skipKey (ending : Ending) (s : List UInt8) : Except Fault (List UInt8) :=
  match skipBlank s with
  | [] => .error (cutOff ending .objectEnds)
  | b :: r =>
    if b = 0x22 then
      match skipString ending r with
      | .error f => .error f
      | .ok r => readColon ending r
    else .error (.placed .keyNotString r.length)

/-- Where the first value inside a frame starts. -/
def Frame.enter (ending : Ending) (s : List UInt8) : Frame → Except Fault (List UInt8)
  | .list => .ok s
  | .object => skipKey ending s

/-- What is looked for next. -/
inductive Mode where
  /-- A value. -/
  | value
  /-- The closing bracket of a frame just opened, or its first value. -/
  | opened (frame : Frame)
  /-- What may follow a value in the innermost open frame. -/
  | after
  deriving DecidableEq, Repr

/-! ## Each step leaves no more bytes -/

theorem readWord_length {ending : Ending} {word s r : List UInt8}
    (h : readWord ending word s = .ok r) : r.length ≤ s.length := by
  fun_induction readWord ending word s with
  | case1 s => cases h; simp
  | case2 => cases h
  | case3 word b t ih =>
    have := ih h
    simp only [List.length_cons]; omega
  | case4 => cases h

theorem readColon_length {ending : Ending} {s r : List UInt8}
    (h : readColon ending s = .ok r) : r.length < s.length := by
  unfold readColon at h
  have := skipBlank_length_le s
  split at h
  · cases h
  · rename_i b t hs
    rw [hs, List.length_cons] at this
    split at h
    · cases h; omega
    · cases h

theorem skipScalar_length {ending : Ending} {b : UInt8} {r r' : List UInt8}
    (h : skipScalar ending b r = .ok r') : r'.length < (b :: r).length := by
  unfold skipScalar at h
  split at h
  · exact Nat.lt_succ_of_le (readWord_length h)
  split at h
  · exact Nat.lt_succ_of_le (readWord_length h)
  split at h
  · exact Nat.lt_succ_of_le (readWord_length h)
  split at h
  · exact skipNumber_length h
  split at h
  · exact Nat.lt_succ_of_lt (skipString_length h)
  · cases h

theorem skipKey_length {ending : Ending} {s r : List UInt8}
    (h : skipKey ending s = .ok r) : r.length < s.length := by
  unfold skipKey at h
  have := skipBlank_length_le s
  split at h
  · cases h
  · rename_i b t hs
    rw [hs, List.length_cons] at this
    split at h
    · split at h
      · cases h
      · rename_i hk
        have := skipString_length hk
        have := readColon_length h
        omega
    · cases h

theorem Frame.enter_length {ending : Ending} {frame : Frame} {s r : List UInt8}
    (h : frame.enter ending s = .ok r) : r.length ≤ s.length := by
  cases frame with
  | list => cases h; simp
  | object => exact Nat.le_of_lt (skipKey_length h)

/-! ## Values -/

/-- What follows a value; `frames` are open around it, the innermost first. -/
def skipFrom (ending : Ending) (mode : Mode) (frames : List Frame) (s : List UInt8) :
    Except Fault (List UInt8) :=
  match mode with
  | .value =>
    match _h : skipBlank s with
    | [] => .error (cutOff ending .valueEnds)
    | b :: r =>
      if b = 0x5B then skipFrom ending (.opened .list) frames r
      else if b = 0x7B then skipFrom ending (.opened .object) frames r
      else match _hr : skipScalar ending b r with
        | .error f => .error f
        | .ok r' => skipFrom ending .after frames r'
  | .opened frame =>
    match _h : skipBlank s with
    | [] => .error (cutOff ending frame.ends)
    | b :: r =>
      if b = frame.closing then skipFrom ending .after frames r
      else match _hr : frame.enter ending (b :: r) with
        | .error f => .error f
        | .ok r' => skipFrom ending .value (frame :: frames) r'
  | .after =>
    match frames with
    | [] => .ok s
    | frame :: frames =>
      match _h : skipBlank s with
      | [] => .error (cutOff ending frame.ends)
      | b :: r =>
        if b = frame.closing then skipFrom ending .after frames r
        else if b = 0x2C then
          match _hr : frame.enter ending r with
          | .error f => .error f
          | .ok r' => skipFrom ending .value (frame :: frames) r'
        else .error (.placed frame.expectedNext r.length)
termination_by (s.length, if mode = .value then 0 else 1)
decreasing_by
  all_goals
    have hs := skipBlank_length_le s
    rw [_h, List.length_cons] at hs
  · exact Prod.Lex.left _ _ (by omega)
  · exact Prod.Lex.left _ _ (by omega)
  · have := skipScalar_length _hr
    simp only [List.length_cons] at this
    exact Prod.Lex.left _ _ (by omega)
  · exact Prod.Lex.left _ _ (by omega)
  · have := Frame.enter_length _hr
    simp only [List.length_cons] at this
    rcases Nat.lt_or_eq_of_le (Nat.le_trans this hs) with hlt | heq
    · exact Prod.Lex.left _ _ hlt
    · rw [heq]; exact Prod.Lex.right _ (by simp)
  · exact Prod.Lex.left _ _ (by omega)
  · have := Frame.enter_length _hr
    exact Prod.Lex.left _ _ (by omega)

section Steps

variable {ending : Ending} {frames : List Frame} {frame : Frame} {s t : List UInt8} {b : UInt8}

theorem skipFrom_value (hs : skipBlank s = b :: t) :
    skipFrom ending .value frames s =
      if b = 0x5B then skipFrom ending (.opened .list) frames t
      else if b = 0x7B then skipFrom ending (.opened .object) frames t
      else (skipScalar ending b t).bind (skipFrom ending .after frames) := by
  rw [skipFrom]
  split
  · rename_i hnil
    rw [hs] at hnil; cases hnil
  · rename_i b' t' hcons
    rw [hs] at hcons; cases hcons
    split
    · rfl
    split
    · rfl
    split
    · rename_i f hf
      rw [hf]; rfl
    · rename_i t' ht
      rw [ht]; rfl

theorem skipFrom_opened (hs : skipBlank s = b :: t) :
    skipFrom ending (.opened frame) frames s =
      if b = frame.closing then skipFrom ending .after frames t
      else (frame.enter ending (b :: t)).bind (skipFrom ending .value (frame :: frames)) := by
  rw [skipFrom]
  split
  · rename_i hnil
    rw [hs] at hnil; cases hnil
  · rename_i b' t' hcons
    rw [hs] at hcons; cases hcons
    split
    · rfl
    split
    · rename_i f hf
      rw [hf]; rfl
    · rename_i t' ht
      rw [ht]; rfl

theorem skipFrom_after (hs : skipBlank s = b :: t) :
    skipFrom ending .after (frame :: frames) s =
      if b = frame.closing then skipFrom ending .after frames t
      else if b = 0x2C then
        (frame.enter ending t).bind (skipFrom ending .value (frame :: frames))
      else .error (.placed frame.expectedNext t.length) := by
  rw [skipFrom]
  split
  · rename_i hnil
    rw [hs] at hnil; cases hnil
  · rename_i b' t' hcons
    rw [hs] at hcons; cases hcons
    split
    · rfl
    split
    · split
      · rename_i f hf
        rw [hf]; rfl
      · rename_i t' ht
        rw [ht]; rfl
    · rfl

end Steps

theorem skipFrom_length {ending : Ending} {mode : Mode} {frames : List Frame} {s r : List UInt8}
    (h : skipFrom ending mode frames s = .ok r) :
    r.length ≤ s.length ∧ (mode = .value → r.length < s.length) := by
  fun_induction skipFrom ending mode frames s with
  | case1 => cases h
  | case2 frames s t hs ih =>
    have := skipBlank_length_le s
    rw [hs, List.length_cons] at this
    have := (ih h).1
    omega
  | case3 frames s t hs _ ih =>
    have := skipBlank_length_le s
    rw [hs, List.length_cons] at this
    have := (ih h).1
    omega
  | case4 => cases h
  | case5 frames s b t hs _ _ t' ht ih =>
    have := skipBlank_length_le s
    rw [hs, List.length_cons] at this
    have := (ih h).1
    have := skipScalar_length ht
    simp only [List.length_cons] at this
    omega
  | case6 => cases h
  | case7 frames s frame t hs ih =>
    have := skipBlank_length_le s
    rw [hs, List.length_cons] at this
    have := (ih h).1
    simp; omega
  | case8 => cases h
  | case9 frames s frame b t hs _ t' ht ih =>
    have := skipBlank_length_le s
    rw [hs, List.length_cons] at this
    have := (ih h).1
    have := Frame.enter_length ht
    simp only [List.length_cons] at this
    simp; omega
  | case10 => cases h; simp
  | case11 => cases h
  | case12 s frame frames t hs ih =>
    have := skipBlank_length_le s
    rw [hs, List.length_cons] at this
    have := (ih h).1
    simp; omega
  | case13 => cases h
  | case14 s frame frames t t' ht hs _ ih =>
    have := skipBlank_length_le s
    rw [hs, List.length_cons] at this
    have := (ih h).1
    have := Frame.enter_length ht
    simp; omega
  | case15 => cases h

/-- What follows the value at the start. -/
def skipValue (ending : Ending) (s : List UInt8) : Except Fault (List UInt8) :=
  skipFrom ending .value [] s

theorem skipValue_length {ending : Ending} {s r : List UInt8}
    (h : skipValue ending s = .ok r) : r.length < s.length :=
  (skipFrom_length h).2 rfl

end Bytecode.Json
