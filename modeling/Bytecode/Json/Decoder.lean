import Bytecode.Json.Skip

/-!
# Decoders

A decoder reads one value of a document and says what follows it. It takes up bytes whenever it
succeeds, so a list of values ends.

* `Decoder.number`, `Decoder.string`, `Decoder.boolean`: one scalar, accepted or refused;
* `Decoder.nullable`, `Decoder.list`, `Decoder.variants`: values made of others;
* `Decoder.document`: one value, and nothing but white space after it.
-/

namespace Bytecode.Json

structure Decoder (α : Type) where
  run : Ending → List UInt8 → Except Fault (α × List UInt8)
  shrinks : ∀ {ending s a r}, run ending s = .ok (a, r) → r.length < s.length

/-! ## Values of the wrong type -/

/-- What a value is, of which `b` is the first byte, and how many bytes are unread when that is known.
A scalar is read to its end, and a number one byte further; of a list or object only the bracket. -/
def identify (ending : Ending) (b : UInt8) (r : List UInt8) : Except Fault (Found × Nat) :=
  if b = 0x6E then (readWord ending nullTail r).map fun r => (.null, r.length)
  else if b = 0x74 then (readWord ending trueTail r).map fun r => (.boolean true, r.length)
  else if b = 0x66 then (readWord ending falseTail r).map fun r => (.boolean false, r.length)
  else if b = 0x2D ∨ isDigit b then
    (readNumber ending (b :: r)).map fun (n, r) => (.number n, r.length - 1)
  else if b = 0x22 then (readString ending r).map fun (s, r) => (.string s, r.length)
  else if b = 0x5B then .ok (.sequence, r.length)
  else if b = 0x7B then .ok (.map, r.length)
  else .error (.placed .expectedValue r.length)

/-- The fault of a value that is not of the expected type. -/
def mismatch (ending : Ending) (expected : String) (b : UInt8) (r : List UInt8) : Fault :=
  match identify ending b r with
  | .ok (found, unread) => .placed (.wrongType found expected) unread
  | .error f => f.settle

/-! ## Scalars -/

def runNumber (expected : String) (accept : Number → Except Cause α) (ending : Ending)
    (s : List UInt8) : Except Fault (α × List UInt8) :=
  match skipBlank s with
  | [] => .error (cutOff ending .valueEnds)
  | b :: r =>
    if b = 0x2D ∨ isDigit b then
      match readNumber ending (b :: r) with
      | .error f => .error f
      | .ok (n, r) =>
        match accept n with
        | .ok a => .ok (a, r)
        | .error cause => .error (.placed cause (r.length - 1))
    else .error (mismatch ending expected b r)

def runString (expected : String) (accept : String → Except Cause α) (ending : Ending)
    (s : List UInt8) : Except Fault (α × List UInt8) :=
  match skipBlank s with
  | [] => .error (cutOff ending .valueEnds)
  | b :: r =>
    if b = 0x22 then
      match readString ending r with
      | .error f => .error f
      | .ok (text, r) =>
        match accept text with
        | .ok a => .ok (a, r)
        | .error cause => .error (.placed cause r.length)
    else .error (mismatch ending expected b r)

def runBoolean (ending : Ending) (s : List UInt8) : Except Fault (Bool × List UInt8) :=
  match skipBlank s with
  | [] => .error (cutOff ending .valueEnds)
  | b :: r =>
    if b = 0x74 then (readWord ending trueTail r).map fun r => (true, r)
    else if b = 0x66 then (readWord ending falseTail r).map fun r => (false, r)
    else .error (mismatch ending "a boolean" b r)

theorem runNumber_length {expected : String} {accept : Number → Except Cause α} {ending : Ending}
    {s r : List UInt8} {a : α} (h : runNumber expected accept ending s = .ok (a, r)) :
    r.length < s.length := by
  unfold runNumber at h
  have := skipBlank_length_le s
  split at h
  · cases h
  · rename_i b t hs
    rw [hs] at this
    split at h
    · split at h
      · cases h
      · rename_i n t' hn
        have := readNumber_length hn
        split at h
        · cases h; omega
        · cases h
    · cases h

theorem runString_length {expected : String} {accept : String → Except Cause α} {ending : Ending}
    {s r : List UInt8} {a : α} (h : runString expected accept ending s = .ok (a, r)) :
    r.length < s.length := by
  unfold runString at h
  have := skipBlank_length_le s
  split at h
  · cases h
  · rename_i b t hs
    rw [hs, List.length_cons] at this
    split at h
    · split at h
      · cases h
      · rename_i text t' ht
        have := readString_length ht
        split at h
        · cases h; omega
        · cases h
    · cases h

theorem map_readWord_length {ending : Ending} {word s r : List UInt8} {v a : α}
    (h : (readWord ending word s).map (fun r => (v, r)) = .ok (a, r)) : r.length ≤ s.length := by
  cases hw : readWord ending word s with
  | error f => rw [hw] at h; cases h
  | ok t => rw [hw] at h; cases h; exact readWord_length hw

theorem runBoolean_length {ending : Ending} {s r : List UInt8} {a : Bool}
    (h : runBoolean ending s = .ok (a, r)) : r.length < s.length := by
  unfold runBoolean at h
  have := skipBlank_length_le s
  split at h
  · cases h
  · rename_i b t hs
    rw [hs, List.length_cons] at this
    split at h
    · have := map_readWord_length h; omega
    · split at h
      · have := map_readWord_length h; omega
      · cases h

/-! ## Lists -/

/-- Where the next item of a list starts; none before the closing bracket. -/
def nextItem (ending : Ending) (first : Bool) (s : List UInt8) :
    Except Fault (Option (List UInt8)) :=
  match skipBlank s with
  | [] => .error (cutOff ending .listEnds)
  | b :: r =>
    if b = 0x5D then .ok none
    else if first then .ok (some (b :: r))
    else if b = 0x2C then
      match skipBlank r with
      | [] => .error (cutOff ending .valueEnds)
      | c :: r => if c = 0x5D then .error (.placed .trailingComma r.length) else .ok (some (c :: r))
    else .error (.placed .expectedCommaOrBracket r.length)

/-- What follows a list that has to end here. -/
def closeList (ending : Ending) (s : List UInt8) : Except Fault (List UInt8) :=
  match skipBlank s with
  | [] => .error (cutOff ending .listEnds)
  | b :: r =>
    if b = 0x5D then .ok r
    else if b = 0x2C then
      match skipBlank r with
      | [] => .error (.placed .trailingCharacters 0)
      | c :: r =>
        .error (.placed (if c = 0x5D then .trailingComma else .trailingCharacters) r.length)
    else .error (.placed .trailingCharacters r.length)

theorem nextItem_length {ending : Ending} {first : Bool} {s r : List UInt8}
    (h : nextItem ending first s = .ok (some r)) : r.length ≤ s.length := by
  unfold nextItem at h
  have := skipBlank_length_le s
  split at h
  · cases h
  · rename_i b t hs
    rw [hs] at this
    split at h
    · cases h
    · split at h
      · cases h; exact this
      · split at h
        · have := skipBlank_length_le t
          split at h
          · cases h
          · rename_i c t' ht
            rw [ht] at this
            split at h
            · cases h
            · cases h
              simp only [List.length_cons] at *; omega
        · cases h

theorem closeList_length {ending : Ending} {s r : List UInt8}
    (h : closeList ending s = .ok r) : r.length < s.length := by
  unfold closeList at h
  have := skipBlank_length_le s
  split at h
  · cases h
  · rename_i b t hs
    rw [hs, List.length_cons] at this
    split at h
    · cases h; omega
    · split at h
      · split at h <;> cases h
      · cases h

/-- The items of a list after `done` in reverse, and what is left before its closing bracket. -/
def runItems (d : Decoder α) (ending : Ending) (first : Bool) (done : List α) (s : List UInt8) :
    Except Fault (List α × List UInt8) :=
  match _h : nextItem ending first s with
  | .error f => .error f
  | .ok none => .ok (done.reverse, s)
  | .ok (some s') =>
    match _hd : d.run ending s' with
    | .error f => .error f
    | .ok (a, r) => runItems d ending false (a :: done) r
termination_by s.length
decreasing_by
  have := nextItem_length _h
  have := d.shrinks _hd
  omega

theorem runItems_length {d : Decoder α} {ending : Ending} {first : Bool} {done as : List α}
    {s r : List UInt8} (h : runItems d ending first done s = .ok (as, r)) :
    r.length ≤ s.length := by
  fun_induction runItems d ending first done s with
  | case1 => cases h
  | case2 => cases h; simp
  | case3 => cases h
  | case4 first done s s' hs a t ht ih =>
    have := ih h
    have := nextItem_length hs
    have := d.shrinks ht
    omega

def runList (d : Decoder α) (ending : Ending) (s : List UInt8) :
    Except Fault (List α × List UInt8) :=
  match skipBlank s with
  | [] => .error (cutOff ending .valueEnds)
  | b :: r =>
    if b = 0x5B then
      match runItems d ending true [] r with
      | .error f => .error f.settleList
      | .ok (as, r) => .ok (as, (skipBlank r).tail)
    else .error (mismatch ending "a sequence" b r)

theorem runList_length {d : Decoder α} {ending : Ending} {s r : List UInt8} {as : List α}
    (h : runList d ending s = .ok (as, r)) : r.length < s.length := by
  unfold runList at h
  have := skipBlank_length_le s
  split at h
  · cases h
  · rename_i b t hs
    rw [hs, List.length_cons] at this
    split at h
    · split at h
      · cases h
      · rename_i as' t' ht
        cases h
        have := runItems_length ht
        have := skipBlank_length_le t'
        simp only [List.length_tail]; omega
    · cases h

/-! ## Values or null -/

def runNullable (d : Decoder α) (ending : Ending) (s : List UInt8) :
    Except Fault (Option α × List UInt8) :=
  match skipBlank s with
  | [] => (d.run ending []).map fun (a, r) => (some a, r)
  | b :: r =>
    if b = 0x6E then (readWord ending nullTail r).map fun r => (none, r)
    else (d.run ending (b :: r)).map fun (a, r) => (some a, r)

theorem map_run_length {d : Decoder α} {ending : Ending} {s r : List UInt8} {a : β} {f : α → β}
    (h : (d.run ending s).map (fun (a, r) => (f a, r)) = .ok (a, r)) : r.length < s.length := by
  cases hd : d.run ending s with
  | error f => rw [hd] at h; cases h
  | ok p => rw [hd] at h; cases h; exact d.shrinks hd

theorem runNullable_length {d : Decoder α} {ending : Ending} {s r : List UInt8} {a : Option α}
    (h : runNullable d ending s = .ok (a, r)) : r.length < s.length := by
  unfold runNullable at h
  have := skipBlank_length_le s
  split at h
  · have := map_run_length h
    simp at this
  · rename_i b t hs
    rw [hs] at this
    split at h
    · have := map_readWord_length h
      simp only [List.length_cons] at *; omega
    · have := map_run_length h
      omega

/-! ## One of several named forms -/

/-- The form of the given name, from after the quote of the name up to the closing brace. -/
def runVariant (known : List (String × Decoder α)) (ending : Ending) (s : List UInt8) :
    Except Fault (α × List UInt8) :=
  match readString ending s with
  | .error f => .error f
  | .ok (name, r) =>
    match known.lookup name with
    | none => .error (.placed (.unknownVariant name (known.map (·.1))) r.length)
    | some d =>
      match readColon ending r with
      | .error f => .error f
      | .ok r =>
        match d.run ending r with
        | .error f => .error f
        | .ok (a, r) =>
          match skipBlank r with
          | [] => .error (cutOff ending .objectEnds)
          | b :: r => if b = 0x7D then .ok (a, r) else .error (.placed .expectedValue r.length)

/-- The fault of a name that stands alone, without its content. -/
def bareVariant (known : List (String × Decoder α)) (ending : Ending) (s : List UInt8) : Fault :=
  match readString ending s with
  | .error f => f
  | .ok (name, r) =>
    match known.lookup name with
    | none => .placed (.unknownVariant name (known.map (·.1))) r.length
    | some _ => .floating (.wrongType .bareVariant "newtype variant") r

def runVariants (known : List (String × Decoder α)) (ending : Ending) (s : List UInt8) :
    Except Fault (α × List UInt8) :=
  match skipBlank s with
  | [] => .error (cutOff ending .valueEnds)
  | b :: r =>
    if b = 0x7B then
      match skipBlank r with
      | [] => .error (cutOff ending .objectEnds)
      | c :: r =>
        if c = 0x22 then runVariant known ending r
        else .error (.placed (if c = 0x7D then .expectedValue else .keyNotString) r.length)
    else if b = 0x22 then .error (bareVariant known ending r)
    else .error (.placed .expectedValue r.length)

theorem runVariant_length {known : List (String × Decoder α)} {ending : Ending} {s r : List UInt8}
    {a : α} (h : runVariant known ending s = .ok (a, r)) : r.length < s.length := by
  unfold runVariant at h
  split at h
  · cases h
  · rename_i name t₁ h₁
    have := readString_length h₁
    split at h
    · cases h
    · rename_i d _
      split at h
      · cases h
      · rename_i t₂ h₂
        have := readColon_length h₂
        split at h
        · cases h
        · rename_i a' t₃ h₃
          have := d.shrinks h₃
          have := skipBlank_length_le t₃
          split at h
          · cases h
          · rename_i b t₄ h₄
            rw [h₄, List.length_cons] at this
            split at h
            · cases h; omega
            · cases h

theorem runVariants_length {known : List (String × Decoder α)} {ending : Ending} {s r : List UInt8}
    {a : α} (h : runVariants known ending s = .ok (a, r)) : r.length < s.length := by
  unfold runVariants at h
  have := skipBlank_length_le s
  split at h
  · cases h
  · rename_i b t hs
    rw [hs, List.length_cons] at this
    split at h
    · have := skipBlank_length_le t
      split at h
      · cases h
      · rename_i c t' ht
        rw [ht, List.length_cons] at this
        split at h
        · have := runVariant_length h; omega
        · cases h
    · split at h <;> cases h

/-! ## The decoders -/

namespace Decoder

/-- A number that `accept` takes; `expected` describes it in faults. -/
def number (expected : String) (accept : Number → Except Cause α) : Decoder α :=
  ⟨runNumber expected accept, runNumber_length⟩

/-- A string that `accept` takes; `expected` describes it in faults. -/
def string (expected : String) (accept : String → Except Cause α) : Decoder α :=
  ⟨runString expected accept, runString_length⟩

def boolean : Decoder Bool := ⟨runBoolean, runBoolean_length⟩

/-- A value, or `null` for none. -/
def nullable (d : Decoder α) : Decoder (Option α) := ⟨runNullable d, runNullable_length⟩

def list (d : Decoder α) : Decoder (List α) := ⟨runList d, runList_length⟩

/-- An object of one member, of which the name says how the content is read. -/
def variants (known : List (String × Decoder α)) : Decoder α :=
  ⟨runVariants known, runVariants_length⟩

def map (f : α → β) (d : Decoder α) : Decoder β :=
  ⟨fun ending s => (d.run ending s).map fun (a, r) => (f a, r), map_run_length⟩

/-- Any string. -/
def text : Decoder String := string "a string" .ok

/-- An integer from `low` to `high`. -/
def integer (expected : String) (low high : Int) : Decoder Int :=
  number expected fun
    | .integer n =>
      if low ≤ n ∧ n ≤ high then .ok n else .error (.wrongValue (.number (.integer n)) expected)
    | .float x => .error (.wrongType (.number (.float x)) expected)

/-- Any number, as a double. -/
def double : Decoder Float :=
  number "f64" fun
    | .integer n => .ok (Float.ofInt n)
    | .float x => .ok x

/-- One value, with nothing but white space after it. -/
def document (d : Decoder α) (source : Source) : Except Error α :=
  let outcome := do
    let (a, r) ← d.run source.ending source.bytes
    match skipBlank r with
    | [] => lookPast source.ending []
    | _ :: r => throw (Fault.placed .trailingCharacters r.length)
    return a
  outcome.mapError (.ofFault source.bytes)

end Decoder

end Bytecode.Json
