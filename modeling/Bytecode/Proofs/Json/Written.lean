import Bytecode.Json.Value
import Bytecode.Proofs.Json.Slots

/-!
# Written values are in the grammar

What is written for a value is one of its texts, at every depth and in every style that puts only
white space between the tokens (`Style.Spaced`). It is shown along the value: the scalars by their
written forms, a list item by item, an object member by member. So whatever reads all texts of a
value reads what is written for it.
-/

namespace Bytecode.Json

/-! ## Styles -/

/-- A style that puts white space between tokens, and a colon after names. -/
structure Style.Spaced (style : Style) : Prop where
  line : ∀ depth, Blanks (Text.encode (style.line depth))
  colon : ∃ before after, Text.encode style.colon = before ++ 0x3A :: after ∧
    Blanks before ∧ Blanks after

theorem Style.spaced_pretty : Style.pretty.Spaced where
  line depth := by
    have hspaces : ∀ n, Blanks (Text.encode (List.replicate n ' ')) := by
      intro n
      induction n with
      | zero => exact blanks_nil
      | succ n ih =>
        rw [List.replicate_succ, Text.encode_cons]
        exact Blanks.append (blanks_singleton rfl) ih
    show Blanks (Text.encode ('\n' :: List.replicate (2 * depth) ' '))
    rw [Text.encode_cons]
    exact Blanks.append (blanks_singleton rfl) (hspaces _)
  colon := ⟨[], [0x20], rfl, blanks_nil, blanks_singleton rfl⟩

theorem Style.spaced_compact : Style.compact.Spaced where
  line _ := blanks_nil
  colon := ⟨[], [], rfl, blanks_nil, blanks_nil⟩

/-- What is written for `v` is among the given texts. -/
def Value.Spells (v : Value) (P : List UInt8 → Prop) : Prop :=
  ∀ style : Style, style.Spaced → ∀ depth, P (Text.encode (v.write style depth))

/-! ## Scalars -/

/-- The byte of a hexadecimal digit. -/
def hexByte (d : Nat) : UInt8 := UInt8.ofNat (Numeral.lowerDigit d).toNat

theorem charText_control {c : Char} (h : c.toNat < 0x20) :
    CharText c (Text.encode ['\\', 'u', '0', '0', Numeral.lowerDigit (c.toNat / 16),
      Numeral.lowerDigit (c.toNat % 16)]) := by
  have hbyte : ∀ d < 16, String.utf8EncodeChar (Numeral.lowerDigit d) = [hexByte d] := by decide
  have hdigit : ∀ d < 16, hexValue? (hexByte d) = some d := by decide
  have htext : Text.encode ['\\', 'u', '0', '0', Numeral.lowerDigit (c.toNat / 16),
      Numeral.lowerDigit (c.toNat % 16)] =
        0x5C :: 0x75 :: [0x30, 0x30, hexByte (c.toNat / 16), hexByte (c.toNat % 16)] := by
    simp only [Text.encode, List.flatMap_cons, hbyte (c.toNat / 16) (by omega),
      hbyte (c.toNat % 16) (by omega)]
    rfl
  have hzero : hexValue? 0x30 = some 0 := by decide
  have hdigits := HexText.digits hzero hzero (hdigit (c.toNat / 16) (by omega))
    (hdigit (c.toNat % 16) (by omega))
  have hn : 0x1000 * 0 + 0x100 * 0 + 0x10 * (c.toNat / 16) + c.toNat % 16 = c.toNat := by omega
  have hunit := CharText.unit hdigits (by omega)
  rw [hn, Char.ofNat_toNat] at hunit
  rwa [htext]

/-- What is written for a character stands for it. -/
theorem charText_escapeChar (c : Char) : CharText c (Text.encode (escapeChar c)) := by
  unfold escapeChar
  split
  · rename_i h
    rcases h with rfl | rfl
    all_goals exact .letter rfl
  split
  · subst_vars; exact .letter rfl
  split
  · subst_vars; exact .letter rfl
  split
  · subst_vars; exact .letter rfl
  split
  · subst_vars; exact .letter rfl
  split
  · subst_vars; exact .letter rfl
  rename_i hspecial _ _ _ _ _
  rw [not_or] at hspecial
  split
  · rename_i hlow
    exact charText_control hlow
  · rename_i hlow
    have htext : Text.encode [c] = String.utf8EncodeChar c := by simp [Text.encode]
    rw [htext]
    exact .plain hspecial.1 hspecial.2 (Nat.not_lt.mp hlow)

theorem stringText_written (s : String) : StringText s (Text.encode (stringText s)) := by
  refine ⟨s.toList.map fun c => Text.encode (escapeChar c), ?_, ?_⟩
  · rw [List.forall₂_map_right_iff]
    exact List.forall₂_same.mpr fun c _ => charText_escapeChar c
  · have hflat : Text.encode (s.toList.flatMap escapeChar) =
        (s.toList.map fun c => Text.encode (escapeChar c)).flatten := by
      rw [Text.encode, List.flatMap_assoc, ← List.flatMap_def]
      rfl
    rw [stringText, Text.encode_append, Text.encode_append, hflat]
    rfl

namespace Value

theorem spells_string (s : String) : (string s).Spells (StringText s) := by
  intro style _ depth
  rw [write]
  exact stringText_written s

theorem spells_integer (n : Int) : (number (.integer n)).Spells (IntegerText n) := by
  intro style _ depth
  rw [write]
  rfl

theorem spells_null : null.Spells (· = nullText) := by
  intro style _ depth
  rw [write]
  decide

end Value

/-! ## Lists -/

theorem separated_writeItems {style : Style} (h : style.Spaced) (depth : Nat) {ws : List UInt8}
    (hws : Blanks ws) (v : Value) (vs : List Value) :
    Separated ((v :: vs).map fun v => Text.encode (v.write style depth))
      (Text.encode (Value.writeItems style depth (v :: vs)) ++ ws) := by
  induction vs generalizing v with
  | nil =>
    have htext : Text.encode (Value.writeItems style depth [v]) ++ ws =
        Text.encode (style.line depth) ++ (Text.encode (v.write style depth) ++ ws) := by
      simp [Value.writeItems]
    rw [htext]
    exact .last (h.line depth) hws
  | cons w vs ih =>
    have htext : Text.encode (Value.writeItems style depth (v :: w :: vs)) ++ ws =
        Text.encode (style.line depth) ++ (Text.encode (v.write style depth) ++ ([] ++ 0x2C ::
          (Text.encode (Value.writeItems style depth (w :: vs)) ++ ws))) := by
      rw [Value.writeItems]
      simp only [Text.encode_append, List.append_assoc]
      rfl
    rw [htext]
    exact .more (h.line depth) blanks_nil (ih w)

/-- What is written for a list has the texts of its values as its items. -/
theorem separated_write {style : Style} (h : style.Spaced) (depth : Nat) (vs : List Value) :
    ∃ inner, Separated (vs.map fun v => Text.encode (v.write style (depth + 1))) inner ∧
      Text.encode ((Value.list vs).write style depth) = 0x5B :: (inner ++ [0x5D]) := by
  cases vs with
  | nil => exact ⟨[], .none blanks_nil, rfl⟩
  | cons v vs =>
    refine ⟨_, separated_writeItems h (depth + 1) (h.line depth) v vs, ?_⟩
    rw [Value.write]
    simp only [Text.encode_append]
    rfl

theorem Value.spells_list {P : α → List UInt8 → Prop} {as : List α} {vs : List Value}
    (h : List.Forall₂ (fun a v => Spells v (P a)) as vs) : (list vs).Spells (ListText P as) := by
  intro style hstyle depth
  obtain ⟨inner, hsep, htext⟩ := separated_write hstyle depth vs
  refine ⟨_, inner, ?_, hsep, htext⟩
  rw [List.forall₂_map_right_iff]
  exact h.imp fun _ _ ha => ha style hstyle (depth + 1)

/-! ## Objects -/

/-- The bytes of a written member. -/
def memberBytes (style : Style) (depth : Nat) (m : String × Value) : List UInt8 :=
  Text.encode (stringText m.1 ++ style.colon ++ m.2.write style depth)

/-- Members as they are given, with the written texts of their values. -/
def writtenMembers (style : Style) (depth : Nat) (ms : List (String × Value)) :
    List (String × List UInt8) :=
  ms.map fun m => (m.1, Text.encode (m.2.write style depth))

theorem memberText_memberBytes {style : Style} (h : style.Spaced) (depth : Nat)
    (m : String × Value) :
    MemberText (m.1, Text.encode (m.2.write style depth)) (memberBytes style depth m) := by
  obtain ⟨before, after, hcolon, hbefore, hafter⟩ := h.colon
  refine ⟨_, before, after, stringText_written m.1, hbefore, hafter, ?_⟩
  rw [memberBytes, Text.encode_append, Text.encode_append, hcolon]
  simp

theorem forall₂_memberBytes {style : Style} (h : style.Spaced) (depth : Nat)
    (ms : List (String × Value)) :
    List.Forall₂ MemberText (writtenMembers style depth ms) (ms.map (memberBytes style depth)) := by
  rw [writtenMembers, List.forall₂_map_left_iff, List.forall₂_map_right_iff]
  exact List.forall₂_same.mpr fun m _ => memberText_memberBytes h depth m

theorem separated_writeMembers {style : Style} (h : style.Spaced) (depth : Nat) {ws : List UInt8}
    (hws : Blanks ws) (m : String × Value) (ms : List (String × Value)) :
    Separated ((m :: ms).map (memberBytes style depth))
      (Text.encode (Value.writeMembers style depth (m :: ms)) ++ ws) := by
  induction ms generalizing m with
  | nil =>
    have htext : Text.encode (Value.writeMembers style depth [m]) ++ ws =
        Text.encode (style.line depth) ++ (memberBytes style depth m ++ ws) := by
      simp [Value.writeMembers, memberBytes]
    rw [htext]
    exact .last (h.line depth) hws
  | cons n ms ih =>
    have htext : Text.encode (Value.writeMembers style depth (m :: n :: ms)) ++ ws =
        Text.encode (style.line depth) ++ (memberBytes style depth m ++ ([] ++ 0x2C ::
          (Text.encode (Value.writeMembers style depth (n :: ms)) ++ ws))) := by
      rw [Value.writeMembers, memberBytes]
      simp only [Text.encode_append, List.append_assoc]
      rfl
    rw [htext]
    exact .more (h.line depth) blanks_nil (ih n)

/-- What is written for an object is an object of its members. -/
theorem objectText_write {style : Style} (h : style.Spaced) (depth : Nat)
    (ms : List (String × Value)) :
    ObjectText (writtenMembers style (depth + 1) ms)
      (Text.encode ((Value.object ms).write style depth)) := by
  have hmembers := forall₂_memberBytes h (depth + 1) ms
  cases ms with
  | nil => exact ⟨[], [], hmembers, .none blanks_nil, rfl⟩
  | cons m ms =>
    refine ⟨_, _, hmembers, separated_writeMembers h (depth + 1) (h.line depth) m ms, ?_⟩
    rw [Value.write]
    simp only [Text.encode_append]
    rfl

/-! ## Any value -/

namespace Value

theorem wellFormed_null : null.Spells WellFormed := by
  intro style hstyle depth
  have htext : Text.encode (null.write style depth) = nullText := spells_null style hstyle depth
  rw [htext]
  exact .null

theorem wellFormed_boolean (b : Bool) : (boolean b).Spells WellFormed := by
  intro style _ depth
  refine .boolean b ?_
  cases b <;> rw [BooleanText, write] <;> decide

theorem wellFormed_string (s : String) : (string s).Spells WellFormed := fun style hstyle depth =>
  .string (spells_string s style hstyle depth).quoted

theorem wellFormed_list {vs : List Value} (h : ∀ v ∈ vs, v.Spells WellFormed) :
    (list vs).Spells WellFormed := by
  intro style hstyle depth
  obtain ⟨inner, hsep, htext⟩ := separated_write hstyle depth vs
  rw [htext]
  refine .list hsep fun item hitem => ?_
  obtain ⟨v, hv, rfl⟩ := List.mem_map.mp hitem
  exact h v hv style hstyle (depth + 1)

theorem wellFormed_object {ms : List (String × Value)} (h : ∀ m ∈ ms, m.2.Spells WellFormed) :
    (object ms).Spells WellFormed := by
  intro style hstyle depth
  refine (objectText_write hstyle depth ms).wellFormed fun m hm => ?_
  obtain ⟨n, hn, rfl⟩ := List.mem_map.mp hm
  exact h n hn style hstyle (depth + 1)

end Value

/-! ## Records and documents -/

variable {σ : Type} {slots : List (Slot σ)} {d : σ}

/-- The members say what the draft holds, as `Gives` has it of their texts. -/
structure Says (slots : List (Slot σ)) (d : σ) (ms : List (String × Value)) : Prop where
  known : ∀ s ∈ slots, List.Forall₂ (fun b (v : Value) => v.Spells (s.text b)) (s.get d).toList
    (valuesOf s.name ms)
  other : ∀ m ∈ ms, (∀ s ∈ slots, s.name ≠ m.1) → m.2.Spells WellFormed

theorem Says.gives {ms : List (String × Value)} (h : Says slots d ms) {style : Style}
    (hstyle : style.Spaced) (depth : Nat) : Gives slots d (writtenMembers style depth ms) := by
  constructor
  · intro s hs
    have htexts : valuesOf s.name (writtenMembers style depth ms) =
        (valuesOf s.name ms).map fun v => Text.encode (v.write style depth) := by
      rw [valuesOf, valuesOf, writtenMembers, List.filter_map, List.map_map, List.map_map]
      rfl
    rw [htexts, List.forall₂_map_right_iff]
    exact (h.known s hs).imp fun _ _ hv => hv style hstyle depth
  · intro m hm hname
    obtain ⟨n, hn, rfl⟩ := List.mem_map.mp hm
    exact h.other n hn hname style hstyle depth

/-- What is written for an object gives what its members say. -/
theorem Says.spells {ms : List (String × Value)} (h : Says slots d ms) :
    (Value.object ms).Spells (DraftText slots d) := fun _ hstyle depth =>
  .object (h.gives hstyle (depth + 1)) (objectText_write hstyle depth ms)

/-- What is written for a list gives what its items say, in the order of the fields. -/
theorem Value.spells_inOrder {vs : List Value}
    (h : List.Forall₂ (fun (s : Slot σ) v => ∃ b, s.get d = some b ∧ Spells v (s.text b))
      slots vs) :
    (list vs).Spells (DraftText slots d) := by
  intro style hstyle depth
  obtain ⟨inner, hsep, htext⟩ := separated_write hstyle depth vs
  rw [htext]
  refine .list ?_ hsep
  rw [GivesInOrder, List.forall₂_map_right_iff]
  exact h.imp fun _ _ ⟨b, hb, hv⟩ => ⟨b, hb, hv style hstyle (depth + 1)⟩

theorem Value.Spells.documentText {v : Value} {P : List UInt8 → Prop} (h : v.Spells P)
    {style : Style} (hstyle : style.Spaced) :
    DocumentText P ⟨Text.encode (v.write style 0), .complete⟩ :=
  ⟨[], _, [], blanks_nil, blanks_nil, h style hstyle 0, by simp⟩

end Bytecode.Json
