import Bytecode.Proofs.Json.Lists

/-!
# The grammar of documents

The texts that mean a value, said without a reader. A character of a string stands for itself or is
escaped, by a letter or by its code units in either case; integers have one text; lists and objects
have their items between commas and white space. Values that nobody asks for have a grammar of
their own (`WellFormed`), in which strings need not be UTF-8 and numbers need not be in range.

* `CharText`, `StringText`: the texts of a character inside a string, and of a string;
* `IntegerText`, `BooleanText`, `NullableText`, `ListText`: the texts of other values, over the
  texts of their parts;
* `MemberText`, `ObjectText`: objects, of which the members are given by name and text;
* `WellFormed`: any value.
-/

namespace Bytecode.Json

/-! ## Strings -/

/-- Four hexadecimal digits of either case, and the code unit that they spell. -/
inductive HexText : Nat → List UInt8 → Prop
  | digits {w x y z a b c d} : hexValue? w = some a → hexValue? x = some b →
      hexValue? y = some c → hexValue? z = some d →
      HexText (0x1000 * a + 0x100 * b + 0x10 * c + d) [w, x, y, z]

/-- The text stands for a character inside a string. -/
inductive CharText : Char → List UInt8 → Prop
  | plain {c} : c ≠ '"' → c ≠ '\\' → 0x20 ≤ c.toNat → CharText c (String.utf8EncodeChar c)
  | letter {c b} : letterEscape? b = some c → CharText c [0x5C, b]
  | unit {n digits} : HexText n digits → ¬ (0xD800 ≤ n ∧ n ≤ 0xDFFF) →
      CharText (Char.ofNat n) (0x5C :: 0x75 :: digits)
  /-- A character above the first 65536, by a high and a low surrogate. -/
  | pair {high low digits digits'} : HexText high digits → HexText low digits' →
      0xD800 ≤ high ∧ high ≤ 0xDBFF → 0xDC00 ≤ low ∧ low ≤ 0xDFFF →
      CharText (Char.ofNat (0x10000 + (high - 0xD800) * 0x400 + (low - 0xDC00)))
        (0x5C :: 0x75 :: (digits ++ 0x5C :: 0x75 :: digits'))

def StringText (s : String) (text : List UInt8) : Prop :=
  ∃ pieces, List.Forall₂ CharText s.toList pieces ∧ text = 0x22 :: (pieces.flatten ++ [0x22])

/-! ## Other values -/

def nullText : List UInt8 := 0x6E :: nullTail

def IntegerText (n : Int) (text : List UInt8) : Prop := text = Text.encode (Number.integerText n)

def BooleanText (b : Bool) (text : List UInt8) : Prop :=
  text = if b then 0x74 :: trueTail else 0x66 :: falseTail

/-- The text of a value, or `null` for none. -/
def NullableText (P : α → List UInt8 → Prop) (a : Option α) (text : List UInt8) : Prop :=
  match a with
  | none => text = nullText
  | some a => P a text

/-- Brackets, and between them the texts of the items. -/
def ListText (P : α → List UInt8 → Prop) (as : List α) (text : List UInt8) : Prop :=
  ∃ items inner, List.Forall₂ P as items ∧ Separated items inner ∧
    text = 0x5B :: (inner ++ [0x5D])

/-- A member of an object, given by its name and the text of its value. -/
def MemberText (m : String × List UInt8) (text : List UInt8) : Prop :=
  ∃ name before after, StringText m.1 name ∧ Blanks before ∧ Blanks after ∧
    text = name ++ (before ++ 0x3A :: (after ++ m.2))

/-- Braces, and between them the texts of the members, in this order. -/
def ObjectText (ms : List (String × List UInt8)) (text : List UInt8) : Prop :=
  ∃ items inner, List.Forall₂ MemberText ms items ∧ Separated items inner ∧
    text = 0x7B :: (inner ++ [0x7D])

/-! ## Any value -/

/-- Some decimal digits, at least one. -/
def Digits (text : List UInt8) : Prop := text ≠ [] ∧ ∀ b ∈ text, isDigit b = true

/-- The whole digits of a number, without a needless zero. -/
def WholeText (text : List UInt8) : Prop :=
  text = [0x30] ∨ Digits text ∧ text.head? ≠ some 0x30

def FractionText (text : List UInt8) : Prop :=
  text = [] ∨ ∃ ds, Digits ds ∧ text = 0x2E :: ds

/-- Nothing, or an `e` of either case, a sign if any, and digits. -/
def ExponentText (text : List UInt8) : Prop :=
  text = [] ∨ ∃ e sign ds, (e = 0x65 ∨ e = 0x45) ∧
    (sign = [] ∨ sign = [0x2B] ∨ sign = [0x2D]) ∧ Digits ds ∧ text = e :: (sign ++ ds)

/-- A sign, whole digits, a fraction and an exponent. -/
def NumberText (text : List UInt8) : Prop :=
  ∃ sign whole fraction exponent, text = sign ++ (whole ++ (fraction ++ exponent)) ∧
    (sign = [] ∨ sign = [0x2D]) ∧ WholeText whole ∧ FractionText fraction ∧ ExponentText exponent

/-- What may stand in a string that is not kept. -/
inductive QuotedPiece : List UInt8 → Prop
  | plain {b} : isPlain b = true → QuotedPiece [b]
  | letter {c b} : letterEscape? b = some c → QuotedPiece [0x5C, b]
  | unit {n digits} : HexText n digits → QuotedPiece (0x5C :: 0x75 :: digits)

/-- A string that is not kept. Its bytes need not be UTF-8, and its surrogates need not pair up. -/
def QuotedText (text : List UInt8) : Prop :=
  ∃ pieces : List (List UInt8), (∀ p ∈ pieces, QuotedPiece p) ∧
    text = 0x22 :: (pieces.flatten ++ [0x22])

/-- A value, of any depth. -/
inductive WellFormed : List UInt8 → Prop
  | null : WellFormed nullText
  | boolean (b) {text} : BooleanText b text → WellFormed text
  | number {text} : NumberText text → WellFormed text
  | string {text} : QuotedText text → WellFormed text
  | list {items inner} : Separated items inner → (∀ item ∈ items, WellFormed item) →
      WellFormed (0x5B :: (inner ++ [0x5D]))
  /-- The keys have the white space and the colon after them. -/
  | object {ms : List (List UInt8 × List UInt8)} {inner} :
      Separated (ms.map fun m => m.1 ++ m.2) inner →
      (∀ m ∈ ms, ∃ name before after, QuotedText name ∧ Blanks before ∧ Blanks after ∧
        m.1 = name ++ (before ++ 0x3A :: after)) →
      (∀ m ∈ ms, WellFormed m.2) → WellFormed (0x7B :: (inner ++ [0x7D]))

/-- What stands for a character may stand in a string that is not kept. -/
theorem CharText.pieces {c : Char} {text : List UInt8} (h : CharText c text) :
    ∃ pieces : List (List UInt8), (∀ p ∈ pieces, QuotedPiece p) ∧ text = pieces.flatten := by
  cases h with
  | plain hquote hslash hlow =>
    refine ⟨(String.utf8EncodeChar c).map fun b => [b], ?_, ?_⟩
    · intro p hp
      obtain ⟨b, hb, rfl⟩ := List.mem_map.mp hp
      exact .plain (isPlain_of_mem_utf8EncodeChar hquote hslash hlow hb)
    · rw [← List.flatMap_def, List.flatMap_singleton']
  | letter hletter => exact ⟨[_], by simpa using .letter hletter, by simp⟩
  | unit hdigits _ => exact ⟨[_], by simpa using .unit hdigits, by simp⟩
  | @pair high low digits digits' hhigh hlow _ _ =>
    refine ⟨[0x5C :: 0x75 :: digits, 0x5C :: 0x75 :: digits'], ?_, by simp⟩
    simp only [List.forall_mem_cons, List.not_mem_nil, false_implies, implies_true, and_true]
    exact ⟨.unit hhigh, .unit hlow⟩

theorem charTexts_pieces {cs : List Char} {texts : List (List UInt8)}
    (h : List.Forall₂ CharText cs texts) :
    ∃ pieces : List (List UInt8), (∀ p ∈ pieces, QuotedPiece p) ∧
      texts.flatten = pieces.flatten := by
  induction h with
  | nil => exact ⟨[], by simp, rfl⟩
  | cons hc _ ih =>
    obtain ⟨pieces, hpieces, hflat⟩ := ih
    obtain ⟨first, hfirst, rfl⟩ := hc.pieces
    refine ⟨first ++ pieces, ?_, by simp [hflat]⟩
    intro p hp
    exact (List.mem_append.mp hp).elim (hfirst p) (hpieces p)

theorem StringText.quoted {s : String} {text : List UInt8} (h : StringText s text) :
    QuotedText text := by
  obtain ⟨texts, htexts, rfl⟩ := h
  obtain ⟨pieces, hpieces, hflat⟩ := charTexts_pieces htexts
  exact ⟨pieces, hpieces, by rw [hflat]⟩

/-- An object with well-formed values is well-formed. -/
theorem ObjectText.wellFormed {ms : List (String × List UInt8)} {text : List UInt8}
    (h : ObjectText ms text) (hvalues : ∀ m ∈ ms, WellFormed m.2) : WellFormed text := by
  obtain ⟨items, inner, hitems, hsep, rfl⟩ := h
  have hparts : ∃ ps : List (List UInt8 × List UInt8), ps.map (fun p => p.1 ++ p.2) = items ∧
      ∀ p ∈ ps, WellFormed p.2 ∧ ∃ name before after, QuotedText name ∧ Blanks before ∧
        Blanks after ∧ p.1 = name ++ (before ++ 0x3A :: after) := by
    clear hsep
    induction hitems with
    | nil => exact ⟨[], rfl, by simp⟩
    | @cons m item ms items hm _ ih =>
      obtain ⟨name, before, after, hname, hbefore, hafter, rfl⟩ := hm
      obtain ⟨ps, hps, hall⟩ := ih fun n hn => hvalues n (List.mem_cons_of_mem _ hn)
      refine ⟨(name ++ (before ++ 0x3A :: after), m.2) :: ps, by simp [hps], ?_⟩
      rw [List.forall_mem_cons]
      exact ⟨⟨hvalues m List.mem_cons_self, name, before, after, hname.quoted, hbefore, hafter,
        rfl⟩, hall⟩
  obtain ⟨ps, rfl, hall⟩ := hparts
  exact .object hsep (fun p hp => (hall p hp).2) fun p hp => (hall p hp).1

/-! ## Strings that are read -/

theorem hexEscape_text {n : Nat} {digits : List UInt8} (h : HexText n digits) (ending : Ending)
    (tail : List UInt8) : hexEscape ending (digits ++ tail) = .ok (n, tail) := by
  obtain ⟨ha, hb, hc, hd⟩ := h
  rename_i a b c d
  have hn : Numeral.append 16 0 [a, b, c, d] = 0x1000 * a + 0x100 * b + 0x10 * c + d := by
    simp only [Numeral.append]
    omega
  simp only [List.cons_append, List.nil_append, hexEscape, ha, hb, hc, hd, hn]

theorem readEscape_unicode {ending : Ending} {s r : List UInt8} {c : Char}
    (h : unicodeEscape ending s = .ok (c, r)) : readEscape ending (0x75 :: s) = .ok (c, r) := by
  rw [readEscape, if_pos rfl, h]

/-- A character is read from each of its texts. -/
theorem readBytes_charText {c : Char} {text : List UInt8} (h : CharText c text) (ending : Ending)
    (done tail : List UInt8) :
    readBytes ending done (text ++ tail) =
      readBytes ending ((String.utf8EncodeChar c).reverse ++ done) tail := by
  cases h with
  | plain hquote hslash hlow =>
    exact readBytes_plain ending (fun b => isPlain_of_mem_utf8EncodeChar hquote hslash hlow) _ _
  | @letter _ b hletter =>
    have hb : b ≠ 0x75 := by
      rintro rfl
      cases hletter
    have hread : readEscape ending (b :: tail) = .ok (c, tail) := by
      simp only [readEscape, if_neg hb, hletter]
    exact readBytes_escape hread done
  | @unit n digits hdigits hn =>
    have hunit := hexEscape_text hdigits ending tail
    refine readBytes_escape (readEscape_unicode (unicodeEscape_eq_ok_iff.mpr (Or.inl ?_))) done
    exact ⟨n, hunit, by omega, by omega, rfl⟩
  | @pair high low digits digits' hhigh hlow hhighRange hlowRange =>
    have hfirst := hexEscape_text hhigh ending (0x5C :: 0x75 :: (digits' ++ tail))
    have hsecond := hexEscape_text hlow ending tail
    simp only [List.cons_append, List.append_assoc]
    refine readBytes_escape (readEscape_unicode (unicodeEscape_eq_ok_iff.mpr (Or.inr ?_))) done
    exact ⟨high, low, _, hfirst, hhighRange, hsecond, hlowRange, rfl⟩

theorem readBytes_charTexts {cs : List Char} {pieces : List (List UInt8)}
    (h : List.Forall₂ CharText cs pieces) (ending : Ending) (done tail : List UInt8) :
    readBytes ending done (pieces.flatten ++ tail) =
      readBytes ending ((Text.encode cs).reverse ++ done) tail := by
  induction h generalizing done with
  | nil => rfl
  | cons hc _ ih =>
    rw [List.flatten_cons, List.append_assoc, readBytes_charText hc, ih, Text.encode_cons,
      List.reverse_append, List.append_assoc]

/-- A string is read from each of its texts. -/
theorem StringText.quotes {s : String} {text : List UInt8} (h : StringText s text) :
    ∃ body, text = 0x22 :: body ∧ Quotes body s := by
  obtain ⟨pieces, hpieces, rfl⟩ := h
  refine ⟨_, rfl, ?_⟩
  intro ending rest
  have hbytes : readBytes ending [] (pieces.flatten ++ [0x22] ++ rest) =
      .ok (Text.encode s.toList, rest) := by
    rw [List.append_assoc, readBytes_charTexts hpieces, List.singleton_append, readBytes,
      if_pos rfl, List.append_nil, List.reverse_reverse]
  simp only [readString, hbytes, Text.decode_encode, String.ofList_toList]

end Bytecode.Json
