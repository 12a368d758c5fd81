import Bytecode.Proofs.Address.Spelled
import Bytecode.Render.Text
import Mathlib.Data.List.Forall2

/-!
# Quoted operands that are recovered

A quoted operand is read back character by character, whatever its string holds and whatever stands
behind it. A written character is a character of its own: it is read as just the one that it stands
for, before any rest (`readChar?_operandChar`), and only the closing quote begins with a quote. So
a string that spells escapes or quotes is never taken for what it spells.

* `Text.readChar?`: one written character, of any of the three forms;
* `Text.readQuoted?`, `Text.unquote?`: a whole text between quotes, and what follows it;
* `text_recoverable`: all of it, for the operands of an instruction.
-/

namespace Bytecode

namespace Numeral

theorem unsigned?_lowerHex (n : Nat) : unsigned? 16 (lowerHex n) = some n := by
  have hread : digitValues? 16 (lowerHex n) = some (digits 16 n) :=
    digitValues?_map (fun d hd => (alphabets_spec d hd).2.2.2) fun _ => lt_of_mem_digits (by omega)
  cases hcs : lowerHex n with
  | nil => exact absurd (List.map_eq_nil_iff.mp hcs) (digits_ne_nil 16 n)
  | cons c cs => rw [unsigned?, ← hcs, hread, Option.map_some, append_digits]

theorem mem_lowerAlphabet {n : Nat} {c : Char} (hc : c ∈ lowerHex n) : c ∈ lowerAlphabet := by
  obtain ⟨d, hd, rfl⟩ := List.mem_map.mp hc
  have hlt : d < 16 := lt_of_mem_digits (by omega) hd
  exact List.mem_of_getElem? (alphabets_spec d hlt).2.1

end Numeral

namespace Text

/-! ## Reading a quoted text -/

/-- The character of an escape by code point, from after its opening brace, and what follows it. -/
def readCodePoint? (cs : List Char) : Option (Char × List Char) :=
  match Numeral.unsigned? 16 (cs.takeWhile (· ≠ '\x7d')), cs.dropWhile (· ≠ '\x7d') with
  | some n, _ :: rest => if n.isValidChar then some (Char.ofNat n, rest) else none
  | _, _ => none

/-- The character that one letter after a backslash stands for. -/
def letter? (c : Char) : Option Char :=
  if c = 't' then some '\t'
  else if c = 'r' then some '\r'
  else if c = 'n' then some '\n'
  else if c = '\'' ∨ c = '"' ∨ c = '\\' then some c
  else none

/-- The character that is written at the start, and what follows it. -/
def readChar? : List Char → Option (Char × List Char)
  | [] => none
  | '\\' :: 'u' :: '\x7b' :: cs => readCodePoint? cs
  | '\\' :: c :: cs => (letter? c).map fun d => (d, cs)
  | '\\' :: [] => none
  | c :: cs => some (c, cs)

theorem readCodePoint?_length {cs rest : List Char} {c : Char}
    (h : readCodePoint? cs = some (c, rest)) : rest.length < cs.length := by
  unfold readCodePoint? at h
  have hdrop := (List.dropWhile_suffix (l := cs) (· ≠ '\x7d')).length_le
  split at h
  · next n b rest' hn hrest =>
    rw [hrest, List.length_cons] at hdrop
    split at h
    · cases h
      omega
    · cases h
  · cases h

theorem readChar?_length {cs rest : List Char} {c : Char} (h : readChar? cs = some (c, rest)) :
    rest.length < cs.length := by
  unfold readChar? at h
  split at h
  · cases h
  · have := readCodePoint?_length h
    simp only [List.length_cons]
    omega
  · obtain ⟨d, _, hd⟩ := Option.map_eq_some_iff.mp h
    cases hd
    simp only [List.length_cons]
    omega
  · cases h
  · cases h
    simp

/-- The characters of a quoted text, from after its opening quote, and what follows the closing
one. -/
def readQuoted? (cs : List Char) : Option (List Char × List Char) :=
  if cs.head? = some '"' then some ([], cs.tail)
  else
    match _h : readChar? cs with
    | none => none
    | some (c, rest) => (readQuoted? rest).map fun (ds, rest) => (c :: ds, rest)
termination_by cs.length
decreasing_by exact readChar?_length _h

/-- The string of a quoted text, and what follows the text. -/
def unquote? (text : String) : Option (String × String) :=
  match text.toList with
  | '"' :: cs => (readQuoted? cs).map fun (ds, rest) => (String.ofList ds, String.ofList rest)
  | _ => none

/-! ## One character -/

theorem readCodePoint?_lowerHex (c : Char) (rest : List Char) :
    readCodePoint? (Numeral.lowerHex c.toNat ++ '\x7d' :: rest) = some (c, rest) := by
  have hdigit : ∀ d ∈ Numeral.lowerHex c.toNat, (decide (d ≠ '\x7d')) = true := by
    have halphabet : (Numeral.lowerAlphabet.all fun d => decide (d ≠ '\x7d')) = true := by decide
    exact fun d hd => List.all_eq_true.mp halphabet d (Numeral.mem_lowerAlphabet hd)
  have hvalid : c.toNat.isValidChar := c.valid
  unfold readCodePoint?
  rw [List.takeWhile_append_of_pos hdigit, List.dropWhile_append_of_pos hdigit,
    List.takeWhile_cons_of_neg (by decide), List.dropWhile_cons_of_neg (by decide),
    List.append_nil, Numeral.unsigned?_lowerHex]
  simp only [if_pos hvalid, Char.ofNat_toNat]

/-- A written character is read as the one that it stands for, whatever follows. -/
theorem readChar?_operandChar (c : Char) (rest : List Char) :
    readChar? (operandChar c ++ rest) = some (c, rest) := by
  unfold operandChar
  split
  · subst_vars; rfl
  split
  · subst_vars; rfl
  split
  · subst_vars; rfl
  split
  · rename_i hquote
    rcases hquote with rfl | rfl | rfl <;> rfl
  rename_i hspecial
  simp only [not_or] at hspecial
  split
  · -- A character that stands for itself is no backslash.
    rw [List.singleton_append]
    unfold readChar?
    split
    all_goals simp_all
  · have hescape : codePointEscape c ++ rest =
        '\\' :: 'u' :: '\x7b' :: (Numeral.lowerHex c.toNat ++ '\x7d' :: rest) := by
      simp [codePointEscape]
    rw [hescape]
    exact readCodePoint?_lowerHex c rest

theorem operandChar_eq_cons (c : Char) : ∃ d ds, operandChar c = d :: ds ∧ d ≠ '"' := by
  unfold operandChar codePointEscape
  split
  · exact ⟨_, _, rfl, by decide⟩
  split
  · exact ⟨_, _, rfl, by decide⟩
  split
  · exact ⟨_, _, rfl, by decide⟩
  split
  · exact ⟨_, _, rfl, by decide⟩
  rename_i hspecial
  simp only [not_or] at hspecial
  split
  · exact ⟨_, _, rfl, hspecial.2.1⟩
  · exact ⟨_, _, rfl, by decide⟩

/-- What is written for a character is printable ASCII. -/
theorem ascii_of_mem_operandChar {c d : Char} (hd : d ∈ operandChar c) :
    0x20 ≤ d.toNat ∧ d.toNat ≤ 0x7E := by
  have hpair : ∀ e : Char, 0x20 ≤ e.toNat ∧ e.toNat ≤ 0x7E → d ∈ ['\\', e] →
      0x20 ≤ d.toNat ∧ d.toNat ≤ 0x7E := by
    intro e he hd
    rcases List.mem_pair.mp hd with rfl | rfl
    · decide
    · exact he
  unfold operandChar at hd
  split at hd
  · exact hpair 't' (by decide) hd
  split at hd
  · exact hpair 'r' (by decide) hd
  split at hd
  · exact hpair 'n' (by decide) hd
  split at hd
  · rename_i hquote
    rcases hquote with rfl | rfl | rfl <;> exact hpair _ (by decide) hd
  split at hd
  · rename_i hplain
    rwa [List.mem_singleton.mp hd]
  · rw [codePointEscape, List.mem_append, List.mem_append] at hd
    have hdigit : (Numeral.lowerAlphabet.all fun e => 0x20 ≤ e.toNat ∧ e.toNat ≤ 0x7E) = true := by
      decide
    rcases hd with (hd | hd) | hd
    · simp only [List.mem_cons, List.not_mem_nil, or_false] at hd
      rcases hd with rfl | rfl | rfl <;> decide
    · simpa using List.all_eq_true.mp hdigit d (Numeral.mem_lowerAlphabet hd)
    · rw [List.mem_singleton.mp hd]
      decide

/-! ## Whole texts -/

theorem readQuoted?_stop (rest : List Char) : readQuoted? ('"' :: rest) = some ([], rest) := by
  rw [readQuoted?, List.head?_cons, if_pos rfl, List.tail_cons]

theorem readQuoted?_step {cs rest : List Char} {c : Char} (hquote : cs.head? ≠ some '"')
    (h : readChar? cs = some (c, rest)) :
    readQuoted? cs = (readQuoted? rest).map fun (ds, rest) => (c :: ds, rest) := by
  rw [readQuoted?, if_neg hquote]
  split
  · rename_i hnone
    rw [h] at hnone; cases hnone
  · rename_i c' rest' hsome
    rw [h] at hsome; cases hsome
    rfl

theorem readQuoted?_written (cs rest : List Char) :
    readQuoted? (cs.flatMap operandChar ++ '"' :: rest) = some (cs, rest) := by
  induction cs with
  | nil => exact readQuoted?_stop rest
  | cons c cs ih =>
    have hread := readChar?_operandChar c (cs.flatMap operandChar ++ '"' :: rest)
    have hquote : (operandChar c ++ (cs.flatMap operandChar ++ '"' :: rest)).head? ≠ some '"' := by
      obtain ⟨d, ds, hd, hne⟩ := operandChar_eq_cons c
      rw [hd]
      simpa using hne
    rw [List.flatMap_cons, List.append_assoc, readQuoted?_step hquote hread, ih]
    rfl

/-- **A quoted operand is read back**, whatever follows it. -/
theorem unquote?_quoteOperand (s rest : String) :
    unquote? (quoteOperand s ++ rest) = some (s, rest) := by
  have hchars : (quoteOperand s ++ rest).toList =
      '"' :: (s.toList.flatMap operandChar ++ '"' :: rest.toList) := by
    simp [quoteOperand, quote]
  unfold unquote?
  rw [hchars]
  simp only [readQuoted?_written, Option.map_some, String.ofList_toList]

/-- Where two quoted operands begin alike, with anything behind them, they are the same. -/
theorem quoteOperand_append_inj {s t rest rest' : String}
    (h : quoteOperand s ++ rest = quoteOperand t ++ rest') : s = t ∧ rest = rest' := by
  have hread := unquote?_quoteOperand s rest
  rw [h, unquote?_quoteOperand, Option.some.injEq, Prod.mk.injEq] at hread
  exact ⟨hread.1.symm, hread.2.symm⟩

end Text

/-! ## Operands of an instruction -/

namespace Render

open Text

/-- **Quoted operands are recoverable.** The operand of a string is printable ASCII between double
quotes, and the string is read back from it, together with whatever follows. So no two strings are
shown alike, no operand of a string is the beginning of another one, and two lines that begin with
such operands are told apart by their strings. Each written character is read as the one it stands
for, before any rest, and none of them begins like the end of the operand. -/
theorem text_recoverable (settings : Settings) (store : Store) :
    let shown (s : String) := operandText settings store (.text s)
    (∀ s, ∃ body : List Char, shown s = "\"" ++ String.ofList body ++ "\"" ∧
      ∀ c ∈ body, 0x20 ≤ c.toNat ∧ c.toNat ≤ 0x7E) ∧
    (∀ s rest, unquote? (shown s ++ rest) = some (s, rest)) ∧
    (∀ s t rest rest', shown s ++ rest = shown t ++ rest' ↔ s = t ∧ rest = rest') ∧
    Function.Injective shown ∧
    (∀ s t, (shown s).toList <+: (shown t).toList ↔ s = t) ∧
    (∀ s, ∃ parts : List (List Char), shown s = "\"" ++ String.ofList parts.flatten ++ "\"" ∧
      List.Forall₂ (fun part c => part.head? ≠ some '"' ∧
        ∀ rest, readChar? (part ++ rest) = some (c, rest)) parts s.toList) := by
  intro shown
  have hshown : ∀ s, shown s = "\"" ++ String.ofList (s.toList.flatMap operandChar) ++ "\"" := by
    intro s
    simp [shown, operandText, quoteOperand, quote, ← String.toList_inj]
  refine ⟨fun s => ⟨_, hshown s, fun c hc => ?_⟩, unquote?_quoteOperand, fun s t rest rest' => ?_,
    fun s t h => ?_, fun s t => ?_, fun s => ⟨s.toList.map operandChar, ?_, ?_⟩⟩
  · obtain ⟨d, _, hc⟩ := List.mem_flatMap.mp hc
    exact ascii_of_mem_operandChar hc
  · constructor
    · exact quoteOperand_append_inj
    · rintro ⟨rfl, rfl⟩
      rfl
  · have happend : shown s ++ "" = shown t ++ "" := congrArg (· ++ "") h
    exact (quoteOperand_append_inj happend).1
  · constructor
    · rintro ⟨more, hmore⟩
      have happend : shown s ++ String.ofList more = shown t ++ "" := by
        simp [← String.toList_inj, hmore]
      exact (quoteOperand_append_inj happend).1
    · rintro rfl
      exact List.prefix_rfl
  · rw [hshown, List.flatMap_def]
  · rw [List.forall₂_map_left_iff]
    refine List.forall₂_same.mpr fun c _ => ⟨?_, readChar?_operandChar c⟩
    obtain ⟨d, ds, hd, hne⟩ := operandChar_eq_cons c
    rw [hd]
    simpa using hne

/-- A string that spells a quote and an escape, before a comma. -/
example : unquote? ("\"a\\\"\\\\u\x7b41\x7d\\u\x7b1f600\x7d\", 1") =
    some ("a\"\\u\x7b41\x7d😀", ", 1") := by
  decide +kernel

end Render

end Bytecode
