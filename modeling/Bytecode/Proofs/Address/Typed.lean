import Bytecode.Address.Typed
import Bytecode.Proofs.Address.Written

/-!
# Written addresses that are typed in

A typed text is tried as a hexadecimal number, as a decimal number and as a label, in this order and
after trimming. A number with its `$` is always read back (`ofText?_raw`). A label is read back
exactly if its stem survives what comes before the label is tried (`ofText?_label`): a stem is
`Typable` if it is not empty and starts neither with white space nor with a marker. With any other
stem the label is refused, for it holds an underscore and no number does.

* `trim_append`: trimming takes nothing from the end of a text that ends in no white space;
* `afterMarker?_eq_some_iff`: the three markers;
* `read?_upperHex`, `read?_eq_none_of_mem`: numbers are read back, and nothing else is read;
* `Label.ofText?_text`: a label is split at the underscore that was put there.
-/

namespace Bytecode

/-! ## Trimming -/

namespace Text

theorem dropWhile_append_token {cs ds : List Char} (hne : ds ≠ [])
    (hds : ∀ d ∈ ds, isBlank d = false) :
    (cs ++ ds).dropWhile isBlank = cs.dropWhile isBlank ++ ds := by
  induction cs with
  | nil =>
    cases ds with
    | nil => exact absurd rfl hne
    | cons d ds =>
      have hd := hds d List.mem_cons_self
      exact List.dropWhile_cons_of_neg (by simp [hd])
  | cons c cs ih =>
    rw [List.cons_append, List.dropWhile_cons, List.dropWhile_cons, ih]
    split <;> rfl

/-- Where a text ends in no white space, only its start is trimmed. -/
theorem trim_append (cs : List Char) {ds : List Char} (hne : ds ≠ [])
    (hds : ∀ d ∈ ds, isBlank d = false) : trim (cs ++ ds) = cs.dropWhile isBlank ++ ds := by
  have hne' : ds.reverse ≠ [] := by simpa using hne
  obtain ⟨d, rest, hd⟩ := List.exists_cons_of_ne_nil hne'
  have hmem : d ∈ ds := by
    rw [← List.mem_reverse, hd]
    exact List.mem_cons_self
  have hblank : isBlank d = false := hds d hmem
  rw [trim, dropWhile_append_token hne hds, trimEnd, List.reverse_append, hd, List.cons_append,
    List.dropWhile_cons_of_neg (by simp [hblank]), ← List.cons_append, ← hd, ← List.reverse_append,
    List.reverse_reverse]

theorem dropWhile_isBlank_eq_self_iff {cs : List Char} :
    cs.dropWhile isBlank = cs ↔ ∀ c ∈ cs.head?, isBlank c = false := by
  constructor
  · intro h c hc
    have hhead := List.head?_dropWhile_not isBlank cs
    rw [h, hc] at hhead
    exact hhead
  · intro h
    cases cs with
    | nil => rfl
    | cons c cs =>
      have hc := h c rfl
      exact List.dropWhile_cons_of_neg (by simp [hc])

end Text

/-! ## Reading numbers -/

namespace Numeral

theorem digitValues?_eq_none_of_mem {radix : Nat} {c : Char} (hc : digitValue? radix c = none)
    {cs : List Char} (hmem : c ∈ cs) : digitValues? radix cs = none := by
  induction cs with
  | nil => cases hmem
  | cons e cs ih =>
    rw [digitValues?]
    rcases List.mem_cons.mp hmem with rfl | hmem
    · rw [hc]
    · rw [ih hmem]
      cases digitValue? radix e <;> rfl

theorem unsigned?_eq_none_of_mem {radix : Nat} {c : Char} (hc : digitValue? radix c = none)
    {cs : List Char} (hmem : c ∈ cs) : unsigned? radix cs = none := by
  cases cs with
  | nil => rfl
  | cons e cs => rw [unsigned?, digitValues?_eq_none_of_mem hc hmem, Option.map_none]

/-- A text with a character that is neither a digit nor a sign is no number. -/
theorem read?_eq_none_of_mem {radix bound : Nat} {c : Char} (hc : digitValue? radix c = none)
    (hplus : c ≠ '+') {cs : List Char} (hmem : c ∈ cs) : read? radix bound cs = none := by
  unfold read?
  dsimp only
  split
  · have hrest := (List.mem_cons.mp hmem).resolve_left hplus
    rw [unsigned?_eq_none_of_mem hc hrest, Option.filter_none]
  · rw [unsigned?_eq_none_of_mem hc hmem, Option.filter_none]

/-- A number without a sign is read as its digits say, if it is below the bound. -/
theorem read?_eq_of_unsigned? {radix bound n : Nat} {cs : List Char} (hplus : '+' ∉ cs)
    (h : unsigned? radix cs = some n) (hn : n < bound) : read? radix bound cs = some n := by
  unfold read?
  dsimp only
  split
  · exact absurd List.mem_cons_self hplus
  · rw [h, Option.filter_some, if_pos (decide_eq_true hn)]

theorem read?_upperHex (width : Nat) {n bound : Nat} (hn : n < bound) :
    read? 16 bound (upperHex width n) = some n := by
  refine read?_eq_of_unsigned? (fun hmem => ?_) (unsigned?_upperHex width n) hn
  exact absurd (mem_upperAlphabet hmem) (by decide)

end Numeral

/-! ## Reading labels -/

namespace Label

theorem splitLast?_eq_none_iff {mark : Char} {cs : List Char} :
    splitLast? mark cs = none ↔ mark ∉ cs := by
  induction cs with
  | nil => simp [splitLast?]
  | cons c cs ih =>
    rw [splitLast?, List.mem_cons, not_or, ← ih]
    cases hsplit : splitLast? mark cs with
    | some parts => simp
    | none => simp [eq_comm]

/-- A text is split at a mark that none follows. -/
theorem splitLast?_append {mark : Char} (before : List Char) {after : List Char}
    (h : mark ∉ after) : splitLast? mark (before ++ mark :: after) = some (before, after) := by
  induction before with
  | nil =>
    rw [List.nil_append, splitLast?, splitLast?_eq_none_iff.mpr h]
    exact if_pos rfl
  | cons c before ih => rw [List.cons_append, splitLast?, ih]

theorem underscore_not_mem_upperHex (width n : Nat) : '_' ∉ Numeral.upperHex width n :=
  fun hmem => absurd (Numeral.mem_upperAlphabet hmem) (by decide)

/-- A written label is read back, unless its stem is empty. -/
theorem ofText?_text (l : Label) : ofText? l.text = if l.stem = "" then none else some l := by
  have hread := Numeral.read?_upperHex 4 l.address.toNat_lt
  rw [ofText?, toList_text, splitLast?_append _ (underscore_not_mem_upperHex 4 _)]
  cases hstem : l.stem.toList with
  | nil => rw [if_pos (String.toList_eq_nil_iff.mp hstem)]
  | cons c cs =>
    have hne : l.stem ≠ "" := by
      rw [Ne, ← String.toList_eq_nil_iff, hstem]
      exact List.cons_ne_nil c cs
    rw [if_neg hne]
    simp only
    rw [show UInt32.size = 2 ^ 32 from rfl, hread, Option.map_some, ← hstem, String.ofList_toList,
      UInt32.ofNat_toNat]

end Label

/-! ## Typed addresses -/

namespace Address

/-- What a hexadecimal number may start with. -/
def markers : List String := ["0x", "0X", "$"]

theorem afterMarker?_eq_some_iff {cs ds : List Char} :
    afterMarker? cs = some ds ↔ ∃ m ∈ markers, cs = m.toList ++ ds := by
  constructor
  · intro h
    unfold afterMarker? at h
    split at h
    · cases h
      exact ⟨"0x", by decide, rfl⟩
    · cases h
      exact ⟨"0X", by decide, rfl⟩
    · cases h
      exact ⟨"$", by decide, rfl⟩
    · cases h
  · rintro ⟨m, hm, rfl⟩
    simp only [markers, List.mem_cons, List.not_mem_nil, or_false] at hm
    rcases hm with rfl | rfl | rfl <;> rfl

/-- Labels with this stem can be typed in. -/
structure Typable (stem : String) : Prop where
  nonempty : stem ≠ ""
  /-- No white space, which would be trimmed. -/
  no_blank : ∀ c ∈ stem.toList.head?, Text.isBlank c = false
  /-- No marker, which would make the text a number. -/
  no_marker : ∀ m ∈ markers, ¬ m.toList <+: stem.toList

/-- A mark and the digits behind it hold no white space. -/
theorem isBlank_of_mem_marked {c : Char} (hc : Text.isBlank c = false) (length n : Nat) :
    ∀ d ∈ c :: Numeral.upperHex length n, Text.isBlank d = false := by
  have halphabet : (Numeral.upperAlphabet.all fun d => !Text.isBlank d) = true := by decide
  intro d hd
  rcases List.mem_cons.mp hd with rfl | hd
  · exact hc
  · simpa using List.all_eq_true.mp halphabet d (Numeral.mem_upperAlphabet hd)

/-- A reference by number is read back, whatever the stem of labels is. -/
theorem ofText?_raw (a : Address) (stem : String) : ofText? a.raw stem = some a := by
  have htrim : Text.trim a.raw.toList = '$' :: Numeral.upperHex 8 a.toNat := by
    rw [toList_raw]
    exact Text.trim_append [] (List.cons_ne_nil _ _) (isBlank_of_mem_marked rfl _ _)
  have hread := Numeral.read?_upperHex 8 a.toNat_lt
  unfold ofText?
  simp only [htrim, afterMarker?, word?]
  rw [show UInt32.size = 2 ^ 32 from rfl, hread, Option.map_some, UInt32.ofNat_toNat]

theorem word?_eq_none_of_underscore (radix : Nat) (h : Numeral.digitValue? radix '_' = none)
    {cs : List Char} (hmem : '_' ∈ cs) : word? radix cs = none := by
  rw [word?, Numeral.read?_eq_none_of_mem h (by decide) hmem, Option.map_none]

/-- What stands before a mark, if it does not hold the mark itself, is before what the mark cuts
off. -/
private theorem prefix_of_append_eq {c : Char} {xs ys ds es : List Char}
    (h : xs ++ ds = ys ++ c :: es) (hc : c ∉ xs) : xs <+: ys := by
  rcases List.append_eq_append_iff.mp h with ⟨t, rfl, _⟩ | ⟨t, rfl, ht⟩
  · exact List.prefix_append xs t
  · cases t with
    | nil => exact ⟨[], by rw [List.append_nil, List.append_nil]⟩
    | cons d t =>
      obtain ⟨rfl, _⟩ := List.cons.inj ht
      exact absurd (by simp) hc

/-- What is read of a text that is a label once it is trimmed: nothing if it starts with a marker,
and else the label, if its stem is the one in use. -/
theorem ofText?_of_trim_eq {text stem : String} {l : Label}
    (htrim : Text.trim text.toList = l.text.toList) :
    ofText? text stem =
      if (∃ m ∈ markers, m.toList <+: l.stem.toList) ∨ l.stem = "" ∨ l.stem ≠ stem then none
      else some l.address := by
  have hmem : '_' ∈ l.text.toList := by
    rw [Label.toList_text]
    simp
  unfold ofText?
  simp only [htrim]
  cases hmarker : afterMarker? l.text.toList with
  | some ds =>
    obtain ⟨m, hm, htext⟩ := afterMarker?_eq_some_iff.mp hmarker
    have hscore : ∀ m ∈ markers, '_' ∉ m.toList := by decide
    have hds : '_' ∈ ds := by
      rw [htext] at hmem
      exact (List.mem_append.mp hmem).resolve_left (hscore m hm)
    -- No marker holds an underscore, so this one ends inside the stem.
    have hstem : m.toList <+: l.stem.toList := by
      rw [Label.toList_text] at htext
      exact prefix_of_append_eq htext.symm (hscore m hm)
    rw [if_pos (Or.inl ⟨m, hm, hstem⟩)]
    exact word?_eq_none_of_underscore 16 (by decide) hds
  | none =>
    have hno : ¬ ∃ m ∈ markers, m.toList <+: l.stem.toList := by
      rintro ⟨m, hm, t, ht⟩
      have htext : l.text.toList =
          m.toList ++ (t ++ '_' :: Numeral.upperHex 4 l.address.toNat) := by
        rw [Label.toList_text, ← ht, List.append_assoc]
      rw [afterMarker?_eq_some_iff.mpr ⟨m, hm, htext⟩] at hmarker
      cases hmarker
    have hdecimal := word?_eq_none_of_underscore 10 (by decide) hmem
    simp only [hno, false_or, hdecimal, String.ofList_toList, Label.ofText?_text]
    by_cases hempty : l.stem = ""
    · simp [hempty]
    · by_cases hstem : l.stem = stem
      · simp [hstem, hstem ▸ hempty]
      · simp [hempty, hstem]

theorem trim_label (l : Label) :
    Text.trim l.text.toList =
      (Label.text ⟨String.ofList (l.stem.toList.dropWhile Text.isBlank), l.address⟩).toList := by
  rw [Label.toList_text, Label.toList_text, String.toList_ofList]
  exact Text.trim_append _ (List.cons_ne_nil _ _) (isBlank_of_mem_marked rfl _ _)

theorem ofText?_label (l : Label) (h : Typable l.stem) :
    ofText? l.text l.stem = some l.address := by
  have hstem : String.ofList (l.stem.toList.dropWhile Text.isBlank) = l.stem := by
    rw [Text.dropWhile_isBlank_eq_self_iff.mpr h.no_blank, String.ofList_toList]
  have htrim := trim_label l
  rw [hstem] at htrim
  rw [ofText?_of_trim_eq htrim, if_neg]
  rintro (⟨m, hm, hprefix⟩ | hempty | hne)
  · exact h.no_marker m hm hprefix
  · exact h.nonempty hempty
  · exact hne rfl

theorem ofText?_label_eq_none (l : Label) (h : ¬ Typable l.stem) :
    ofText? l.text l.stem = none := by
  rw [ofText?_of_trim_eq (trim_label l), if_pos]
  by_cases hstem : String.ofList (l.stem.toList.dropWhile Text.isBlank) = l.stem
  · -- Trimming left the stem as it was, so it starts with no white space.
    have hdrop := congrArg String.toList hstem
    rw [String.toList_ofList] at hdrop
    have hblank := Text.dropWhile_isBlank_eq_self_iff.mp hdrop
    simp only [hstem]
    by_cases hempty : l.stem = ""
    · exact Or.inr (Or.inl hempty)
    · refine Or.inl (Classical.byContradiction fun hnone => h ⟨hempty, hblank, ?_⟩)
      exact fun m hm hprefix => hnone ⟨m, hm, hprefix⟩
  · exact Or.inr (Or.inr hstem)

end Address

end Bytecode
