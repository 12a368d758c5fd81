import Bytecode.Proofs.Address.Spelled

/-!
# The grammar of typed addresses

A text that is typed in denotes an address in one of three ways, after white space is taken off at
both ends: as a hexadecimal number behind a marker, as a decimal number, or as a label with the stem
in use. A marker decides: behind it there is a hexadecimal number or nothing, even where the whole
would be a label. Any text that has none of these forms is refused.

* `Text.Stripped`: a text without the white space around it, which is what trimming leaves
  (`Text.trim_eq_iff`);
* `Label.splitLast?_eq_some_iff`, `Label.ofText?_eq_some_iff`: a label is split at its last
  underscore;
* `Address.Denotes`: the three forms, which the reader takes and no others
  (`Address.ofText?_iff_denotes`).
-/

namespace Bytecode

/-! ## White space -/

namespace Text

/-- The core is the text without the white space around it. -/
structure Stripped (cs core : List Char) : Prop where
  around : ∃ before after, cs = before ++ core ++ after ∧
    (∀ c ∈ before, isBlank c = true) ∧ ∀ c ∈ after, isBlank c = true
  head : ∀ c ∈ core.head?, isBlank c = false
  last : ∀ c ∈ core.getLast?, isBlank c = false

theorem mem_takeWhile_isBlank {cs : List Char} {c : Char} (hc : c ∈ cs.takeWhile isBlank) :
    isBlank c = true :=
  List.all_eq_true.mp List.all_takeWhile c hc

theorem stripped_trim (cs : List Char) : Stripped cs (trim cs) := by
  obtain ⟨rest, hrest⟩ : ∃ rest, cs.dropWhile isBlank = rest := ⟨_, rfl⟩
  have hstart : cs = cs.takeWhile isBlank ++ rest := by
    rw [← hrest, List.takeWhile_append_dropWhile]
  have hend : rest = trimEnd rest ++ (rest.reverse.takeWhile isBlank).reverse := by
    rw [trimEnd, ← List.reverse_append, List.takeWhile_append_dropWhile, List.reverse_reverse]
  rw [trim, hrest]
  refine ⟨⟨cs.takeWhile isBlank, (rest.reverse.takeWhile isBlank).reverse, ?_, ?_, ?_⟩, ?_, ?_⟩
  · rw [List.append_assoc, ← hend]
    exact hstart
  · intro c hc
    exact mem_takeWhile_isBlank hc
  · intro c hc
    exact mem_takeWhile_isBlank (List.mem_reverse.mp hc)
  · -- What is left starts as it did before its end was trimmed.
    intro c hc
    have hhead := List.head?_dropWhile_not isBlank cs
    rw [hrest, hend, List.head?_append, Option.mem_def.mp hc] at hhead
    exact hhead
  · intro c hc
    have hhead := List.head?_dropWhile_not isBlank rest.reverse
    rw [trimEnd, List.getLast?_reverse, Option.mem_def] at hc
    rw [hc] at hhead
    exact hhead

theorem dropWhile_append_blanks {before cs : List Char} (hbefore : ∀ c ∈ before, isBlank c = true)
    (hhead : ∀ c ∈ cs.head?, isBlank c = false) : (before ++ cs).dropWhile isBlank = cs := by
  rw [List.dropWhile_append_of_pos hbefore]
  exact dropWhile_isBlank_eq_self_iff.mpr hhead

theorem Stripped.eq_trim {cs core : List Char} (h : Stripped cs core) : trim cs = core := by
  obtain ⟨⟨before, after, rfl, hbefore, hafter⟩, hhead, hlast⟩ := h
  cases core with
  | nil =>
    have hall : ∀ c ∈ before ++ after, isBlank c = true := by
      intro c hc
      exact (List.mem_append.mp hc).elim (hbefore c) (hafter c)
    have hnone : (before ++ after ++ []).dropWhile isBlank = [] :=
      dropWhile_append_blanks hall nofun
    rw [List.append_nil] at hnone
    rw [List.append_nil, trim, hnone]
    rfl
  | cons c core =>
    have hstart : (before ++ (c :: core ++ after)).dropWhile isBlank = c :: core ++ after :=
      dropWhile_append_blanks hbefore hhead
    have hend : (c :: core ++ after).reverse.dropWhile isBlank = (c :: core).reverse := by
      rw [List.reverse_append]
      refine dropWhile_append_blanks (fun d hd => hafter d (List.mem_reverse.mp hd)) ?_
      rw [List.head?_reverse]
      exact hlast
    rw [trim, List.append_assoc, hstart, trimEnd, hend, List.reverse_reverse]

theorem trim_eq_iff {cs core : List Char} : trim cs = core ↔ Stripped cs core := by
  constructor
  · rintro rfl
    exact stripped_trim cs
  · exact Stripped.eq_trim

end Text

/-! ## Labels -/

namespace Label

/-- A text is split at a mark exactly if none follows. -/
theorem splitLast?_eq_some_iff {mark : Char} {cs before after : List Char} :
    splitLast? mark cs = some (before, after) ↔ cs = before ++ mark :: after ∧ mark ∉ after := by
  constructor
  · intro h
    induction cs generalizing before with
    | nil => cases h
    | cons c cs ih =>
      rw [splitLast?] at h
      split at h
      · next front rest hsplit =>
        cases h
        obtain ⟨rfl, hafter⟩ := ih hsplit
        exact ⟨rfl, hafter⟩
      · next hnone =>
        split at h
        · next hc =>
          cases h
          subst hc
          exact ⟨rfl, splitLast?_eq_none_iff.mp hnone⟩
        · cases h
  · rintro ⟨rfl, hafter⟩
    exact splitLast?_append before hafter

theorem underscore_not_mem_signed {radix n : Nat} {ds : List Char}
    (h : Numeral.Signed radix ds n) : '_' ∉ ds := by
  intro hmem
  have hnone : Numeral.read? radix (n + 1) ds = none :=
    Numeral.read?_eq_none_of_mem rfl (by decide) hmem
  rw [Numeral.read?_eq_some_iff.mpr ⟨Nat.lt_succ_self n, h⟩] at hnone
  cases hnone

/-- A text is a label exactly if it is a stem, an underscore and a number; the stem may hold
underscores of its own. -/
theorem ofText?_eq_some_iff {text : String} {l : Label} :
    ofText? text = some l ↔ l.stem ≠ "" ∧
      ∃ ds, text.toList = l.stem.toList ++ '_' :: ds ∧ Numeral.Signed 16 ds l.address.toNat := by
  constructor
  · intro h
    rw [ofText?] at h
    split at h
    · next c stem ds hsplit =>
      obtain ⟨n, hread, rfl⟩ := Option.map_eq_some_iff.mp h
      obtain ⟨hlt, hsigned⟩ := Numeral.read?_eq_some_iff.mp hread
      have htext := (splitLast?_eq_some_iff.mp hsplit).1
      refine ⟨fun hempty => ?_, ds, ?_, ?_⟩
      · rw [← String.toList_eq_nil_iff, String.toList_ofList] at hempty
        cases hempty
      · rw [String.toList_ofList]
        exact htext
      · rwa [UInt32.toNat_ofNat_of_lt' hlt]
    · cases h
  · rintro ⟨hne, ds, htext, hsigned⟩
    have hsplit := splitLast?_eq_some_iff.mpr ⟨htext, underscore_not_mem_signed hsigned⟩
    have hread := Numeral.read?_eq_some_iff.mpr ⟨l.address.toNat_lt, hsigned⟩
    rw [Ne, ← String.toList_eq_nil_iff] at hne
    obtain ⟨c, stem, hstem⟩ := List.exists_cons_of_ne_nil hne
    rw [ofText?, hsplit, hstem]
    simp only
    rw [show UInt32.size = 2 ^ 32 from rfl, hread, Option.map_some, ← hstem, String.ofList_toList,
      UInt32.ofNat_toNat]

/-- A number is no label. -/
theorem ofText?_eq_none_of_signed {radix n : Nat} {cs : List Char}
    (h : Numeral.Signed radix cs n) : ofText? (String.ofList cs) = none := by
  rw [ofText?, String.toList_ofList, splitLast?_eq_none_iff.mpr (underscore_not_mem_signed h)]

end Label

/-! ## Typed addresses -/

namespace Address

/-- No marker stands at the start. -/
def Unmarked (cs : List Char) : Prop := ∀ m ∈ markers, ¬ m.toList <+: cs

/-- The address that a text denotes where labels have this stem. -/
inductive Denotes (stem : String) : List Char → Address → Prop where
  | marked {m : String} {ds : List Char} {a : Address} (marker : m ∈ markers)
      (number : Numeral.Signed 16 ds a.toNat) : Denotes stem (m.toList ++ ds) a
  | decimal {ds : List Char} {a : Address} (unmarked : Unmarked ds)
      (number : Numeral.Signed 10 ds a.toNat) : Denotes stem ds a
  | label {ds : List Char} {a : Address} (nonempty : stem ≠ "")
      (unmarked : Unmarked (stem.toList ++ '_' :: ds))
      (number : Numeral.Signed 16 ds a.toNat) : Denotes stem (stem.toList ++ '_' :: ds) a

theorem word?_eq_some_iff {radix : Nat} {cs : List Char} {a : Address} :
    word? radix cs = some a ↔ Numeral.Signed radix cs a.toNat := by
  rw [word?, Option.map_eq_some_iff]
  constructor
  · rintro ⟨n, hn, rfl⟩
    obtain ⟨hlt, hsigned⟩ := Numeral.read?_eq_some_iff.mp hn
    rwa [UInt32.toNat_ofNat_of_lt' hlt]
  · intro h
    refine ⟨a.toNat, Numeral.read?_eq_some_iff.mpr ⟨a.toNat_lt, h⟩, ?_⟩
    exact UInt32.ofNat_toNat

theorem afterMarker?_eq_none_iff {cs : List Char} : afterMarker? cs = none ↔ Unmarked cs := by
  rw [Option.eq_none_iff_forall_ne_some]
  constructor
  · rintro h m hm ⟨ds, hds⟩
    exact h ds (afterMarker?_eq_some_iff.mpr ⟨m, hm, hds.symm⟩)
  · intro h ds hds
    obtain ⟨m, hm, hcs⟩ := afterMarker?_eq_some_iff.mp hds
    exact h m hm ⟨ds, hcs.symm⟩

/-- Behind a marker there is a hexadecimal number or nothing. -/
theorem denotes_marked_iff {m : String} (hm : m ∈ markers) {stem : String} {ds : List Char}
    {a : Address} : Denotes stem (m.toList ++ ds) a ↔ Numeral.Signed 16 ds a.toNat := by
  constructor
  · intro h
    generalize hcs : m.toList ++ ds = cs at h
    have hafter := afterMarker?_eq_some_iff.mpr ⟨m, hm, hcs.symm⟩
    cases h with
    | @marked m' ds' a hm' number =>
      have hafter' : afterMarker? (m'.toList ++ ds') = some ds' :=
        afterMarker?_eq_some_iff.mpr ⟨m', hm', rfl⟩
      rw [hafter] at hafter'
      cases hafter'
      exact number
    | decimal unmarked number =>
      rw [afterMarker?_eq_none_iff.mpr unmarked] at hafter
      cases hafter
    | label nonempty unmarked number =>
      rw [afterMarker?_eq_none_iff.mpr unmarked] at hafter
      cases hafter
  · exact Denotes.marked hm

theorem denotes_unmarked_iff {cs : List Char} (hcs : Unmarked cs) {stem : String} {a : Address} :
    Denotes stem cs a ↔ Numeral.Signed 10 cs a.toNat ∨
      Label.ofText? (String.ofList cs) = some ⟨stem, a⟩ := by
  rw [Label.ofText?_eq_some_iff, String.toList_ofList]
  constructor
  · intro h
    cases h with
    | marked marker number => exact absurd ⟨_, rfl⟩ (hcs _ marker)
    | decimal unmarked number => exact Or.inl number
    | label nonempty unmarked number => exact Or.inr ⟨nonempty, _, rfl, number⟩
  · rintro (number | ⟨nonempty, ds, rfl, number⟩)
    · exact .decimal hcs number
    · exact .label nonempty hcs number

theorem ofText?_eq_some_iff {text stem : String} {a : Address} :
    ofText? text stem = some a ↔ Denotes stem (Text.trim text.toList) a := by
  unfold ofText?
  generalize Text.trim text.toList = cs
  dsimp only
  cases hmarker : afterMarker? cs with
  | some ds =>
    obtain ⟨m, hm, rfl⟩ := afterMarker?_eq_some_iff.mp hmarker
    rw [denotes_marked_iff hm, ← word?_eq_some_iff]
  | none =>
    rw [denotes_unmarked_iff (afterMarker?_eq_none_iff.mp hmarker), ← word?_eq_some_iff]
    cases hword : word? 10 cs with
    | some b =>
      have hlabel := Label.ofText?_eq_none_of_signed (word?_eq_some_iff.mp hword)
      simp [hlabel]
    | none =>
      cases Label.ofText? (String.ofList cs) with
      | none => simp
      | some l =>
        obtain ⟨stem', b⟩ := l
        simp [eq_comm]

/-- **The grammar of typed addresses.** What is read of a text is what it denotes without the white
space around it; a text that denotes nothing is refused. -/
theorem ofText?_iff_denotes (text stem : String) :
    let core := Text.trim text.toList
    (∀ cs, Text.Stripped text.toList cs ↔ cs = core) ∧
    (∀ a, ofText? text stem = some a ↔ Denotes stem core a) ∧
    (ofText? text stem = none ↔ ∀ a, ¬ Denotes stem core a) := by
  intro core
  refine ⟨fun cs => ?_, fun a => ofText?_eq_some_iff, ?_⟩
  · rw [← Text.trim_eq_iff]
    exact eq_comm
  · rw [Option.eq_none_iff_forall_ne_some]
    exact forall_congr' fun a => not_congr ofText?_eq_some_iff

/-- Behind a marker a bad number is not tried as a label. -/
example : ofText? "0x_1F" "0x" = none := by decide

/-- The last underscore counts, and a number in a label may have a sign. -/
example : ofText? " loc_0_+1f\n" "loc_0" = some 0x1F := by decide

end Address

end Bytecode
