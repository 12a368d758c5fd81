import Bytecode.Proofs.Render.Labels
import Bytecode.Proofs.Render.Comments
import Bytecode.Proofs.Store.Slices
import Mathlib.Data.List.Sort

/-!
# Lines of the assembly text

Each call of a visit writes one line. The texts that a line shows as they are (the stem of labels,
opcodes, symbols and comments) are free of line feeds by assumption, and all others by their alphabet
(`unbroken_operandText`): numbers are digits with a sign or a point, and a quoted text writes each
character that might break a line by an escape. So the text falls apart at its line feeds just where
the calls do (`splitOn_lines`), and a column that is read from a line is the one that was written
there.

* `FeedFree`: what has to be free of line feeds;
* `lineText`: the line of a call; only its start depends on the indentation and the column;
* `LineByLine`: a text as the lines of some calls, which every visit is (`visit_lineByLine`).
-/

namespace Bytecode

/-- The instruction that a call hands over. -/
def Event.instruction? : Event → Option Instruction
  | .label _ => none
  | .instruction i => some i

/-- A text that stays on one line. -/
def Unbroken (text : String) : Prop := '\n' ∉ text.toList

theorem Unbroken.append {a b : String} (ha : Unbroken a) (hb : Unbroken b) : Unbroken (a ++ b) := by
  rw [Unbroken, String.toList_append, List.mem_append]
  exact not_or.mpr ⟨ha, hb⟩

theorem unbroken_join {texts : List String} (h : ∀ text ∈ texts, Unbroken text) :
    Unbroken (String.join texts) := by
  rw [Unbroken, String.toList_join, List.mem_flatMap]
  rintro ⟨text, htext, hfeed⟩
  exact h text htext hfeed

theorem unbroken_ofList {cs : List Char} : Unbroken (String.ofList cs) ↔ '\n' ∉ cs := by
  rw [Unbroken, String.toList_ofList]

/-! ## Calls and their number -/

namespace Store

variable {s : Store}

theorem instructions_eventsOf (s : Store) (is : List Instruction) :
    (s.eventsOf is).filterMap Event.instruction? = is := by
  induction is with
  | nil => rfl
  | cons i is ih =>
    rw [eventsOf_cons, List.filterMap_append, ih, eventsAt]
    split <;> rfl

theorem length_eventsOf (s : Store) (is : List Instruction) :
    (s.eventsOf is).length = is.length + ((is.map (·.address)).filter s.isTarget).length := by
  induction is with
  | nil => rfl
  | cons i is ih =>
    rw [eventsOf_cons, List.length_append, ih, eventsAt, List.map_cons, List.filter_cons]
    split <;> simp only [List.length_cons, List.length_nil] <;> omega

/-- The stored addresses that are targets are the targets that are stored. -/
theorem Sound.filter_isTarget (h : s.Sound) :
    s.addresses.filter s.isTarget = s.targetList.filter s.contains := by
  have : Std.Antisymm (α := Address) (· < ·) :=
    ⟨fun _ _ hab hba => absurd hba (UInt32.lt_asymm hab)⟩
  refine (h.ascending.filter _).eq_of_mem_iff (s.pairwise_targetList.filter _) fun a => ?_
  rw [List.mem_filter, List.mem_filter, mem_targetList, h.contains_iff, and_comm]

/-- A visit makes a call for each instruction, and one more for each target that is stored. -/
theorem Sound.length_visitCalls (h : s.Sound) :
    s.visitCalls.length = s.size + (s.targetList.filter s.contains).length := by
  rw [visitCalls_eq, events, length_eventsOf, length_toList]
  exact congrArg (s.size + ·.length) h.filter_isTarget

end Store

/-! ## Texts without line feeds -/

namespace Numeral

theorem newline_not_mem_upperHex (width n : Nat) : '\n' ∉ upperHex width n :=
  fun hfeed => absurd (mem_upperAlphabet hfeed) (by decide)

theorem newline_not_mem_lowerDigits {ds : List Nat} (h : ∀ d ∈ ds, d < 16) :
    '\n' ∉ ds.map lowerDigit := by
  have hdigit : ∀ d < 16, lowerDigit d ≠ '\n' := by decide
  rw [List.mem_map]
  rintro ⟨d, hd, hfeed⟩
  exact hdigit d (h d hd) hfeed

theorem newline_not_mem_decimal (n : Nat) : '\n' ∉ decimal n :=
  newline_not_mem_lowerDigits fun d hd => by
    have : d < 10 := lt_of_mem_digits (by omega) hd
    omega

theorem newline_not_mem_lowerHex (n : Nat) : '\n' ∉ lowerHex n :=
  newline_not_mem_lowerDigits fun _ => lt_of_mem_digits (by omega)

end Numeral

namespace Text

/-- No character is written with a line feed, a line feed neither. -/
theorem newline_not_mem_operandChar (c : Char) : '\n' ∉ operandChar c := by
  unfold operandChar
  split
  · decide
  split
  · decide
  split
  · decide
  rename_i hfeed
  split
  · simpa using Ne.symm hfeed
  split
  · simpa using Ne.symm hfeed
  · simp [codePointEscape, Numeral.newline_not_mem_lowerHex]

theorem unbroken_quoteOperand (s : String) : Unbroken (quoteOperand s) := by
  rw [quoteOperand, quote, unbroken_ofList]
  simp [newline_not_mem_operandChar]

end Text

namespace Render

open Store

theorem newline_not_mem_positionalText (layout : Decimal.Layout) {digits : List Char} (lead : Int)
    (h : '\n' ∉ digits) : '\n' ∉ layout.positionalText digits lead := by
  have htake : ∀ n, '\n' ∉ digits.take n := fun n hfeed => h (List.mem_of_mem_take hfeed)
  have hdrop : ∀ n, '\n' ∉ digits.drop n := fun n hfeed => h (List.mem_of_mem_drop hfeed)
  -- What is set out is made of digits, of zeros that fill them up and of the point.
  unfold Decimal.Layout.positionalText
  grind

/-- Numbers are always set out without an exponent here. -/
theorem newline_not_mem_finiteText (negative : Bool) (size : Decimal.Binary) :
    '\n' ∉ floatLayout.finiteText negative size := by
  have hpositional : ∀ lead, floatLayout.positional lead = true := fun _ => rfl
  unfold Decimal.Layout.finiteText
  simp only [hpositional, ↓reduceIte]
  have hsize : ∀ (n : Nat) (lead : Int), '\n' ∉ (if size.mantissa = 0 then
      floatLayout.positionalText ['0'] 0
      else floatLayout.positionalText (Numeral.decimal n) lead) := by
    intro n lead
    split
    · exact newline_not_mem_positionalText _ 0 (by decide)
    · exact newline_not_mem_positionalText _ lead (Numeral.newline_not_mem_decimal n)
  cases negative with
  | false => exact hsize _ _
  | true => exact List.not_mem_cons_of_ne_of_not_mem (by decide) (hsize _ _)

theorem unbroken_floatText (x : Float) : Unbroken (floatText x) := by
  unfold floatText
  cases Decimal.Reading.ofBits x.toBits with
  | finite negative size => exact unbroken_ofList.mpr (newline_not_mem_finiteText negative size)
  | infinite negative => cases negative <;> simp [Unbroken]
  | noNumber => simp [Unbroken]

theorem unbroken_integerText (n : Int) : Unbroken (integerText n) := by
  have hdigits : Unbroken (String.ofList (Numeral.decimal n.natAbs)) :=
    unbroken_ofList.mpr (Numeral.newline_not_mem_decimal n.natAbs)
  unfold integerText
  simp only
  split
  · exact Unbroken.append (by simp [Unbroken]) hdigits
  · exact hdigits

theorem unbroken_column (a : Address) : Unbroken a.column :=
  unbroken_ofList.mpr (Numeral.newline_not_mem_upperHex 8 a.toNat)

theorem unbroken_label {stem : String} (h : Unbroken stem) (a : Address) :
    Unbroken (Label.text ⟨stem, a⟩) :=
  (h.append (by simp [Unbroken])).append
    (unbroken_ofList.mpr (Numeral.newline_not_mem_upperHex 4 a.toNat))

theorem unbroken_referenceText {settings : Settings} (h : Unbroken settings.labelStem) (s : Store)
    (a : Address) : Unbroken (referenceText settings s a) := by
  unfold referenceText
  split
  · exact unbroken_label h a
  · exact Unbroken.append (by simp [Unbroken]) (unbroken_column a)

/-- Only a symbol can break its line. -/
theorem unbroken_operandText {settings : Settings} (h : Unbroken settings.labelStem) (s : Store)
    (o : Operand) (symbol : ∀ name, o = .symbol name → Unbroken name) :
    Unbroken (operandText settings s o) := by
  cases o with
  | symbol name => exact symbol name rfl
  | integer n => exact unbroken_integerText n.toNat
  | signed n => exact unbroken_integerText n.toInt
  | float x => exact unbroken_floatText x
  | text value => exact Text.unbroken_quoteOperand value
  | reference a => exact unbroken_referenceText h s a

theorem unbroken_separated {texts : List String} (h : ∀ text ∈ texts, Unbroken text) :
    ∀ text ∈ separated texts, Unbroken text := by
  cases texts with
  | nil => exact h
  | cons a as =>
    obtain ⟨ha, has⟩ := List.forall_mem_cons.mp h
    intro text htext
    rcases List.mem_cons.mp htext with rfl | htext
    · simp [Unbroken]
    rcases List.mem_cons.mp htext with rfl | htext
    · exact ha
    obtain ⟨b, hb, htext⟩ := List.mem_flatMap.mp htext
    rcases List.mem_pair.mp htext with rfl | rfl
    · simp [Unbroken]
    · exact has _ hb

/-! ## Lines -/

/-- All that is shown as it stands is free of line feeds. Quoted operands may hold any. -/
structure FeedFree (stem : String) (is : List Instruction) : Prop where
  stem : Unbroken stem
  opcode : ∀ i ∈ is, Unbroken i.opcode
  symbol : ∀ i ∈ is, ∀ name, .symbol name ∈ i.operands → Unbroken name
  comment : ∀ i ∈ is, ∀ text ∈ i.comment, Unbroken text

theorem FeedFree.mono {stem : String} {is js : List Instruction} (h : FeedFree stem is)
    (hsub : ∀ j ∈ js, j ∈ is) : FeedFree stem js where
  stem := h.stem
  opcode j hj := h.opcode j (hsub j hj)
  symbol j hj := h.symbol j (hsub j hj)
  comment j hj := h.comment j (hsub j hj)

/-- What the line of an instruction shows after its start: of the settings it knows the stem of
labels only. -/
def tailText (stem : String) (store : Store) (i : Instruction) : String :=
  String.join (bodyPieces { labelStem := stem } store i) ++ commentText i.comment

/-- The line of a call, without its line feed. -/
def lineText (settings : Settings) (store : Store) : Event → String
  | .label a => labelText settings a ++ ":"
  | .instruction i =>
    String.ofList (List.replicate settings.indent ' ') ++
      (if settings.showAddresses then i.address.column ++ "  " else "") ++
      tailText settings.labelStem store i

theorem eventText_eq_lineText (settings : Settings) (s : Store) (e : Event) :
    eventText settings s e = lineText settings s e ++ "\n" := by
  rw [eventText_eq, String.append_left_inj]
  cases e with
  | label a => simp [lineStem, lineText, labelText, commentText, Event.comment?]
  | instruction i =>
    have hbody : bodyPieces settings s i = bodyPieces { labelStem := settings.labelStem } s i := rfl
    have hstart : String.join (startPieces settings i) =
        String.ofList (List.replicate settings.indent ' ') ++
          (if settings.showAddresses then i.address.column ++ "  " else "") := by
      unfold startPieces
      split <;> simp
    rw [lineStem, String.join_append, hstart, hbody, String.append_assoc]
    rfl

theorem unbroken_tailText {stem : String} {is : List Instruction} (h : FeedFree stem is)
    (s : Store) {i : Instruction} (hi : i ∈ is) : Unbroken (tailText stem s i) := by
  have hargs : ∀ text ∈ argumentTexts { labelStem := stem } s i, Unbroken text := by
    intro text htext
    rcases List.mem_append.mp htext with htext | htext
    · obtain ⟨o, ho, rfl⟩ := List.mem_map.mp htext
      exact unbroken_operandText h.stem s o fun name hname => h.symbol i hi name (hname ▸ ho)
    · obtain ⟨a, _, rfl⟩ := List.mem_map.mp htext
      exact unbroken_referenceText h.stem s a
  refine Unbroken.append (unbroken_join ?_) ?_
  · exact List.forall_mem_cons.mpr ⟨h.opcode i hi, unbroken_separated hargs⟩
  · cases hcomment : i.comment with
    | none => simp [commentText, Unbroken]
    | some text => exact Unbroken.append (by simp [Unbroken]) (h.comment i hi text hcomment)

theorem unbroken_lineText {settings : Settings} {is : List Instruction}
    (h : FeedFree settings.labelStem is) (s : Store) {e : Event}
    (he : ∀ i ∈ e.instruction?, i ∈ is) : Unbroken (lineText settings s e) := by
  cases e with
  | label a => exact (unbroken_label h.stem a).append (by simp [Unbroken])
  | instruction i =>
    refine Unbroken.append (Unbroken.append ?_ ?_) (unbroken_tailText h s (he i rfl))
    · simp [Unbroken, List.mem_replicate]
    · split
      · exact (unbroken_column i.address).append (by simp [Unbroken])
      · simp [Unbroken]

/-- Lines that are each ended by a line feed are what is between the line feeds. -/
theorem splitOn_lines {lines : List String} (h : ∀ line ∈ lines, Unbroken line) :
    (String.join (lines.map (· ++ "\n"))).toList.splitOn '\n' =
      lines.map String.toList ++ [[]] := by
  induction lines with
  | nil => rfl
  | cons line lines ih =>
    obtain ⟨hline, hlines⟩ := List.forall_mem_cons.mp h
    have hfirst : (String.join ((line :: lines).map (· ++ "\n"))).toList =
        line.toList ++ '\n' :: (String.join (lines.map (· ++ "\n"))).toList := by
      simp
    rw [hfirst, List.splitOn_append_cons_self_of_not_mem hline, ih hlines]
    rfl

/-! ## Columns -/

/-- The address that a line shows in its column, which comes after the indentation. -/
def readColumn (settings : Settings) (line : List Char) : Option Nat :=
  Numeral.unsigned? 16 ((line.drop settings.indent).take 8)

/-- What is read from the lines that calls on instructions wrote. -/
def readColumns (settings : Settings) (calls : List Event) (lines : List (List Char)) :
    List (Option Nat) :=
  (calls.zip lines).filterMap fun call =>
    call.1.instruction?.map fun _ => readColumn settings call.2

theorem readColumn_lineText {settings : Settings} (shown : settings.showAddresses = true)
    (s : Store) (i : Instruction) :
    readColumn settings (lineText settings s (.instruction i)).toList = some i.address.toNat := by
  obtain ⟨hlength, -, hread⟩ := i.address.column_spec
  have hline : (lineText settings s (.instruction i)).toList =
      List.replicate settings.indent ' ' ++
        (i.address.column.toList ++ ("  " ++ tailText settings.labelStem s i).toList) := by
    simp [lineText, shown]
  rw [readColumn, hline, List.drop_left' List.length_replicate, List.take_left' hlength, hread]

theorem readColumns_lines {settings : Settings} (shown : settings.showAddresses = true)
    (s : Store) (calls : List Event) :
    readColumns settings calls
        (calls.map (fun e => (lineText settings s e).toList) ++ [[]]) =
      (calls.filterMap Event.instruction?).map fun i => some i.address.toNat := by
  induction calls with
  | nil => rfl
  | cons e calls ih =>
    cases e with
    | label a => exact ih
    | instruction i => exact congrArg₂ List.cons (readColumn_lineText shown s i) ih

/-! ## Visits line by line -/

/-- A text as the lines of the calls that wrote it, and the instructions that these hand over. -/
structure LineByLine (settings : Settings) (s : Store) (is : List Instruction)
    (calls : List Event) (text : String) : Prop where
  handed : calls.filterMap Event.instruction? = is
  rising : (is.map (·.address)).Pairwise (· < ·)
  /-- Each call writes its line and then a line feed, the only one. -/
  ended : ∀ e ∈ calls, Unbroken (lineText settings s e) ∧
    ((textWriter settings s).handle e).Writes (lineText settings s e ++ "\n").toUTF8
  /-- Between the line feeds are the lines of the calls, one for each; none is after the last. -/
  lines : text.toList.splitOn '\n' =
    calls.map (fun e => (lineText settings s e).toList) ++ [[]]
  /-- The columns read back as the addresses of the instructions. -/
  columns : settings.showAddresses = true →
    readColumns settings calls (text.toList.splitOn '\n') = is.map fun i => some i.address.toNat

/-- The text of some calls. -/
def callsText (settings : Settings) (s : Store) (calls : List Event) : String :=
  String.join (calls.map (eventText settings s))

theorem lineByLine_eventsOf {settings : Settings} {s : Store} {is : List Instruction}
    (free : FeedFree settings.labelStem is) (rising : (is.map (·.address)).Pairwise (· < ·)) :
    LineByLine settings s is (s.eventsOf is) (callsText settings s (s.eventsOf is)) := by
  have hunbroken : ∀ e ∈ s.eventsOf is, Unbroken (lineText settings s e) := by
    intro e he
    refine unbroken_lineText free s fun i hi => ?_
    rw [← instructions_eventsOf s is]
    exact List.mem_filterMap.mpr ⟨e, he, hi⟩
  have hsplit : (callsText settings s (s.eventsOf is)).toList.splitOn '\n' =
      (s.eventsOf is).map (fun e => (lineText settings s e).toList) ++ [[]] := by
    have hlines := splitOn_lines (List.forall_mem_map.mpr hunbroken)
    rw [List.map_map, List.map_map] at hlines
    rw [callsText, funext (eventText_eq_lineText settings s)]
    exact hlines
  refine ⟨instructions_eventsOf s is, rising, fun e he => ⟨hunbroken e he, ?_⟩, hsplit, ?_⟩
  · rw [← eventText_eq_lineText]
    exact writes_event settings s e
  · intro shown
    rw [hsplit, readColumns_lines shown, instructions_eventsOf]

/-- **Each call writes one line.** If the stem of labels and all opcodes, symbols and comments of a
store are free of line feeds, a visit writes a line and a line feed for each of its calls, so its
text has a line for each instruction and one more for each target that is stored. So does the visit
of a range that starts at a stored address. Where addresses are shown, the lines of instructions
show them in eight digits each, and what is read there are the addresses of the visit, which
rise. -/
theorem visit_lineByLine (os : List Offer) (settings : Settings)
    (free : FeedFree settings.labelStem (empty.run os).toList) :
    let s := empty.run os
    (∃ text, wholeBytes settings s = text.toUTF8 ∧
      LineByLine settings s s.toList s.visitCalls text) ∧
    s.visitCalls.length = s.size + (s.targetList.filter s.contains).length ∧
    (∀ start stop, s.contains start = true → ∃ is calls text,
      s.slice start stop = .ok is ∧ s.rangeCalls start stop = .ok calls ∧
      rangeBytes settings s (start, stop) = .ok text.toUTF8 ∧
      LineByLine settings s is calls text) ∧
    ∀ a : Address, a.column.toList.length = 8 ∧
      (∀ d ∈ a.column.toList, d ∈ Numeral.upperAlphabet) ∧
      Numeral.unsigned? 16 a.column.toList = some a.toNat := by
  intro s
  have h : s.Sound := sound_run os
  refine ⟨⟨callsText settings s s.visitCalls, wholeBytes_eq_calls settings s, ?_⟩,
    h.length_visitCalls, fun start stop hs => ?_, Address.column_spec⟩
  · rw [visitCalls_eq]
    exact lineByLine_eventsOf free h.ascending
  · have hcalls := rangeCalls_eq s start stop
    rw [h.slice_eq_between hs] at hcalls
    have hfree : FeedFree settings.labelStem (s.between start stop) :=
      free.mono fun i hi => (mem_between.mp hi).1
    exact ⟨_, _, _, h.slice_eq_between hs stop, hcalls, rangeBytes_eq settings h hs stop,
      lineByLine_eventsOf hfree (h.rising_between start stop)⟩

/-- A quoted operand of many lines, a label before an indented line, and comments. -/
theorem visit_lineByLine_quoted :
    let settings : Settings := ⟨"L", true, 2, .text⟩
    let s := empty.run
      [⟨⟨0x10, "say", [.text "a\nb\r\n", .symbol "%x", .float 1.5], .plain, none⟩, ["one line"]⟩,
        ⟨⟨0x14, "jmp", [.signed (-3), .reference 0x99], .branch 0x10, some ""⟩, []⟩]
    FeedFree settings.labelStem s.toList ∧ s.visitCalls.length = 3 ∧
      ∃ text, wholeBytes settings s = text.toUTF8 ∧
        LineByLine settings s s.toList s.visitCalls text := by
  intro settings s
  have hlist : s.toList =
      [⟨0x10, "say", [.text "a\nb\r\n", .symbol "%x", .float 1.5], .plain, some "one line"⟩,
        ⟨0x14, "jmp", [.signed (-3), .reference 0x99], .branch 0x10, some ""⟩] := rfl
  have free : FeedFree settings.labelStem s.toList := by
    rw [hlist]
    constructor <;> simp [settings, Unbroken]
  obtain ⟨hwhole, hcount, -⟩ := visit_lineByLine _ settings free
  exact ⟨free, hcount.trans (by decide), hwhole⟩

end Render

end Bytecode
