import Bytecode.Proofs.Render.Labels
import Bytecode.Proofs.Render.Comments
import Bytecode.Render.Branches

/-!
# Where branches are said to go

Two texts say where a branch goes. In the list of branches its destination is a label if it is
stored; in the assembly text it is one if it is stored and a target. Both come to the same, for a
destination is always a target in a store that keeps its invariant (`Sound.isTarget_of_branch`).

* `lineStem_branch`: in the assembly text the destination comes after all operands;
* `destinations_agree`: the list of branches, told in terms of the assembly text;
* `targetList_eq_mergeSort`: in whatever order the targets are at hand, sorting them lists them;
* `Strays`: what is outside of the store, which is what the list shows by number.
-/

namespace Bytecode

namespace Store

variable {s : Store}

theorem Sound.mem_branches_iff (h : s.Sound) (b : Instruction) :
    b ∈ s.branches ↔ b ∈ s.toList ∧ b.isBranch = true := by
  rw [h.branches_eq_filter, List.mem_filter]

theorem Sound.rising_branches (h : s.Sound) : (s.branches.map (·.address)).Pairwise (· < ·) := by
  rw [h.branches_eq_filter]
  exact h.ascending.sublist (List.filter_sublist.map _)

theorem Sound.isTarget_of_branch (h : s.Sound) {b : Instruction} (hb : b ∈ s.branches)
    {t : Address} (ht : b.target? = some t) : s.isTarget t = true :=
  (h.targets t).mpr ⟨b, ((h.mem_branches_iff b).mp hb).1, ht⟩

/-- However the targets are listed, each once, sorting them gives the list of targets. -/
theorem targetList_eq_mergeSort (s : Store) {order : List Address} (nodup : order.Nodup)
    (mem : ∀ a, a ∈ order ↔ s.isTarget a = true) :
    s.targetList = order.mergeSort fun a b => decide (a ≤ b) := by
  have hperm : s.targetList.Perm order := by
    have hnodup : s.targetList.Nodup := s.pairwise_targetList.imp fun h => UInt32.ne_of_lt h
    refine (List.perm_ext_iff_of_nodup hnodup nodup).mpr fun a => ?_
    rw [mem_targetList, mem]
  have hsorted : (order.mergeSort fun a b => decide (a ≤ b)).Pairwise fun a b => a ≤ b := by
    refine (List.pairwise_mergeSort (fun a b c hab hbc => ?_) (fun a b => ?_) order).imp
      of_decide_eq_true
    · exact decide_eq_true (UInt32.le_trans (of_decide_eq_true hab) (of_decide_eq_true hbc))
    · rw [Bool.or_eq_true, decide_eq_true_eq, decide_eq_true_eq]
      exact UInt32.le_total a b
  refine List.Perm.eq_of_pairwise (fun a b _ _ => UInt32.le_antisymm)
    (s.pairwise_targetList.imp UInt32.le_of_lt) hsorted ?_
  exact hperm.trans (List.mergeSort_perm order _).symm

theorem Sound.exists_target (h : s.Sound) {b : Instruction} (hb : b ∈ s.branches) :
    ∃ t, b.target? = some t :=
  Option.isSome_iff_exists.mp ((h.mem_branches_iff b).mp hb).2

end Store

namespace Render

open Store

variable {s : Store}

/-! ## The destination in both texts -/

theorem destinationText_eq (settings : Settings) (h : s.Sound) {b : Instruction}
    (hb : b ∈ s.branches) {t : Address} (ht : b.target? = some t) :
    destinationText settings s t = referenceText settings s t := by
  rw [destinationText, referenceText, h.isTarget_of_branch hb ht, Bool.and_true]

theorem getLast?_argumentTexts (settings : Settings) (s : Store) {b : Instruction} {t : Address}
    (ht : b.target? = some t) :
    (argumentTexts settings s b).getLast? = some (referenceText settings s t) := by
  rw [argumentTexts, ht]
  exact List.getLast?_concat

/-- The last argument comes after a comma, or after a space if it is the only one. -/
theorem join_separated_concat (as : List String) (a : String) :
    String.join (separated (as ++ [a])) =
      String.join (separated as) ++ (if as = [] then " " else ", ") ++ a := by
  cases as with
  | nil => simp [separated]
  | cons b as => simp [separated, String.join_append, String.append_assoc]

/-- The line of a branch goes on with its target where the line without a target ends. -/
theorem lineStem_branch (settings : Settings) (s : Store) {b : Instruction} {t : Address}
    (ht : b.target? = some t) :
    lineStem settings s (.instruction b) =
      lineStem settings s (.instruction { b with kind := .plain }) ++
        (if b.operands = [] then " " else ", ") ++ referenceText settings s t := by
  have hplain : argumentTexts settings s { b with kind := .plain } =
      b.operands.map (operandText settings s) :=
    List.append_nil _
  have hargs : argumentTexts settings s b =
      b.operands.map (operandText settings s) ++ [referenceText settings s t] := by
    rw [argumentTexts, ht]
    rfl
  have hstart : startPieces settings { b with kind := .plain } = startPieces settings b := rfl
  simp only [lineStem, bodyPieces, hplain, hargs, hstart, String.join_append, String.join_cons,
    join_separated_concat, List.map_eq_nil_iff, String.append_assoc]

theorem branchLine_eq (settings : Settings) (s : Store) {b : Instruction} {t : Address}
    (ht : b.target? = some t) :
    branchLine settings s b =
      b.address.column ++ "  " ++ b.opcode ++ " -> " ++ destinationText settings s t ++ "\n" := by
  rw [branchLine, ht]

/-- **Both texts say the same of a branch.** The list of branches has one line for each stored
branch, in the order of addresses: its address in eight digits, its opcode and its destination. The
destination is the last argument that the assembly text shows for the branch: it stands there after
the operands, right before the comment. -/
theorem destinations_agree (os : List Offer) (settings : Settings) :
    let s := empty.run os
    (s.branches = s.toList.filter Instruction.isBranch ∧
      (s.branches.map (·.address)).Pairwise (· < ·)) ∧
    branchesText settings s = String.join (s.branches.map fun b =>
      b.address.column ++ "  " ++ b.opcode ++ " -> " ++
        (argumentTexts settings s b).getLast?.getD "" ++ "\n") ∧
    (∀ b ∈ s.branches, ∃ t, b.target? = some t ∧
      (argumentTexts settings s b).getLast? = some (destinationText settings s t) ∧
      ((textWriter settings s).instruction b).Writes
        (lineStem settings s (.instruction { b with kind := .plain }) ++
          (if b.operands = [] then " " else ", ") ++ destinationText settings s t ++
          commentText b.comment ++ "\n").toUTF8) ∧
    ∀ a : Address, a.column.toList.length = 8 ∧
      (∀ d ∈ a.column.toList, d ∈ Numeral.upperAlphabet) ∧
      Numeral.unsigned? 16 a.column.toList = some a.toNat := by
  intro s
  have h : s.Sound := sound_run os
  refine ⟨⟨h.branches_eq_filter, h.rising_branches⟩, ?_, fun b hb => ?_, Address.column_spec⟩
  · rw [branchesText]
    congr 1
    refine List.map_congr_left fun b hb => ?_
    obtain ⟨t, ht⟩ := h.exists_target hb
    rw [branchLine_eq settings s ht, getLast?_argumentTexts settings s ht,
      destinationText_eq settings h hb ht, Option.getD_some]
  · obtain ⟨t, ht⟩ := h.exists_target hb
    have hline := writes_event settings s (.instruction b)
    rw [eventText_eq, lineStem_branch settings s ht, ← destinationText_eq settings h hb ht] at hline
    refine ⟨t, ht, ?_, hline⟩
    rw [getLast?_argumentTexts settings s ht, destinationText_eq settings h hb ht]

/-! ## Destinations outside of the store -/

/-- These are the destinations outside of the store, lowest first. -/
structure Strays (settings : Settings) (s : Store) (strays : List Address) : Prop where
  rising : strays.Pairwise (· < ·)
  /-- Some branch goes there, and no instruction is there. -/
  mem_iff : ∀ a, a ∈ strays ↔
    (∃ b ∈ s.toList, b.target? = some a) ∧ ∀ i ∈ s.toList, i.address ≠ a
  /-- The list of branches that is written has one line for each branch, in order. -/
  written : (Output.write (branchesText settings s)).Writes
    (String.join (s.branches.map (branchLine settings s))).toUTF8
  /-- Such a line ends with the destination. -/
  lines : ∀ b ∈ s.branches, ∃ t, b.target? = some t ∧ branchLine settings s b =
    b.address.column ++ "  " ++ b.opcode ++ " -> " ++ destinationText settings s t ++ "\n"
  /-- Some line of the list shows the address by number. -/
  shown_iff : ∀ a, a ∈ strays ↔ ∃ b ∈ s.branches, branchLine settings s b =
    b.address.column ++ "  " ++ b.opcode ++ " -> " ++ a.raw ++ "\n"
  /-- They come from the set of targets, in whatever order it is listed, sorted and filtered. -/
  sorted : ∀ order : List Address, order.Nodup →
    (∀ a, a ∈ order ↔ ∃ b ∈ s.toList, b.target? = some a) →
    strays = (order.mergeSort fun a b => decide (a ≤ b)).filter fun a => !s.contains a

theorem mem_strayTargets_iff (h : s.Sound) (a : Address) :
    a ∈ strayTargets s ↔ (∃ b ∈ s.toList, b.target? = some a) ∧ s.contains a = false := by
  rw [strayTargets, List.mem_filter, mem_targetList, h.targets, Bool.not_eq_true']

/-- A destination is shown by number exactly if it is not stored. -/
theorem destinationText_eq_raw_iff (settings : Settings) (s : Store) (t a : Address) :
    destinationText settings s t = a.raw ↔ t = a ∧ s.contains a = false := by
  unfold destinationText
  cases hc : s.contains t with
  | true =>
    rw [if_pos rfl]
    constructor
    · intro h
      exact absurd h (Label.text_ne_raw _ a)
    · rintro ⟨rfl, ha⟩
      rw [hc] at ha
      cases ha
  | false =>
    rw [if_neg Bool.false_ne_true]
    constructor
    · intro h
      obtain rfl := Address.raw_inj h
      exact ⟨rfl, hc⟩
    · rintro ⟨rfl, _⟩
      rfl

/-- What lies outside of the store is what some line of the list shows by number. -/
theorem mem_strayTargets_iff_raw (settings : Settings) (h : s.Sound) (a : Address) :
    a ∈ strayTargets s ↔ ∃ b ∈ s.branches, branchLine settings s b =
      b.address.column ++ "  " ++ b.opcode ++ " -> " ++ a.raw ++ "\n" := by
  have hline : ∀ b ∈ s.branches, branchLine settings s b =
        b.address.column ++ "  " ++ b.opcode ++ " -> " ++ a.raw ++ "\n" ↔
      b.target? = some a ∧ s.contains a = false := by
    intro b hb
    obtain ⟨t, ht⟩ := h.exists_target hb
    rw [branchLine_eq settings s ht, String.append_left_inj, String.append_right_inj,
      destinationText_eq_raw_iff, ht, Option.some.injEq]
  rw [mem_strayTargets_iff h]
  constructor
  · rintro ⟨⟨b, hb, ht⟩, ha⟩
    have hbranch : b ∈ s.branches :=
      (h.mem_branches_iff b).mpr ⟨hb, Option.isSome_of_mem ht⟩
    exact ⟨b, hbranch, (hline b hbranch).mpr ⟨ht, ha⟩⟩
  · rintro ⟨b, hb, hshown⟩
    obtain ⟨ht, ha⟩ := (hline b hb).mp hshown
    exact ⟨⟨b, ((h.mem_branches_iff b).mp hb).1, ht⟩, ha⟩

theorem strays_strayTargets (settings : Settings) (h : s.Sound) :
    Strays settings s (strayTargets s) where
  rising := s.pairwise_targetList.filter _
  mem_iff a := by
    rw [mem_strayTargets_iff h, ← Bool.not_eq_true, h.contains_iff, addresses, List.mem_map]
    simp only [not_exists, not_and, ne_eq]
  written := Output.writes_write _
  lines b hb := by
    obtain ⟨t, ht⟩ := h.exists_target hb
    exact ⟨t, ht, branchLine_eq settings s ht⟩
  shown_iff := mem_strayTargets_iff_raw settings h
  sorted order nodup mem := by
    rw [strayTargets, s.targetList_eq_mergeSort nodup fun a => (mem a).trans (h.targets a).symm]

end Render

end Bytecode
