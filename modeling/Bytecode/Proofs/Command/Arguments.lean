import Bytecode.Command.Arguments
import Bytecode.Proofs.Sequencing

/-!
# Command lines that are let through

What a request is sure of because its command line was checked: an end of a range comes with a
start (`start_of_stop`).
-/

namespace Bytecode.Command

/-- A level that is in order has every option in order. -/
theorem Level.checkKey_of_check {level : Level} {g : Given} (h : level.check g = .ok ())
    {name : String} {key : Key} (hkey : (name, key) ∈ level.keys) : checkKey g key = .ok () := by
  have hkeys : (level.keys.forM fun k => checkKey g k.2) = .ok () := by
    unfold Level.check at h
    dsimp only at h
    split at h
    · cases h
    -- A last use without a value may still be in order, if an earlier one has a value.
    · split at h
      · split at h
        · cases h
        · exact (ok_of_bind h).elim fun _ hk => hk.1
      · exact (ok_of_bind h).elim fun _ hk => hk.1
  exact ok_of_forM hkeys _ hkey

theorem Given.count_of_value? {g : Given} {key : Key} (h : (g.value? key).isSome) :
    g.count key ≠ 0 := by
  unfold Given.value? at h
  rw [List.isSome_head?, ne_eq, List.filterMap_eq_nil_iff] at h
  unfold Given.count
  intro hnone
  refine h fun u hu => ?_
  rw [List.filter_reverse, List.mem_reverse, List.length_eq_zero_iff.mp hnone] at hu
  exact absurd hu List.not_mem_nil

theorem value?_of_checkKey {g : Given} {key : Key} (h : checkKey g key = .ok ())
    (used : g.count key ≠ 0) : (g.value? key).isSome := by
  unfold checkKey at h
  rw [if_neg used] at h
  split at h
  · cases h
  · rename_i hsome
    exact Option.isSome_iff_ne_none.mpr (by simpa using hsome)

theorem start_of_checkKey_stop {g : Given} (h : checkKey g .stop = .ok ())
    (used : g.count .stop ≠ 0) : g.count .start ≠ 0 := by
  unfold checkKey at h
  rw [if_neg used] at h
  intro hnone
  split at h
  · cases h
  · rw [if_pos ⟨rfl, hnone⟩] at h
    cases h

/-- A request to show a range up to an end has a start of the range. -/
theorem Request.start_of_stop {args : List String} {r : Request}
    (parsed : Request.ofArguments args = .ok r) (verb : r.verb = .disassemble)
    (stop : r.stop.isSome) : r.start.isSome := by
  unfold Request.ofArguments at parsed
  obtain ⟨⟨top, rest⟩, _, parsed⟩ := ok_of_bind parsed
  cases rest with
  | none => cases parsed
  | some rest =>
    obtain ⟨⟨sub, _⟩, _, parsed⟩ := ok_of_bind parsed
    obtain ⟨⟨⟩, hcheck, parsed⟩ := ok_of_bind parsed
    obtain ⟨⟨⟩, _, parsed⟩ := ok_of_bind parsed
    obtain rfl := Except.ok.inj parsed
    simp only at verb stop ⊢
    rw [verb] at hcheck
    have hstop : checkKey sub .stop = .ok () :=
      Level.checkKey_of_check hcheck (by decide : ("to", Key.stop) ∈ _)
    have hstart : checkKey sub .start = .ok () :=
      Level.checkKey_of_check hcheck (by decide : ("from", Key.start) ∈ _)
    exact value?_of_checkKey hstart (start_of_checkKey_stop hstop (Given.count_of_value? stop))

end Bytecode.Command
