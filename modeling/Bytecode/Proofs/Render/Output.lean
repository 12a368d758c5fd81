import Bytecode.Proofs.Sequencing
import Bytecode.Sink

/-!
# What a computation writes

`Writes out bytes` says that `out` does to every sink what one write of `bytes` would do.
Computations that are run one after the other write their bytes one after the other
(`Writes.seq`), wherever a sink fills up, so the pieces in which a text is written do not matter
(`writes_writeAll`). As a computation that also makes its texts it does the same
(`run_printing`).
-/

namespace Bytecode

/-- What becomes of a sink to which bytes are written, and whether it took them all. -/
def Sink.receive (sink : Sink) (bytes : ByteArray) : Except SinkFull Unit × Sink :=
  match sink.room with
  | none => (.ok (), { sink with taken := sink.taken ++ bytes })
  | some room =>
    if bytes.size ≤ room then
      (.ok (), { taken := sink.taken ++ bytes, room := some (room - bytes.size) })
    else (.error .full, { taken := sink.taken ++ bytes.extract 0 room, room := some 0 })

/-- Receiving bytes in two parts; the second part is not offered to a sink that is full. -/
theorem Sink.receive_append (sink : Sink) (first second : ByteArray) :
    sink.receive (first ++ second) =
      match sink.receive first with
      | (.ok (), next) => next.receive second
      | (.error e, next) => (.error e, next) := by
  rcases sink with ⟨taken, none | room⟩
  · simp [Sink.receive, ByteArray.append_assoc]
  · by_cases hfirst : first.size ≤ room
    · by_cases hsecond : second.size ≤ room - first.size
      · have hall : (first ++ second).size ≤ room := by rw [ByteArray.size_append]; omega
        simp only [Sink.receive, hfirst, hsecond, hall, ↓reduceIte, ByteArray.append_assoc]
        rw [ByteArray.size_append, Nat.sub_sub]
      · have hall : ¬ (first ++ second).size ≤ room := by rw [ByteArray.size_append]; omega
        have hfits : first.extract 0 room = first :=
          ByteArray.ext (by rw [ByteArray.data_extract]; exact Array.extract_eq_self_of_le hfirst)
        simp only [Sink.receive, hfirst, hsecond, hall, ↓reduceIte, ByteArray.extract_append, hfits,
          ByteArray.append_assoc, Nat.zero_sub]
    · have hall : ¬ (first ++ second).size ≤ room := by rw [ByteArray.size_append]; omega
      have hrest : room - first.size = 0 := by omega
      simp only [Sink.receive, hfirst, hall, ↓reduceIte, ByteArray.extract_append, hrest]
      simp

namespace Output

def Writes (out : Output Unit) (bytes : ByteArray) : Prop :=
  ∀ sink, (ExceptT.run out).run sink = sink.receive bytes

theorem writes_pure : Writes (pure ()) ByteArray.empty := by
  intro sink
  rcases sink with ⟨taken, none | room⟩ <;> simp [Sink.receive] <;> rfl

theorem writes_write (text : String) : (write text).Writes text.toUTF8 := by
  intro sink
  rcases sink with ⟨taken, none | room⟩
  · rfl
  · unfold write
    change (ExceptT.run (if text.toUTF8.size ≤ room then _ else _ : Output Unit)).run _ = _
    by_cases h : text.toUTF8.size ≤ room
    · simp only [Sink.receive, if_pos h]
      rfl
    · simp only [Sink.receive, if_neg h]
      rfl

theorem Writes.seq {a b : Output Unit} {first second : ByteArray} (ha : a.Writes first)
    (hb : b.Writes second) : Writes (do a; b) (first ++ second) := by
  intro sink
  rw [run_bind, ha, Sink.receive_append]
  rcases sink.receive first with ⟨e | ⟨⟩, next⟩
  · rfl
  · exact hb next

theorem writes_writeAll (texts : List String) :
    (writeAll texts).Writes (String.join texts).toUTF8 := by
  induction texts with
  | nil => exact writes_pure
  | cons text texts ih =>
    rw [String.join_cons, String.toUTF8_eq_toByteArray, String.toByteArray_append]
    exact (writes_write text).seq ih

/-- An endless sink takes all that is written. -/
theorem Writes.run_none {out : Output Unit} {bytes : ByteArray} (h : out.Writes bytes) :
    out.run none = (bytes, .ok ()) := by
  unfold Output.run
  rw [h]
  simp [Sink.receive]

/-! ## Texts that are at hand -/

theorem apply_printing (out : Output Unit) (sink : Sink) :
    (ExceptT.run out.printing).run sink =
      (((ExceptT.run out).run sink).1.mapError fun _ => .full, ((ExceptT.run out).run sink).2) :=
  rfl

/-- Nothing is made, so nothing but a full sink ends the computation. -/
theorem run_printing (out : Output Unit) (room : Option Nat) :
    out.printing.run room = ((out.run room).1, (out.run room).2.mapError fun _ => .full) :=
  rfl

theorem printing_seq (a b : Output Unit) :
    Output.printing (do a; b) = (do a.printing; b.printing) := by
  funext sink
  change (ExceptT.run (Output.printing _)).run sink =
    (ExceptT.run (a.printing >>= fun _ => b.printing)).run sink
  rw [apply_printing, run_bind, run_bind, apply_printing]
  rcases (ExceptT.run a).run sink with ⟨e | ⟨⟩, next⟩
  · rfl
  · exact (apply_printing b next).symm

end Output

end Bytecode
