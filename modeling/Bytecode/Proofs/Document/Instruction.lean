import Bytecode.Document.Instruction
import Bytecode.Proofs.Document.Grammar
import Bytecode.Proofs.Json.Written

/-!
# Written instructions are in the grammar

The record that is written for an instruction without doubles is a text of the entry that says what
the instruction says (`Instruction.spells_toValue`). The members say the kind twice, by its name and
by the target; the name is a member that no entry has, a target stands only for a branch, and a
comment only where there is one. The entry gives the instruction again
(`Entry.instruction_ofInstruction`).
-/

namespace Bytecode

open Json

/-! ## Operands -/

namespace Operand

/-- Whether the operand is a double. -/
def isFloat : Operand → Bool
  | .float _ => true
  | _ => false

/-- What is written for what an operand holds is a text of it. -/
theorem spells_contentValue {op : Operand} (h : op.isFloat = false) :
    op.contentValue.Spells op.ContentText := by
  cases op with
  | symbol name => exact Value.spells_string name
  | integer n => exact Value.spells_integer n.toNat
  | signed n => exact Value.spells_integer n.toInt
  | float x => cases h
  | text s => exact Value.spells_string s
  | reference a => exact Value.spells_integer a.toNat

theorem spells_toValue {op : Operand} (h : op.isFloat = false) : op.toValue.Spells op.Spelled := by
  intro style hstyle depth
  exact ⟨_, spells_contentValue h style hstyle (depth + 1),
    objectText_write hstyle depth [(op.kindName, op.contentValue)]⟩

end Operand

/-! ## Instructions -/

/-- The entry that says what an instruction says. -/
def Entry.ofInstruction (i : Instruction) : Entry :=
  ⟨i.address, i.opcode, i.operands, i.target?, i.comment⟩

theorem Entry.instruction_ofInstruction (i : Instruction) :
    (Entry.ofInstruction i).instruction = i := by
  rcases i with ⟨address, opcode, operands, kind, comment⟩
  cases kind <;> rfl

namespace Instruction

/-- The members that are written for an instruction. -/
def members (i : Instruction) : List (String × Value) :=
  [("address", .ofWord i.address), ("opcode", .string i.opcode),
    ("operands", .list (i.operands.map Operand.toValue))] ++
  kindMembers i.kind ++ commentMembers i.comment

/-- What these members say of an entry. -/
def draft (i : Instruction) : Entry.Draft :=
  ⟨some i.address, some i.opcode, some i.operands, i.target?.map some, i.comment.map some⟩

theorem given_draft (i : Instruction) : (Entry.ofInstruction i).Given i.draft := by
  rcases i with ⟨address, opcode, operands, kind, comment⟩
  refine ⟨rfl, rfl, Or.inl rfl, ?_, ?_⟩
  · cases kind with
    | plain => exact Or.inr ⟨rfl, rfl⟩
    | branch t => exact Or.inl rfl
  · cases comment with
    | none => exact Or.inr ⟨rfl, rfl⟩
    | some text => exact Or.inl rfl

theorem spells_operands {ops : List Operand} (h : ∀ op ∈ ops, op.isFloat = false) :
    (Value.list (ops.map Operand.toValue)).Spells (ListText Operand.Spelled ops) := by
  refine Value.spells_list ?_
  rw [List.forall₂_map_right_iff]
  exact List.forall₂_same.mpr fun op hop => Operand.spells_toValue (h op hop)

/-- The members say what the draft holds. The name of the kind is the only other one. -/
theorem says_members {i : Instruction} (h : ∀ op ∈ i.operands, op.isFloat = false) :
    Says Entry.slots i.draft i.members := by
  have haddress := Value.spells_integer i.address.toNat
  have hopcode := Value.spells_string i.opcode
  have hoperands := spells_operands h
  rcases i with ⟨address, opcode, operands, kind, comment⟩
  constructor
  · cases kind <;> cases comment <;>
      simp [Entry.slots, valuesOf, members, draft, kindMembers, commentMembers, target?,
        Kind.target?]
    case plain.none => exact ⟨haddress, hopcode, hoperands⟩
    case plain.some text => exact ⟨haddress, hopcode, hoperands, Value.spells_string text⟩
    case branch.none t => exact ⟨haddress, hopcode, hoperands, Value.spells_integer t.toNat⟩
    case branch.some t text =>
      exact ⟨haddress, hopcode, hoperands, Value.spells_integer t.toNat, Value.spells_string text⟩
  · cases kind <;> cases comment <;>
      simp [Entry.slots, members, kindMembers, commentMembers,
        Value.wellFormed_string]

/-- **An instruction without doubles is written as a text of its entry.** -/
theorem spells_toValue {i : Instruction} (h : ∀ op ∈ i.operands, op.isFloat = false) :
    i.toValue.Spells (Entry.Spelled (.ofInstruction i)) := fun style hstyle depth =>
  ⟨i.draft, i.given_draft, (says_members h).spells style hstyle depth⟩

end Instruction

end Bytecode
