import Bytecode.Render.Text

/-!
# The list of branches

One line for each branch, in the order in which they appear, with its destination: a label if the
destination is stored, its number if not. Destinations outside the store are warned about.
-/

namespace Bytecode.Render

/-- Where a branch goes. That the address is a target is known here. -/
def destinationText (settings : Settings) (store : Store) (a : Address) : String :=
  if store.contains a then Label.text ⟨settings.labelStem, a⟩ else a.raw

def branchLine (settings : Settings) (store : Store) (i : Instruction) : String :=
  match i.target? with
  | some t =>
    i.address.column ++ "  " ++ i.opcode ++ " -> " ++ destinationText settings store t ++ "\n"
  | none => ""

def branchesText (settings : Settings) (store : Store) : String :=
  String.join (store.branches.map (branchLine settings store))

/-- The targets that are not stored, lowest first. -/
def strayTargets (store : Store) : List Address :=
  store.targetList.filter fun t => !store.contains t

end Bytecode.Render
