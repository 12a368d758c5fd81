/-!
# Similar words

The Jaro-Winkler similarity of two words: how many characters they share at about the same places,
how many of those are out of order, and a bonus for a common start of any length.
-/

namespace Bytecode.Command

/-- What is known while the characters of the first word are matched. -/
structure Matching where
  /-- Whether each character of the second word is matched already. -/
  used : List Bool
  shared : Nat := 0
  swapped : Nat := 0
  /-- Where the latest match is in the second word. -/
  latest : Nat := 0

/-- The first free place of `c` from `low` to `high`. -/
def freePlace? (c : Char) (low high : Nat) (word : List Char) (used : List Bool) : Option Nat :=
  ((word.zip used).zipIdx.find? fun ((d, taken), place) =>
    low ≤ place && place ≤ high && c = d && !taken).map (·.2)

/-- Matches one character of the first word with one at most `reach` places away. -/
def Matching.step (word : List Char) (reach : Nat) (m : Matching) (c : Char × Nat) : Matching :=
  match freePlace? c.1 (c.2 - reach) (c.2 + reach) word m.used with
  | none => m
  | some place =>
    { used := m.used.set place true
      shared := m.shared + 1
      swapped := if place < m.latest then m.swapped + 1 else m.swapped
      latest := place }

def jaro (a b : List Char) : Float :=
  if a = b then 1
  else if a = [] ∨ b = [] ∨ (a.length = 1 ∧ b.length = 1) then 0
  else
    let reach := max a.length b.length / 2 - 1
    let m := a.zipIdx.foldl (Matching.step b reach) { used := b.map fun _ => false }
    if m.shared = 0 then 0
    else
      let shared := Float.ofNat m.shared
      (1.0 / 3.0) * (shared / Float.ofNat a.length + shared / Float.ofNat b.length +
        (shared - Float.ofNat m.swapped) / shared)

def jaroWinkler (a b : List Char) : Float :=
  let base := jaro a b
  let common := ((a.zip b).takeWhile fun (c, d) => c = d).length
  let similarity := base + 0.1 * Float.ofNat common * (1.0 - base)
  if similarity ≤ 1.0 then similarity else 1.0

/-- Whether a word is close enough to another one to be a slip. -/
def resembles (a b : String) : Bool := 0.8 < jaroWinkler a.toList b.toList

end Bytecode.Command
