/-
  Sets of characters, as closed ranges of code points in ascending order.
-/
namespace GreenVm

/-- Whether a code point is in one of some ascending ranges. -/
def inRanges (code : Nat) : List (Nat × Nat) → Bool
  | [] => false
  | (first, last) :: rest => first ≤ code && (code ≤ last || inRanges code rest)

end GreenVm
