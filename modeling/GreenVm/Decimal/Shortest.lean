/-
  The shortest decimal that reads back as a given binary floating-point number.

  A number `m · 2^e` is what any decimal strictly between its halfway points to the neighbouring
  numbers reads as, and the halfway points themselves if `m` is even.  `shortest` looks for a
  decimal with one digit, then two, and so on, among the two points of that decimal grid next to the
  number; of two that read back it takes the nearer, and the upper one if they are equally near.
-/
import GreenVm.Number.Format

namespace GreenVm

/-- `coefficient · 10^exponent`. -/
structure Decimal where
  coefficient : Nat
  exponent : Int
  deriving DecidableEq, Repr, Inhabited

namespace Decimal

/-- The digits of the coefficient. -/
def digits (d : Decimal) : List Char := Nat.toDigits 10 d.coefficient

/-- A positive number with the distances to its halfway points, all in units of `2^e`. -/
structure Target where
  m : Nat
  below : Nat
  above : Nat
  e : Int
  /-- Whether the halfway points read back too. -/
  closed : Bool

/-- The target for `m · 2^e`, in quarters of the last place.  Below the least number of a binade
    the neighbour is half as far. -/
def Target.ofFinite (f : FloatFormat) (m : Nat) (e : Int) : Target :=
  { m := 4 * m, below := if m = Nat.pow 2 f.fractionBits then 1 else 2, above := 2, e := e - 2,
    closed := m % 2 = 0 }

/-- `10^k` in units of `2^e`, as a fraction. -/
def gridStep (k e : Int) : Nat × Nat :=
  (Nat.pow 10 k.toNat * Nat.pow 2 (-e).toNat, Nat.pow 10 (-k).toNat * Nat.pow 2 e.toNat)

/-- The multiple of `10^k` that reads back as the target and is nearest to it, if any does. -/
def nearestOnGrid? (t : Target) (k : Int) : Option Nat :=
  let (p, q) := gridStep k t.e
  let v := t.m * q
  let c := v / p
  let within (distance limit : Nat) : Bool :=
    if t.closed then distance ≤ limit else distance < limit
  let lower := within (v - c * p) (t.below * q)
  let upper := within ((c + 1) * p - v) (t.above * q)
  match lower, upper with
  | false, false => none
  | true, false => some c
  | false, true => some (c + 1)
  | true, true => some (if (c + 1) * p - v ≤ v - c * p then c + 1 else c)

/-- The exponent of the first digit of `m · 2^e`. -/
def leadingExponent (m : Nat) (e : Int) : Int :=
  -- no number of a format in use is below `10^-400`
  let scaled := m * Nat.pow 2 e.toNat * Nat.pow 10 400 / Nat.pow 2 (-e).toNat
  (Nat.toDigits 10 scaled).length - 401

/-- The first hit on the grids from `10^k` down, over at most so many grids. -/
def search (t : Target) (k : Int) : Nat → Option Decimal
  | 0 => none
  | n + 1 =>
    match nearestOnGrid? t k with
    | some c => some ⟨c, k⟩
    | none => search t (k - 1) n

/-- The decimal with the fewest digits that reads back as `m · 2^e`, `m > 0`.  Seventeen digits
    are enough for every number with at most 53 bits. -/
def shortest (f : FloatFormat) (m : Nat) (e : Int) : Decimal :=
  match search (.ofFinite f m e) (leadingExponent m e) 17 with
  | some ⟨10, k⟩ => ⟨1, k + 1⟩
  | some d => d
  | none => ⟨m, e⟩

end Decimal

end GreenVm
