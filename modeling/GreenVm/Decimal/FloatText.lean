/-
  How a floating-point number is written: the fewest digits that read back, plain from `10^-3` up to
  `10^7` and with an exponent outside, always with at least one digit after the point.
-/
import GreenVm.Decimal.Shortest

namespace GreenVm

namespace Decimal

/-- Plain notation: `0.001`, `12.5`, `300.0`. -/
def plain (d : Decimal) : String :=
  let ds := d.digits
  if 0 ≤ d.exponent then
    String.ofList (ds ++ List.replicate d.exponent.toNat '0') ++ ".0"
  else
    let places := (-d.exponent).toNat
    let padded := List.replicate (places + 1 - ds.length) '0' ++ ds
    String.ofList (padded.take (padded.length - places)) ++ "." ++
      String.ofList (padded.drop (padded.length - places))

/-- One digit before the point, and the exponent: `1.0E10`, `1.5E-5`. -/
def scientific (d : Decimal) : String :=
  let ds := d.digits
  let fraction := if ds.length ≤ 1 then ['0'] else ds.drop 1
  String.ofList (ds.take 1) ++ "." ++ String.ofList fraction ++ "E" ++
    toString (d.exponent + (ds.length - 1 : Nat))

end Decimal

namespace FloatFormat

/-- Whether `m · 2^e` is written plainly: it lies between `10^-3`, included, and `10^7`. -/
def isPlain (m : Nat) (e : Int) : Bool :=
  let num := m * Nat.pow 2 e.toNat
  let den := Nat.pow 2 (-e).toNat
  den ≤ 1000 * num && num < Nat.pow 10 7 * den

/-- The text of a number given by its bits. -/
def text (f : FloatFormat) (bits : Nat) : String :=
  match f.decode bits with
  | .nan => "NaN"
  | .infinite negative => if negative then "-Infinity" else "Infinity"
  | .finite negative m e =>
    let sign := if negative then "-" else ""
    if m = 0 then sign ++ "0.0"
    else
      let d := Decimal.shortest f m e
      sign ++ (if isPlain m e then d.plain else d.scientific)

end FloatFormat

end GreenVm
