/-
  Binary floating-point numbers by their bits.

  A `FloatFormat` says how many bits the fraction and the exponent have.  `decode` gives the number
  that a bit pattern stands for, as sign and `m · 2^e`; `encode` is its inverse on the numbers of
  the format.  Comparison and remainder are done on the decoded numbers, exactly.
-/
namespace GreenVm

/-- Widths of a binary floating-point format. -/
structure FloatFormat where
  fractionBits : Nat
  exponentBits : Nat
  deriving DecidableEq, Repr

/-- What a bit pattern stands for: a finite number is `± m · 2^e`. -/
inductive FloatValue
  | nan
  | infinite (negative : Bool)
  | finite (negative : Bool) (m : Nat) (e : Int)
  deriving DecidableEq, Repr

namespace FloatFormat

def single : FloatFormat := ⟨23, 8⟩
def double : FloatFormat := ⟨52, 11⟩

/-- The exponent of the last bit of the smallest numbers. -/
def minExponent (f : FloatFormat) : Int :=
  2 - Nat.pow 2 (f.exponentBits - 1) - f.fractionBits

/-- The exponent field of infinities and NaNs. -/
def topExponent (f : FloatFormat) : Nat := Nat.pow 2 f.exponentBits - 1

def signBit (f : FloatFormat) : Nat := Nat.pow 2 (f.fractionBits + f.exponentBits)

/-- The bits of a NaN. -/
def nanBits (f : FloatFormat) : Nat :=
  f.topExponent * Nat.pow 2 f.fractionBits + Nat.pow 2 (f.fractionBits - 1)

/-- The number a bit pattern stands for. -/
def decode (f : FloatFormat) (bits : Nat) : FloatValue :=
  let fraction := bits % Nat.pow 2 f.fractionBits
  let exponent := bits / Nat.pow 2 f.fractionBits % Nat.pow 2 f.exponentBits
  let negative := bits / f.signBit % 2 = 1
  if exponent = f.topExponent then
    if fraction = 0 then .infinite negative else .nan
  else if exponent = 0 then .finite negative fraction f.minExponent
  else .finite negative (fraction + Nat.pow 2 f.fractionBits) (f.minExponent + exponent - 1)

/-- The bits of `± m · 2^e`, for a number that the format has. -/
def encode (f : FloatFormat) (negative : Bool) (m : Nat) (e : Int) : Nat :=
  let sign := if negative then f.signBit else 0
  if m = 0 then sign
  else
    -- the exponent of the last bit once the number is normal, or the least there is
    let last := max (e + m.log2 - f.fractionBits) f.minExponent
    let shifted :=
      if last ≤ e then m * Nat.pow 2 (e - last).toNat else m / Nat.pow 2 (last - e).toNat
    if shifted < Nat.pow 2 f.fractionBits then sign + shifted
    else
      sign + ((last - f.minExponent).toNat + 1) * Nat.pow 2 f.fractionBits
        + (shifted - Nat.pow 2 f.fractionBits)

def isNan (f : FloatFormat) (bits : Nat) : Bool := f.decode bits = .nan

/-- Equality as numbers: the zeros are equal, a NaN equals nothing. -/
def numericEq (f : FloatFormat) (a b : Nat) : Bool :=
  match f.decode a, f.decode b with
  | .nan, _ | _, .nan => false
  | .finite _ 0 _, .finite _ 0 _ => true
  | _, _ => a == b

/-- The bits with the sign turned over. -/
def negate (f : FloatFormat) (bits : Nat) : Nat := bits ^^^ f.signBit

/-- Remainder of a division that truncates.  The result has the sign of the dividend and is exact;
    a NaN arises from an infinite dividend or a zero divisor. -/
def remainder (f : FloatFormat) (a b : Nat) : Nat :=
  match f.decode a, f.decode b with
  | .finite negative m e, .finite _ m' e' =>
    if m' = 0 then f.nanBits
    else
      let last := min e e'
      let r := (m * Nat.pow 2 (e - last).toNat) % (m' * Nat.pow 2 (e' - last).toNat)
      f.encode negative r last
  | .finite .., .infinite _ => a
  | _, _ => f.nanBits

end FloatFormat

end GreenVm
