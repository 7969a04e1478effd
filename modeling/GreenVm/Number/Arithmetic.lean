/-
  Arithmetic on words and on floating-point bits.

  Integer arithmetic wraps; division truncates, and only a zero divisor is an error.  Shift
  distances are taken modulo the width.  Floating-point operations are those of the format; the
  remainder is that of a truncating division.  Conversion to an integer saturates and takes NaN to
  zero.
-/
import GreenVm.Instruction
import GreenVm.Number.Format
import GreenVm.Value

namespace GreenVm

/-! ## Integers -/

def BinaryOp.onInts (op : BinaryOp) (a b : Int32) : Except Fault Int32 :=
  match op with
  | .add => .ok (a + b)
  | .sub => .ok (a - b)
  | .mul => .ok (a * b)
  | .div => if b = 0 then .error .divisionByZero else .ok (a / b)
  | .rem => if b = 0 then .error .divisionByZero else .ok (a % b)
  | .and => .ok (a &&& b)
  | .or => .ok (a ||| b)
  | .xor => .ok (a ^^^ b)

def BinaryOp.onLongs (op : BinaryOp) (a b : Int64) : Except Fault Int64 :=
  match op with
  | .add => .ok (a + b)
  | .sub => .ok (a - b)
  | .mul => .ok (a * b)
  | .div => if b = 0 then .error .divisionByZero else .ok (a / b)
  | .rem => if b = 0 then .error .divisionByZero else .ok (a % b)
  | .and => .ok (a &&& b)
  | .or => .ok (a ||| b)
  | .xor => .ok (a ^^^ b)

def ShiftOp.onInt (op : ShiftOp) (v distance : Int32) : Int32 :=
  let d := distance &&& 0x1f
  match op with
  | .shl => v <<< d
  | .shr => v >>> d
  | .ushr => (v.toUInt32 >>> d.toUInt32).toInt32

def ShiftOp.onLong (op : ShiftOp) (v : Int64) (distance : Int32) : Int64 :=
  let d := (distance &&& 0x3f).toInt64
  match op with
  | .shl => v <<< d
  | .shr => v >>> d
  | .ushr => (v.toUInt64 >>> d.toUInt64).toInt64

/-- Narrows an int and widens it back. -/
def NarrowKind.apply (kind : NarrowKind) (v : Int32) : Int32 :=
  match kind with
  | .byte => v.toInt8.toInt32
  | .char => v.toUInt32.toUInt16.toUInt32.toInt32
  | .short => v.toInt16.toInt32

/-- An order as a number: -1, 0 or 1. -/
def orderNumber : Ordering → Int32
  | .lt => -1
  | .eq => 0
  | .gt => 1

/-! ## Floating point -/

def integerOperation : EngineError := .typeMismatch .integral .floating

def BinaryOp.onFloats (op : BinaryOp) (a b : UInt32) : Except EngineError UInt32 :=
  let x := Float32.ofBits a
  let y := Float32.ofBits b
  match op with
  | .add => .ok (x + y).toBits
  | .sub => .ok (x - y).toBits
  | .mul => .ok (x * y).toBits
  | .div => .ok (x / y).toBits
  | .rem => .ok (UInt32.ofNat (FloatFormat.single.remainder a.toNat b.toNat))
  | .and | .or | .xor => .error integerOperation

def BinaryOp.onDoubles (op : BinaryOp) (a b : UInt64) : Except EngineError UInt64 :=
  let x := Float.ofBits a
  let y := Float.ofBits b
  match op with
  | .add => .ok (x + y).toBits
  | .sub => .ok (x - y).toBits
  | .mul => .ok (x * y).toBits
  | .div => .ok (x / y).toBits
  | .rem => .ok (UInt64.ofNat (FloatFormat.double.remainder a.toNat b.toNat))
  | .and | .or | .xor => .error integerOperation

def NanBias.number : NanBias → Int32
  | .less => -1
  | .greater => 1

def compareFloats (bias : NanBias) (a b : UInt32) : Int32 :=
  let x := Float32.ofBits a
  let y := Float32.ofBits b
  if x < y then -1 else if x == y then 0 else if y < x then 1 else bias.number

def compareDoubles (bias : NanBias) (a b : UInt64) : Int32 :=
  let x := Float.ofBits a
  let y := Float.ofBits b
  if x < y then -1 else if x == y then 0 else if y < x then 1 else bias.number

/-! ## Conversion -/

/-- A number converted to a kind.  Converting to the kind it has changes nothing. -/
def Value.convert (v : Value) (target : NumKind) : Value :=
  match v, target with
  | .int v, .long => .long v.toInt64
  | .int v, .float => .float v.toFloat32.toBits
  | .int v, .double => .double v.toFloat.toBits
  | .long v, .int => .int v.toInt32
  | .long v, .float => .float v.toFloat32.toBits
  | .long v, .double => .double v.toFloat.toBits
  | .float b, .int => .int (Float32.ofBits b).toInt32
  | .float b, .long => .long (Float32.ofBits b).toInt64
  | .float b, .double => .double (Float32.ofBits b).toFloat.toBits
  | .double b, .int => .int (Float.ofBits b).toInt32
  | .double b, .long => .long (Float.ofBits b).toInt64
  | .double b, .float => .float (Float.ofBits b).toFloat32.toBits
  | v, _ => v

end GreenVm
