/-
  Values: what an operand stack entry, a local variable, a field or an array element holds.

  Floating-point values are their bits, so two values are equal when they are the same bit for bit
  and references are equal when they name the same object.
-/
import GreenVm.Descriptor
import GreenVm.Fault

namespace GreenVm

/-- One operand stack entry or local variable.  A wide value is one stack entry but takes two local
    variable slots, of which the second holds `top`. -/
inductive Value
  | int (v : Int32)
  | long (v : Int64)
  | float (bits : UInt32)
  | double (bits : UInt64)
  | reference (object : Option Ref)
  | returnAddress (pc : Nat)
  | top
  deriving DecidableEq, Repr, Inhabited

namespace Value

def null : Value := reference none

def ofRef (r : Ref) : Value := reference (some r)

def ofBool (b : Bool) : Value := int (if b then 1 else 0)

/-- The value a variable of a type starts with. -/
def default : FieldType → Value
  | .long => long 0
  | .float => float 0
  | .double => double 0
  | .object _ | .array _ => null
  | _ => int 0

def isWide : Value → Bool
  | long _ | double _ => true
  | _ => false

def slots (v : Value) : Nat := if v.isWide then 2 else 1

def shape : Value → Shape
  | int _ => .int
  | long _ => .long
  | float _ => .float
  | double _ => .double
  | reference _ => .reference
  | returnAddress _ => .returnAddress
  | top => .top

/-! ## Typed access -/

def asInt : Value → Except EngineError Int32
  | int v => .ok v
  | v => .error (.typeMismatch .int v.shape)

def asLong : Value → Except EngineError Int64
  | long v => .ok v
  | v => .error (.typeMismatch .long v.shape)

def asFloat : Value → Except EngineError UInt32
  | float bits => .ok bits
  | v => .error (.typeMismatch .float v.shape)

def asDouble : Value → Except EngineError UInt64
  | double bits => .ok bits
  | v => .error (.typeMismatch .double v.shape)

def asReturnAddress : Value → Except EngineError Nat
  | returnAddress pc => .ok pc
  | v => .error (.typeMismatch .returnAddress v.shape)

def asReference : Value → Except EngineError (Option Ref)
  | reference object => .ok object
  | v => .error (.typeMismatch .reference v.shape)

def asBool (v : Value) : Except EngineError Bool := return (← v.asInt) != 0

/-- The object referred to; null is a `NullPointerException`. -/
def asObject (v : Value) : Except Fault Ref := do
  match ← v.asReference with
  | some r => return r
  | none => throw .nullPointer

end Value

end GreenVm
