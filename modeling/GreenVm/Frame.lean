/-
  Frames: the state of one method call.
-/
import GreenVm.Class
import GreenVm.OperandStack

namespace GreenVm

inductive FrameKind
  | method
  /-- Runs a class initializer: returning resumes the caller at the instruction that needed the
      class, not after it. -/
  | classInit
  deriving DecidableEq, Repr, Inhabited

/-- The state of one call. -/
structure Frame where
  method : MethodRef
  code : Code
  pc : Nat
  locals : Array Value
  stack : OperandStack
  /-- Monitors entered here and not yet left, the latest first. -/
  monitors : List Ref
  kind : FrameKind
  deriving Inhabited

namespace Frame

/-- Lays values out in local variables from a slot on; a wide value takes two. -/
def layOut : List Value → Nat → Array Value → Except EngineError (Array Value)
  | [], _, locals => .ok locals
  | v :: vs, slot, locals =>
    if slot + v.slots ≤ locals.size then
      layOut vs (slot + v.slots) (locals.setIfInBounds slot v)
    else .error (.invalidLocal (slot + v.slots - 1) locals.size)

/-- The frame of a call with its arguments, the receiver first. -/
def enter (method : MethodRef) (args : List Value) (kind : FrameKind) :
    Except EngineError Frame :=
  match method.method.code with
  | none => .error (.unsupported (.noBytecode method.qualifiedName))
  | some code => do
    let locals ← layOut args 0 (Array.replicate code.maxLocals .top)
    return { method, code, pc := 0, locals, stack := .ofMax code.maxStack, monitors := [], kind }

/-- The class whose code runs. -/
def owner (f : Frame) : Class := f.method.owner

/-- The value of a local variable. -/
def load (f : Frame) (index : Nat) : Except EngineError Value :=
  match f.locals[index]? with
  | some v => .ok v
  | none => .error (.invalidLocal index f.locals.size)

/-- A wide value that starts just before a slot loses its second half to a store there. -/
def forgetBefore (locals : Array Value) (index : Nat) : Array Value :=
  if index = 0 then locals
  else if (locals[index - 1]?.getD .top).isWide then locals.setIfInBounds (index - 1) .top
  else locals

/-- Refuses a place where a value does not fit into the local variables. -/
def checkSlots (f : Frame) (index : Nat) (v : Value) : Except EngineError Unit :=
  if index + v.slots ≤ f.locals.size then .ok ()
  else .error (.invalidLocal (index + v.slots - 1) f.locals.size)

/-- The local variables after a value is put at a slot. -/
def putLocal (locals : Array Value) (index : Nat) (v : Value) : Array Value :=
  let locals := if v.isWide then locals.setIfInBounds (index + 1) .top else locals
  (forgetBefore locals index).setIfInBounds index v

/-- Sets a local variable.  A wide value also takes the slot after it; a wide value that loses a
    half is gone. -/
def put (f : Frame) (index : Nat) (v : Value) : Frame :=
  { f with locals := putLocal f.locals index v }

/-- The entries of the exception table that cover the current instruction. -/
def coveringHandlers (f : Frame) : List Handler := f.code.handlers.filter (·.covers f.pc)

end Frame

end GreenVm
