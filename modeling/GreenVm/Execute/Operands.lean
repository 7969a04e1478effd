/-
  Work on the frame of an instruction: operand stack, local variables, constants.
-/
import GreenVm.Initialization

namespace GreenVm

/-- Work on a frame and on the machine; both keep what was done before a failure. -/
abbrev FrameM := ExceptT Fault (StateT Frame (StateM Machine))

instance : MonadLift Exec FrameM where
  monadLift x := ExceptT.mk (StateT.lift x.run)

/-- What happens after an instruction. -/
inductive Next
  | advance
  | jump (target : Nat)
  /-- Calls a method; its arguments, the receiver first, are still on the operand stack. -/
  | invoke (method : MethodRef)
  | leave (value : Option Value)
  /-- Another thread holds the monitor.  Nothing was consumed, and the instruction runs again. -/
  | block (monitor : Ref)
  /-- Another thread is initializing the class.  The instruction runs again. -/
  | awaitInit (c : Class)
  /-- The initializer must run, and then the instruction again. -/
  | runInitializer (clinit : MethodRef)
  deriving Inhabited

/-! ## Kinds of values -/

def ValueKind.shape : ValueKind → Shape
  | .int => .int
  | .long => .long
  | .float => .float
  | .double => .double
  | .reference => .reference

/-- Whether a value is of a kind.  A return address can be stored as a reference, but not loaded. -/
def ValueKind.accepts (kind : ValueKind) (storing : Bool) (v : Value) : Bool :=
  match kind, v with
  | .int, .int _ | .long, .long _ | .float, .float _ | .double, .double _ => true
  | .reference, .reference _ => true
  | .reference, .returnAddress _ => storing
  | _, _ => false

def ValueKind.check (kind : ValueKind) (storing : Bool) (v : Value) : Except EngineError Unit :=
  if kind.accepts storing v then .ok () else .error (.typeMismatch kind.shape v.shape)

def Literal.value : Literal → Value
  | .null => .null
  | .int v => .int v
  | .long v => .long v
  | .float bits => .float bits
  | .double bits => .double bits

namespace FrameM

/-! ## The operand stack -/

/-- Does something to the operand stack. -/
def onStack (f : OperandStack → Except EngineError OperandStack) : FrameM Unit := do
  let stack ← f (← getThe Frame).stack
  modifyThe Frame ({ · with stack })

/-- Takes something off the operand stack. -/
def takeOff {α : Type} (f : OperandStack → Except EngineError (α × OperandStack)) : FrameM α := do
  let (a, stack) ← f (← getThe Frame).stack
  modifyThe Frame ({ · with stack })
  return a

def push (v : Value) : FrameM Unit := onStack (·.push v)

def pop : FrameM Value := takeOff (·.pop)

def peek (n : Nat) : FrameM Value := do (← getThe Frame).stack.peek n

def popInt : FrameM Int32 := do (← pop).asInt
def popLong : FrameM Int64 := do (← pop).asLong
def popFloat : FrameM UInt32 := do (← pop).asFloat
def popDouble : FrameM UInt64 := do (← pop).asDouble
def popReference : FrameM (Option Ref) := do (← pop).asReference
def popObject : FrameM Ref := do (← pop).asObject

/-- Takes a number of a kind off the stack. -/
def popNumber (kind : NumKind) : FrameM Value :=
  match kind with
  | .int => return .int (← popInt)
  | .long => return .long (← popLong)
  | .float => return .float (← popFloat)
  | .double => return .double (← popDouble)

/-! ## Local variables and constants -/

def load (index : Nat) : FrameM Value := do (← getThe Frame).load index

/-- Sets a local variable, if the frame has the slots for it. -/
def store (index : Nat) (v : Value) : FrameM Unit := do
  (← getThe Frame).checkSlots index v
  modifyThe Frame (·.put index v)

/-- The class whose code runs. -/
def owner : FrameM Class := return (← getThe Frame).owner

/-- The pool entry at an index. -/
def constant (index : Nat) : FrameM Constant := do (← owner).constant index

/-- Refuses a pool entry that is not what it was needed as. -/
def wrongConstant {α : Type} (index : Nat) (expected : ConstantRole) : FrameM α := do
  throw (.fatal (.invalidConstant (← owner).name index expected))

end FrameM

namespace Exec

/-- The class a class mentions by name.  It need not be loaded to mention itself. -/
def mentioned (current : Class) (name : String) : Exec Class :=
  if name = current.name then return current else loadClass name

/-- The class a pool entry refers to. -/
def classAt (current : Class) (index : Nat) : Exec Class := do
  match ← current.constant index with
  | .classRef name => mentioned current name
  | _ => throw (.fatal (.invalidConstant current.name index .classReference))

end Exec

end GreenVm
