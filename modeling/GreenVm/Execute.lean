/-
  Execution of one instruction.

  `Frame.execute` does what the instruction at the frame's `pc` does and says what happens next; the
  `pc` itself is left for the caller to move.
-/
import GreenVm.Execute.Arithmetic
import GreenVm.Execute.Arrays
import GreenVm.Execute.Members

namespace GreenVm

namespace FrameM

/-! ## Branches and monitors -/

def branch (taken : Bool) (target : Nat) : Next := if taken then .jump target else .advance

/-- The target of a table switch for a key. -/
def tableTarget (default : Nat) (low : Int32) (targets : List Nat) (key : Int32) : Nat :=
  let offset := key.toInt - low.toInt
  if offset < 0 then default else targets[offset.toNat]?.getD default

/-- The target of a lookup switch for a key. -/
def lookupTarget (default : Nat) (pairs : List (Int32 × Nat)) (key : Int32) : Nat :=
  ((pairs.find? fun p => p.1 = key).map Prod.snd).getD default

def leave (kind : Option ValueKind) : FrameM Next := do
  match kind with
  | none => return .leave none
  | some kind =>
    let v ← pop
    kind.check false v
    return .leave (some v)

/-- Enters the monitor of the object on top, or blocks and leaves it there. -/
def monitorEnter (thread : ThreadId) : FrameM Next := do
  let r ← (← peek 0).asObject
  if ← (Exec.tryEnter r thread 1 : Exec Bool) then
    discard pop
    modifyThe Frame fun f => { f with monitors := r :: f.monitors }
    return .advance
  else return .block r

/-- Leaves the monitor of the object on top. -/
def monitorExit (thread : ThreadId) : FrameM Unit := do
  let r ← popObject
  let promoted ← Exec.withMonitor r (·.exit thread)
  Exec.wake promoted.toList
  modifyThe Frame fun f => { f with monitors := f.monitors.erase r }

/-! ## Dispatch -/

/-- Does something after which the next instruction follows. -/
def andAdvance (x : FrameM Unit) : FrameM Next := do
  x
  return .advance

/-- Executes an instruction on behalf of a thread. -/
def execute (host : Host) (thread : ThreadId) : Instruction → FrameM Next
  | .nop => return .advance
  | .literal l => andAdvance (push l.value)
  | .loadConstant index => andAdvance (loadConstant index)
  | .load kind index => andAdvance do
    let v ← load index
    kind.check false v
    push v
  | .store kind index => andAdvance do
    let v ← pop
    kind.check true v
    store index v
  | .arrayLoad kind => andAdvance (arrayLoad kind)
  | .arrayStore kind => andAdvance (arrayStore kind)
  | .pop slots => andAdvance (discard (takeOff (·.popSlots slots)))
  | .dup slots skip => andAdvance (onStack (·.dup slots skip))
  | .swap => andAdvance (onStack (·.swap))
  | .binary op kind => andAdvance (binary op kind)
  | .shift op kind => andAdvance (shift op kind)
  | .neg kind => andAdvance (negate kind)
  | .increment index delta => andAdvance (increment index delta)
  | .convert source target => andAdvance (convert source target)
  | .narrow kind => andAdvance do push (.int (kind.apply (← popInt)))
  | .compareLong => andAdvance compareLongs
  | .compareFloat bias => andAdvance (compareFloats bias)
  | .compareDouble bias => andAdvance (compareDoubles bias)
  | .branchZero condition target => do
    let v ← popInt
    return branch (condition.holds (compare v 0)) target
  | .branchInts condition target => do
    let b ← popInt
    let a ← popInt
    return branch (condition.holds (compare a b)) target
  | .branchSame same target => do
    let b ← popReference
    let a ← popReference
    return branch ((a == b) == same) target
  | .branchNull null target => do
    let r ← popReference
    return branch (r.isNone == null) target
  | .goto target => return .jump target
  | .jumpSubroutine target => do
    push (.returnAddress ((← getThe Frame).pc + 1))
    return .jump target
  | .returnSubroutine index => do
    return .jump (← (← load index).asReturnAddress)
  | .tableSwitch default low targets => do
    return .jump (tableTarget default low targets (← popInt))
  | .lookupSwitch default pairs => do
    return .jump (lookupTarget default pairs (← popInt))
  | .leave kind => leave kind
  | .getStatic index => getStatic host thread index
  | .putStatic index => putStatic host thread index
  | .getField index => andAdvance (getField index)
  | .putField index => andAdvance (putField index)
  | .invokeVirtual index | .invokeInterface index => invokeVirtual index
  | .invokeSpecial index => invokeSpecial index
  | .invokeStatic index => invokeStatic host thread index
  | .invokeDynamic index => invokeDynamic index
  | .new index => new host thread index
  | .newArray kind => andAdvance (newArray kind)
  | .newReferenceArray index => andAdvance (newReferenceArray index)
  | .newMultiArray index dimensions => andAdvance (newMultiArray index dimensions)
  | .arrayLength => andAdvance arrayLength
  | .throwTop => do throw (.thrown (.object (← popObject)))
  | .checkCast index => andAdvance (checkCast index)
  | .instanceOf index => andAdvance (instanceOf index)
  | .monitorEnter => monitorEnter thread
  | .monitorExit => andAdvance (monitorExit thread)

end FrameM

/-- The frame at its next instruction. -/
def Frame.moved (f : Frame) : Next → Frame
  | .advance => { f with pc := f.pc + 1 }
  | .jump target => { f with pc := target }
  | _ => f

/-- Executes the instruction at the frame's `pc`. -/
def Frame.execute (host : Host) (thread : ThreadId) : FrameM Next := do
  let f ← getThe Frame
  match f.code.instructions[f.pc]? with
  | some i => FrameM.execute host thread i
  | none => throw (.fatal (.invalidPc f.pc f.code.instructions.size))

end GreenVm
