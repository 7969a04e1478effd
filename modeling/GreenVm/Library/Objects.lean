/-
  The operations of `java/lang/Object` and `java/lang/Class`.
-/
import GreenVm.CauseChain

namespace GreenVm

open Exec

/-- Gives up the monitor of the receiver and asks the scheduler to park the thread until it is
    notified or, if there is one, the time limit is over. -/
def NativeCall.wait (call : NativeCall) (millis : Option Nat) : Exec (Option Value) := do
  let this ← call.this
  let (count, promoted) ← withMonitor this (·.wait call.thread)
  wake promoted.toList
  suspend (.wait this count millis)
  return none

def ObjectOp.run (op : ObjectOp) (call : NativeCall) : Exec (Option Value) := do
  match op with
  | .hashCode => return some (.int (← call.this).identityHash)
  | .equals =>
    let this ← call.this
    let other ← (← call.arg 0).asReference
    return some (.ofBool (other == some this))
  | .toString =>
    let this ← call.this
    let c ← typeOf this
    return some (.ofRef (← newString s!"{dotted c.name}@{this.hashText}"))
  | .clone =>
    let this ← call.this
    let cloneable ← loadClass ClassName.cloneable
    let c ← typeOf this
    if !c.isAssignableTo cloneable then throw (.cloneNotSupported c.name)
    return some (.ofRef (← cloneObject this))
  | .getClass =>
    let c ← typeOf (← call.this)
    return some (.ofRef (← classObject c))
  | .wait => call.wait none
  | .waitTimeout =>
    let millis ← (← call.arg 0).asLong
    if millis < 0 then throw .negativeTimeout
    call.wait (if millis = 0 then none else some millis.toInt.toNat)
  | .notify =>
    let notified ← withMonitor (← call.this) (·.notify call.thread)
    reportNotified notified.toList
    return none
  | .notifyAll =>
    let notified ← withMonitor (← call.this) (·.notifyAll call.thread)
    reportNotified notified
    return none

/-- The class the receiver stands for. -/
def NativeCall.represents (call : NativeCall) : Exec Class := do
  match (← object (← call.this)).payload.represents with
  | some c => return c
  | none => throw (.mismatch .classObject .otherObject)

def ClassOp.run (op : ClassOp) (call : NativeCall) : Exec (Option Value) := do
  let c ← call.represents
  match op with
  | .getName => return some (.ofRef (← newString (dotted c.name)))
  | .getSuperclass =>
    match c.superClass, c.isInterface with
    | some s, false => return some (.ofRef (← classObject s))
    | _, _ => return some .null
  | .isInterface => return some (.ofBool c.isInterface)
  | .isArray => return some (.ofBool c.isArray)
  | .isInstance =>
    match ← (← call.arg 0).asReference with
    | some r => return some (.ofBool ((← typeOf r).isAssignableTo c))
    | none => return some (.ofBool false)

end GreenVm
