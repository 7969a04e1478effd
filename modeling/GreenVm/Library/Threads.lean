/-
  The operations of `java/lang/Thread`.
-/
import GreenVm.CauseChain

namespace GreenVm

open Exec

/-- Gives the receiver, a new thread object, its id, which also names it if nothing else does. -/
def NativeCall.initThread (call : NativeCall) (target : Option Ref) (name : Option String) :
    Exec (Option Value) := do
  let this ← call.this
  let id ← issueThreadId
  let text ← newString (name.getD (defaultThreadName id))
  putField this threadNameKey (.ofRef text)
  putField this threadTargetKey (.reference target)
  bindThread id this
  return none

/-- The thread an object stands for. -/
def threadOf (r : Ref) : Exec ThreadId := do
  match (← object r).payload.thread with
  | some t => return t
  | none => throw (.fatal (.unsupported .threadNotConstructed))

/-- The name of a thread object. -/
def threadName (r : Ref) : Exec String := do
  match ← (← getField r threadNameKey).asReference with
  | some s => textOf s
  | none => return ""

/-- Starts a thread that calls `run` of the receiver; it takes its first turn after the threads that
    are there already. -/
def NativeCall.startThread (call : NativeCall) : Exec (Option Value) := do
  let this ← call.this
  if (← object this).payload.started then throw .alreadyStarted
  let id ← threadOf this
  match (← typeOf this).findMethod? "run" "()V" with
  | none => throw .noRunMethod
  | some run =>
    let name ← threadName this
    updatePayload this ({ · with started := true })
    spawn (.starting id name run [.ofRef this])
    return none

def ThreadOp.run (op : ThreadOp) (call : NativeCall) : Exec (Option Value) := do
  match op with
  | .init => call.initThread none none
  | .initTarget => call.initThread (← (← call.arg 0).asReference) none
  | .initTargetName =>
    let target ← (← call.arg 0).asReference
    call.initThread target (← call.stringArg 1)
  | .start => call.startThread
  | .join =>
    suspend (.join (← threadOf (← call.this)))
    return none
  | .getName => return some (← getField (← call.this) threadNameKey)
  | .getId => return some (.long (Int64.ofNat (← threadOf (← call.this)).index))
  | .currentThread => return some (.ofRef (← threadObject call.thread))
  | .sleep =>
    let millis ← (← call.arg 0).asLong
    if millis < 0 then throw .negativeTimeout
    suspend (if millis = 0 then .yield else .sleep millis.toInt.toNat)
    return none
  | .yield =>
    suspend .yield
    return none

end GreenVm
