/-
  Steps of a thread: one instruction, the start of the entry method, or an attempt to take a monitor
  back after a wait.
-/
import GreenVm.Thread.Unwinding

namespace GreenVm

/-- What came of taking the lock of a synchronized method. -/
inductive Locking
  /-- The method is not synchronized. -/
  | unneeded
  | held (lock : Ref)
  /-- Another thread holds the lock. -/
  | busy (lock : Ref)
  deriving DecidableEq, Repr, Inhabited

/-- The receiver and the other arguments of a call. -/
def MethodRef.splitReceiver (r : MethodRef) (args : List Value) :
    Except Fault (Option Ref × List Value) := do
  if r.method.isStatic then return (none, args)
  match args with
  | [] => throw (.fatal .stackUnderflow)
  | v :: rest => return (some (← v.asObject), rest)

namespace ThreadM

def threadId : ThreadM ThreadId := return (← getThe Thread).id

/-- The native registered for a method. -/
def nativeFor? (r : MethodRef) : ThreadM (Option Native) := do
  let m ← (get : Exec Machine)
  return m.natives.lookup? r.owner.name r.method.name r.method.descriptor

/-! ## Calls -/

/-- Takes the lock of a synchronized method: the receiver, or the object of the class if the method
    is static.  The arguments are still on the operand stack. -/
def takeLock (r : MethodRef) : ThreadM Locking := do
  if !r.method.isSynchronized then return .unneeded
  let lock ←
    if r.method.isStatic then (Exec.classObject r.owner : Exec Ref)
    else do
      let v ← (← topFrame).stack.peek (r.method.argumentCount - 1)
      v.asObject
  let id ← threadId
  if ← (Exec.tryEnter lock id 1 : Exec Bool) then return .held lock else return .busy lock

/-- Calls a native method and goes on after the call.  The lock is released however the call
    ends. -/
def callNative (host : Host) (r : MethodRef) (native : Native) (args : List Value)
    (lock : Option Ref) : ThreadM Unit := do
  let (receiver, args) ← r.splitReceiver args
  let call : NativeCall := { owner := r.owner, receiver, args, thread := ← threadId }
  let result ← (Exec.attempt (native.run host call) : Exec _)
  releaseAll lock.toList
  let value ← result
  let f ← topFrame
  let stack ← match value, r.method.type.returnType with
    | some v, some _ => f.stack.push v
    | _, _ => pure f.stack
  setTop { f with stack, pc := f.pc + 1 }

/-- Why a method without a native cannot be called at a depth of frames. -/
def callFailure? (r : MethodRef) (depth maxDepth : Nat) : Option Fault :=
  if r.method.code.isNone then
    some (if r.method.isAbstract then .abstractMethod r.qualifiedName
      else .unsatisfiedLink r.qualifiedName)
  else if maxDepth ≤ depth then some .callStackOverflow
  else none

/-- Calls a method that has no native.  The lock is recorded in the frame of the call. -/
def callBytecode (r : MethodRef) (args : List Value) (lock : Option Ref) : ThreadM Unit := do
  let m ← (get : Exec Machine)
  match callFailure? r (← getThe Thread).depth m.config.maxCallDepth with
  | some fault =>
    releaseAll lock.toList
    throw fault
  | none =>
    let callee ← Frame.enter r args .method
    pushFrame { callee with monitors := lock.toList }

/-- Calls a method whose lock has been taken, if it needs one. -/
def call (host : Host) (r : MethodRef) (lock : Option Ref) : ThreadM Unit := do
  let f ← topFrame
  let (args, stack) ← f.stack.popArgs r.method.argumentCount
  setTop { f with stack }
  match ← nativeFor? r with
  | some native => callNative host r native args lock
  | none => callBytecode r args lock

/-- Calls a method whose arguments are on the operand stack.  If its lock is taken the stack is left
    alone and the thread blocks, so that the instruction runs again. -/
def invoke (host : Host) (r : MethodRef) : ThreadM Unit := do
  match ← takeLock r with
  | .unneeded => call host r none
  | .held lock => call host r (some lock)
  | .busy lock => blockOn lock

/-- Goes on with the frames `rest` when the one above them has been left with a result.  After a
    class initializer the caller runs the same instruction again; after a method it goes on after
    the call. -/
def resume (kind : FrameKind) (rest : List Frame) (value : Option Value) : ThreadM Unit := do
  match rest, kind with
  | _ :: _, .classInit => return ()
  | caller :: _, .method =>
    let stack ← match value with
      | some v => caller.stack.push v
      | none => pure caller.stack
    setTop { caller with stack, pc := caller.pc + 1 }
  | [], _ => if (← getThe Thread).entry.isNone then terminate (.returned value)

/-- Leaves the top frame with a result. -/
def returnFrom (value : Option Value) : ThreadM Unit := do
  let f ← topFrame
  let rest := (← getThe Thread).frames.tail
  leaveFrame f rest
  if f.kind = .classInit then (Exec.setInit f.owner .done : Exec Unit)
  resume f.kind rest value

/-! ## Steps -/

/-- Pushes the frame of a class initializer. -/
def pushInitializer (clinit : MethodRef) : ThreadM Unit := do
  pushFrame (← Frame.enter clinit [] .classInit)

/-- Starts the entry method, once its class is ready. -/
def startEntry (host : Host) : ThreadM Unit := do
  let t ← getThe Thread
  let some (r, args) := t.entry
    | throw (.fatal (.unsupported (.nothingToRun t.id)))
  match ← (Exec.readyClass host t.id r.owner : Exec Readiness) with
  | .runInitializer clinit => pushInitializer clinit
  | .await c => awaitInit c
  | .ready =>
    modifyThe Thread fun t => { t with entry := none }
    match ← nativeFor? r with
    | none => pushFrame (← Frame.enter r args .method)
    | some native =>
      let (receiver, args) ← r.splitReceiver args
      let call : NativeCall := { owner := r.owner, receiver, args, thread := t.id }
      let value ← (native.run host call : Exec _)
      terminate (.returned value)

/-- Tries to take back a monitor that was given up for a wait. -/
def tryReacquire (monitor : Ref) (count : Nat) : ThreadM Unit := do
  modifyThe Thread fun t => { t with reacquire := none }
  let id ← threadId
  if !(← (Exec.tryEnter monitor id count : Exec Bool)) then
    blockOn monitor
    modifyThe Thread fun t => { t with reacquire := some (monitor, count) }

/-- The instruction the top frame is at, and the move to the one after it. -/
def instruction (host : Host) (id : ThreadId) : ThreadM Next :=
  onTop do
    let next ← Frame.execute host id
    modifyThe Frame (·.moved next)
    return next

/-- Executes one instruction, and does what it asks for. -/
def runInstruction (host : Host) : ThreadM Unit := do
  match ← instruction host (← threadId) with
  | .advance | .jump _ => return ()
  | .invoke r => invoke host r
  | .leave value => returnFrom value
  | .block monitor => blockOn monitor
  | .awaitInit c => awaitInit c
  | .runInitializer clinit => pushInitializer clinit

/-- One unit of work, which may fail. -/
def tryStep (host : Host) : ThreadM Unit := do
  let t ← getThe Thread
  match t.reacquire, t.frames with
  | some (monitor, count), _ => tryReacquire monitor count
  | none, [] => startEntry host
  | none, _ :: _ => runInstruction host

/-- One unit of work.  A throwable goes to its handler, and an engine error ends the thread.
    Unwinding itself throws nothing. -/
def stepThread (host : Host) : ThreadM Unit :=
  tryCatch
    (tryCatch (tryStep host) fun
      | .thrown t => unwind t
      | .fatal e => throw (.fatal e))
    fun
      | .thrown _ => return ()
      | .fatal e => abort e

end ThreadM

/-- One turn of a thread: one unit of work if it is runnable. -/
def Thread.step (host : Host) (t : Thread) : StateM Machine Thread := do
  if t.status = .runnable then
    let (_, t) ← (ThreadM.stepThread host).run.run t
    return t
  else return t

end GreenVm
