/-
  The operations of `java/lang/Throwable`.
-/
import GreenVm.CauseChain

namespace GreenVm

open Exec

/-- Sets message and cause of the receiver. -/
def NativeCall.initThrowable (call : NativeCall) (message cause : Value) :
    Exec (Option Value) := do
  let this ← call.this
  putField this detailMessageKey message
  putField this causeKey cause
  return none

/-- A throwable object as text: its class, and its message if it has one. -/
def describe (r : Ref) : Exec String := do
  let name := (← typeOf r).name
  match ← (← getField r detailMessageKey).asReference with
  | some s => return throwableText name (some (← textOf s))
  | none => return throwableText name none

def ThrowableOp.run (op : ThrowableOp) (call : NativeCall) : Exec (Option Value) := do
  match op with
  | .init => call.initThrowable .null .null
  | .initMessage => call.initThrowable (← call.arg 0) .null
  | .initMessageCause =>
    let message ← call.arg 0
    call.initThrowable message (← call.arg 1)
  | .initWithCause =>
    match ← (← call.arg 0).asReference with
    | none => call.initThrowable .null .null
    | some cause =>
      let text ← newString (← describe cause)
      call.initThrowable (.ofRef text) (.ofRef cause)
  | .getMessage => return some (← getField (← call.this) detailMessageKey)
  | .getCause => return some (← getField (← call.this) causeKey)
  | .setCause =>
    let this ← call.this
    putField this causeKey (← call.arg 0)
    return some (.ofRef this)
  | .toString => return some (.ofRef (← newString (← describe (← call.this))))
  | .printStackTrace =>
    let this ← call.this
    print .err (thrownText ((← get).heap.thrownChain this) ++ "\n")
    return none
  | .fillInStackTrace => return some (.ofRef (← call.this))

end GreenVm
