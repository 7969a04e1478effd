/-
  The operations of `java/lang/System`.

  `System.arraycopy` copies the longest front part of the source range whose elements the target may
  hold; only if that is all of it does the call succeed.
-/
import GreenVm.CauseChain

namespace GreenVm

open Exec

/-! ## Copying between arrays -/

/-- Whether an array with elements of a class may hold a value. -/
def Heap.mayHold (h : Heap) (elementClass : Class) : Value → Bool
  | .reference (some r) => (h.get? r).all (·.type.isAssignableTo elementClass)
  | _ => true

/-- Stores values as they are, from a place on. -/
def Object.setElements (o : Object) (place : Nat) : List Value → Object
  | [] => o
  | v :: vs => (o.setElement place v).setElements (place + 1) vs

/-- Refuses types between which nothing can be copied. -/
def checkCopyTypes (source target : Class) : Except Fault Unit :=
  match source.declared.component, target.declared.component with
  | some s, some t =>
    if (s.isPrimitive || t.isPrimitive) && s != t then
      .error (.copyTypeMismatch s.display t.display)
    else .ok ()
  | _, _ => .error .copyNotArray

/-- Refuses ranges that do not lie in the arrays. -/
def checkCopyRange (start length : Int) (size targetStart targetSize : Int) : Except Fault Unit :=
  if length < 0 then .error (.copyNegativeLength length)
  else if start < 0 ∨ size < start + length then
    .error (.copySourceRange (start + length) size.toNat)
  else if targetStart < 0 ∨ targetSize < targetStart + length then
    .error (.copyTargetRange (targetStart + length) targetSize.toNat)
  else .ok ()

/-- The front part of some values that an array may take.  An array takes all of its own values. -/
def takenBy (h : Heap) (target : Object) (itself : Bool) (values : List Value) : List Value :=
  match target.type.element with
  | some elementClass => if itself then values else values.takeWhile (h.mayHold elementClass)
  | none => values

def NativeCall.arraycopy (call : NativeCall) : Exec (Option Value) := do
  let source ← (← call.arg 0).asObject
  let start ← (← call.arg 1).asInt
  let target ← (← call.arg 2).asObject
  let targetStart ← (← call.arg 3).asInt
  let length ← (← call.arg 4).asInt
  let s ← object source
  let t ← object target
  checkCopyTypes s.type t.type
  checkCopyRange start.toInt length.toInt (s.arrayLength?.getD 0) targetStart.toInt
    (t.arrayLength?.getD 0)
  let available ← s.elements
  discard <| t.elements
  let first := start.toInt.toNat
  let values := (available.extract first (first + length.toInt.toNat)).toList
  let taken := takenBy (← get).heap t (source == target) values
  updateObject target (·.setElements targetStart.toInt.toNat taken)
  if taken.length < values.length then throw .copyElementMismatch
  return none

/-! ## The rest -/

def SystemOp.run (op : SystemOp) (call : NativeCall) : Exec (Option Value) := do
  match op with
  | .classInit =>
    for (field, stream) in [(Library.outField, Stream.out), (Library.errField, Stream.err)] do
      let r ← newObject ClassName.printStream
      updatePayload r ({ · with stream := some stream })
      discard <| putStaticByKey call.owner (field ++ ":" ++ Library.streamDescriptor) (.ofRef r)
    return none
  | .arraycopy => call.arraycopy
  | .identityHashCode =>
    let r ← (← call.arg 0).asReference
    return some (.int (match r with | some r => r.identityHash | none => 0))
  | .currentTimeMillis =>
    return some (.long (Int64.ofNat ((← get).wallClock / 1000000)))
  | .nanoTime => return some (.long (Int64.ofNat (← get).wallClock))
  | .exit =>
    Exec.exit (← (← call.arg 0).asInt)
    return none
  | .lineSeparator => return some (.ofRef (← newString "\n"))

end GreenVm
