/-
  The operations of `java/lang/String`, `java/lang/StringBuilder` and `java/io/PrintStream`.

  Lengths and positions in strings count UTF-16 code units.
-/
import GreenVm.CauseChain
import GreenVm.Decimal.FloatText
import GreenVm.Text.Utf16

namespace GreenVm

open Exec

/-- A primitive value as text. -/
def Primitive.text (v : Value) : Primitive → Except EngineError String
  | .int => return toString (← v.asInt).toInt
  | .long => return toString (← v.asLong).toInt
  | .char => return String.ofList [charOfUnit (← v.asInt).toUInt32.toUInt16]
  | .boolean => return if ← v.asBool then "true" else "false"
  | .float => return FloatFormat.single.text (← v.asFloat).toNat
  | .double => return FloatFormat.double.text (← v.asDouble).toNat

/-- The contents of the receiver, a string. -/
def NativeCall.thisText (call : NativeCall) : Exec String := do textOf (← call.this)

/-- The code unit at a position of a text. -/
def unitAt (text : String) (index : Int32) : Except Fault UInt16 :=
  let found := if index < 0 then none else unitAt? text index.toInt.toNat
  match found with
  | some u => .ok u
  | none => .error (.stringIndex index.toInt (unitCount text))

def StringOp.run (op : StringOp) (call : NativeCall) : Exec (Option Value) := do
  match op with
  | .length => return some (.int (Int32.ofNat (unitCount (← call.thisText))))
  | .isEmpty => return some (.ofBool ((← call.thisText) == ""))
  | .charAt =>
    let text ← call.thisText
    let index ← (← call.arg 0).asInt
    let u ← unitAt text index
    return some (.int u.toUInt32.toInt32)
  | .equals =>
    let text ← call.thisText
    match ← (← call.arg 0).asReference with
    | some r => return some (.ofBool ((← object r).payload.text == some text))
    | none => return some (.ofBool false)
  | .hashCode => return some (.int (stringHash (← call.thisText)))
  | .toString => return some (.ofRef (← call.this))
  | .concat =>
    let text ← call.thisText
    match ← call.stringArg 0 with
    | none => throw .nullPointer
    | some other =>
      if other == "" then return some (.ofRef (← call.this))
      else return some (.ofRef (← newString (text ++ other)))
  | .intern => return some (.ofRef (← Exec.intern (← call.thisText)))
  | .valueOf kind =>
    let text ← kind.text (← call.arg 0)
    return some (.ofRef (← newString text))

/-! ## String builders -/

/-- What the receiver, a string builder, has collected. -/
def NativeCall.collected (call : NativeCall) : Exec (Ref × String) := do
  let this ← call.this
  match (← object this).payload.buffer with
  | some text => return (this, text)
  | none => throw (.fatal (.unsupported .builderNotConstructed))

/-- Appends to the receiver, a string builder, and answers it. -/
def NativeCall.append (call : NativeCall) (text : String) : Exec (Option Value) := do
  let (this, _) ← call.collected
  updatePayload this fun p => { p with buffer := p.buffer.map (· ++ text) }
  return some (.ofRef this)

def BuilderOp.run (op : BuilderOp) (call : NativeCall) : Exec (Option Value) := do
  match op with
  | .init =>
    updatePayload (← call.this) ({ · with buffer := some "" })
    return none
  | .initString =>
    match ← call.stringArg 0 with
    | none => throw .nullPointer
    | some text =>
      updatePayload (← call.this) ({ · with buffer := some text })
      return none
  | .appendString => call.append ((← call.stringArg 0).getD "null")
  | .length =>
    let (_, text) ← call.collected
    return some (.int (Int32.ofNat (unitCount text)))
  | .toString =>
    let (_, text) ← call.collected
    return some (.ofRef (← newString text))
  | .append kind => call.append (← kind.text (← call.arg 0))

/-! ## Print streams -/

/-- Prints to the stream of the receiver. -/
def NativeCall.print (call : NativeCall) (text : String) (line : Bool) : Exec (Option Value) := do
  match (← object (← call.this)).payload.stream with
  | none => throw (.fatal (.unsupported .streamNotAttached))
  | some stream =>
    Exec.print stream (if line then text ++ "\n" else text)
    return none

def PrintOp.run (op : PrintOp) (call : NativeCall) : Exec (Option Value) := do
  match op with
  | .primitive kind line => call.print (← kind.text (← call.arg 0)) line
  | .string line => call.print ((← call.stringArg 0).getD "null") line
  | .lineEnd => call.print "" true

end GreenVm
