/-
  Array instructions.
-/
import GreenVm.Execute.Operands
import GreenVm.Number.Arithmetic

namespace GreenVm

/-! ## Kinds of arrays -/

/-- Whether an array with some component is one for instructions of a kind. -/
def ArrayKind.accepts (kind : ArrayKind) (component : FieldType) : Bool :=
  match kind, component with
  | .byte, .byte | .byte, .boolean | .boolean, .byte | .boolean, .boolean => true
  | .char, .char | .short, .short | .int, .int | .long, .long => true
  | .float, .float | .double, .double => true
  | .reference, t => t.isReference
  | _, _ => false

/-- Refuses an array that is not one for instructions of a kind. -/
def ArrayKind.check (kind : ArrayKind) (c : Class) : Except EngineError Unit :=
  match c.declared.component with
  | none => .error (.typeMismatch .array .object)
  | some t =>
    if kind.accepts t then .ok () else .error (.typeMismatch .matchingComponent .otherArray)

/-- The kind of the values in an array. -/
def ArrayKind.valueKind : ArrayKind → ValueKind
  | .long => .long
  | .float => .float
  | .double => .double
  | .reference => .reference
  | .boolean | .byte | .char | .short | .int => .int

/-- An int as an array of a kind keeps it. -/
def ArrayKind.narrowed (kind : ArrayKind) (v : Int32) : Int32 :=
  match kind with
  | .boolean => v &&& 1
  | .byte => NarrowKind.byte.apply v
  | .char => NarrowKind.char.apply v
  | .short => NarrowKind.short.apply v
  | _ => v

/-- The class name of the arrays of a primitive kind. -/
def ArrayKind.className? : ArrayKind → Option String
  | .boolean => some "[Z"
  | .byte => some "[B"
  | .char => some "[C"
  | .short => some "[S"
  | .int => some "[I"
  | .long => some "[J"
  | .float => some "[F"
  | .double => some "[D"
  | .reference => none

/-- The class name of the arrays of a class. -/
def arrayOf (component : String) : String :=
  if isArrayName component then "[" ++ component else "[L" ++ component ++ ";"

/-- The class name of the elements of an array of arrays. -/
def elementName (name : String) : String := String.ofList (name.toList.drop 1)

/-- How many dimensions an array class name has. -/
def dimensionsOf (name : String) : Nat := (name.toList.takeWhile (· == '[')).length

namespace Exec

/-- The value an element takes.  A reference must fit the class of the elements. -/
def storable (array : Object) (kind : ArrayKind) (v : Value) : Exec Value := do
  match kind, v, array.type.element with
  | .reference, .reference (some r), some elementClass =>
    let c ← typeOf r
    if c.isAssignableTo elementClass then return v else throw (.arrayStore c.name)
  | _, .int i, _ =>
    kind.valueKind.check false v
    return .int (kind.narrowed i)
  | _, _, _ =>
    kind.valueKind.check false v
    return v

/-- A new array with arrays inside, one dimension per length. -/
def multiArray (name : String) : List Int32 → Exec Ref
  | [] => throw (.fatal (.unsupported (.noDimensions name)))
  | [length] => newArray name length
  | length :: rest => do
    let array ← newArray name length
    (List.range length.toInt.toNat).forM fun i => do
      let element ← multiArray (elementName name) rest
      arrayStore array (Int32.ofNat i) (.ofRef element)
    return array

end Exec

namespace FrameM

def arrayLoad (kind : ArrayKind) : FrameM Unit := do
  let index ← popInt
  let array ← Exec.object (← popObject)
  kind.check array.type
  push (← array.arrayLoad index)

def arrayStore (kind : ArrayKind) : FrameM Unit := do
  let v ← pop
  let index ← popInt
  let r ← popObject
  let array ← Exec.object r
  kind.check array.type
  let v ← Exec.storable array kind v
  Exec.arrayStore r index v

/-- The name in a class reference; the class is not loaded. -/
def classNameAt (index : Nat) : FrameM String := do
  match ← constant index with
  | .classRef name => return name
  | _ => wrongConstant index .classReference

def newArray (kind : ArrayKind) : FrameM Unit := do
  let length ← popInt
  match kind.className? with
  | none => throw (.mismatch .primitiveArray .reference)
  | some name => push (.ofRef (← Exec.newArray name length))

def newReferenceArray (index : Nat) : FrameM Unit := do
  let component ← classNameAt index
  let length ← popInt
  push (.ofRef (← Exec.newArray (arrayOf component) length))

/-- Lengths that the class name has no dimension for are ignored. -/
def newMultiArray (index dimensions : Nat) : FrameM Unit := do
  let name ← classNameAt index
  let args ← takeOff (·.popArgs dimensions)
  let lengths ← args.mapM fun v => (liftM v.asInt : FrameM Int32)
  if let some negative := lengths.find? (· < 0) then
    throw (.negativeArraySize negative.toInt)
  push (.ofRef (← Exec.multiArray name (lengths.take (dimensionsOf name))))

def arrayLength : FrameM Unit := do
  let array ← Exec.object (← popObject)
  match array.arrayLength? with
  | some n => push (.int (Int32.ofNat n))
  | none => throw (.mismatch .array .object)

end FrameM

end GreenVm
