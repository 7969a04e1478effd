/-
  The heap: objects in the order in which they were allocated.

  An object has its class, its fields or elements, a monitor, and a payload of what the machine
  attaches to objects of certain classes.  Its identity hash is its number, counted from 1.
-/
import GreenVm.Class.Fields
import GreenVm.Class.Subtyping
import GreenVm.Monitor
import GreenVm.Text.Quoted

namespace GreenVm

/-! ## Objects -/

inductive Stream
  | out | err
  deriving DecidableEq, Repr, Inhabited

/-- What the machine attaches to an object. -/
structure Payload where
  /-- The contents of a string. -/
  text : Option String := none
  /-- The class a class object stands for. -/
  represents : Option Class := none
  /-- The stream a print stream writes to. -/
  stream : Option Stream := none
  /-- What a string builder has collected. -/
  buffer : Option String := none
  /-- The thread a thread object stands for. -/
  thread : Option ThreadId := none
  /-- Whether the thread of a thread object was started. -/
  started : Bool := false
  deriving Inhabited

inductive Body
  | fields (slots : Array Value)
  | elements (values : Array Value)
  deriving DecidableEq, Repr, Inhabited

/-- Sets an element of an array. -/
def Body.setElement : Body → Nat → Value → Body
  | elements values, i, v => elements (values.setIfInBounds i v)
  | fields slots, _, _ => fields slots

/-- A heap object. -/
structure Object where
  type : Class
  body : Body
  monitor : Monitor := {}
  payload : Payload := {}
  deriving Inhabited

namespace Object

/-- An object of a class with every field at its default. -/
def ofClass (c : Class) (payload : Payload) : Object :=
  { type := c, payload
    body := .fields (c.layout.map fun s => Value.default s.field.type).toArray }

/-- An array with every element at its default. -/
def ofArrayClass (c : Class) (length : Nat) : Object :=
  { type := c
    body := .elements (Array.replicate length ((c.declared.component.map .default).getD .null)) }

def isArray (o : Object) : Bool :=
  match o.body with
  | .elements _ => true
  | .fields _ => false

/-! ### Fields -/

/-- The slot a field key names. -/
def fieldSlot (o : Object) (key : String) : Except Fault Nat :=
  match o.type.slot? key with
  | some slot => .ok slot
  | none => .error (.noSuchFieldKey o.type.name key)

def getSlot (o : Object) (slot : Nat) : Except EngineError Value :=
  match o.body with
  | .elements _ => .error (.typeMismatch .object .array)
  | .fields slots =>
    match slots[slot]? with
    | some v => .ok v
    | none => .error (.typeMismatch .declaredField .foreignSlot)

def putSlot (o : Object) (slot : Nat) (v : Value) : Except EngineError Object :=
  match o.body with
  | .elements _ => .error (.typeMismatch .object .array)
  | .fields slots =>
    if slot < slots.size then .ok { o with body := .fields (slots.setIfInBounds slot v) }
    else .error (.typeMismatch .declaredField .foreignSlot)

/-- The field with a key `name:descriptor` or `Declaring.name:descriptor`. -/
def getField (o : Object) (key : String) : Except Fault Value := do
  let slot ← o.fieldSlot key
  o.getSlot slot

def putField (o : Object) (key : String) (v : Value) : Except Fault Object := do
  let slot ← o.fieldSlot key
  o.putSlot slot v

/-! ### Elements -/

def elements (o : Object) : Except EngineError (Array Value) :=
  match o.body with
  | .elements values => .ok values
  | .fields _ => .error (.typeMismatch .array .object)

def arrayLength? (o : Object) : Option Nat :=
  match o.body with
  | .elements values => some values.size
  | .fields _ => none

/-- An index into an array of some length. -/
def checkedIndex (index : Int32) (length : Nat) : Except Fault Nat :=
  if 0 ≤ index.toInt ∧ index.toInt < length then .ok index.toInt.toNat
  else .error (.arrayIndex index.toInt length)

def arrayLoad (o : Object) (index : Int32) : Except Fault Value := do
  let values ← o.elements
  let i ← checkedIndex index values.size
  return values[i]?.getD .top

/-- The place of the element at an index. -/
def elementPlace (o : Object) (index : Int32) : Except Fault Nat := do
  let values ← o.elements
  checkedIndex index values.size

/-- Stores an element as it is. -/
def setElement (o : Object) (place : Nat) (v : Value) : Object :=
  { o with body := o.body.setElement place v }

/-- An object with the same fields or elements, and nothing else of this one. -/
def duplicate (o : Object) : Object := { type := o.type, body := o.body }

end Object

/-! ## Identity -/

/-- The identity hash of an object. -/
def Ref.identityHash (r : Ref) : Int32 := Int32.ofNat (r.index + 1)

/-- The identity hash in hexadecimal. -/
def Ref.hashText (r : Ref) : String := hexDigits r.identityHash.toUInt32.toNat

/-! ## The heap -/

/-- All objects allocated so far. -/
structure Heap where
  objects : Array Object := #[]
  deriving Inhabited

namespace Heap

def get? (h : Heap) (r : Ref) : Option Object := h.objects[r.index]?

/-- Changes an object. -/
def update (h : Heap) (r : Ref) (f : Object → Object) : Heap :=
  ⟨h.objects.modify r.index f⟩

/-- Adds an object. -/
def allocate (h : Heap) (o : Object) : Ref × Heap := (⟨h.objects.size⟩, ⟨h.objects.push o⟩)

end Heap

end GreenVm
