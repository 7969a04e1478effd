/-
  Where the fields of a class are.

  An object has one slot per instance field of its class and of every class above, the topmost
  declarations first.  A slot answers to `Declaring.name:descriptor`, and to `name:descriptor` if no
  later slot does: a field declared again below hides the one above without removing it.
-/
import GreenVm.Class

namespace GreenVm

/-- One slot of an object. -/
structure FieldSlot where
  owner : String
  field : Field
  deriving DecidableEq, Repr, Inhabited

def FieldSlot.answersTo (s : FieldSlot) (key : String) : Bool :=
  s.field.qualifiedKey s.owner == key || s.field.key == key

/-- What a field reference means. -/
inductive FieldSite
  | instanceSlot (owner : Class) (slot : Nat)
  | staticSlot (owner : Class) (index : Nat)
  deriving Inhabited

namespace Class

/-- The slots of an object of the class.  Arrays have none. -/
def layout : Class → List FieldSlot
  | ⟨declared, superClass, _, _⟩ =>
    if declared.component.isSome then []
    else
      let inherited := match superClass with
        | some s => s.layout
        | none => []
      inherited ++ declared.instanceFields.map (⟨declared.name, ·⟩)

/-- The slot a key names: the last one that answers to it. -/
def slot? (c : Class) (key : String) : Option Nat :=
  let slots := c.layout
  (slots.reverse.findIdx? (·.answersTo key)).map fun i => slots.length - 1 - i

/-- A static field of the class or of one of its interfaces. -/
def staticSite? (name descriptor : String) (c : Class) : Option FieldSite :=
  c.withInterfaces.findSome? fun k => (k.staticIndex? name descriptor).map (.staticSlot k)

/-- What a field reference means in one class, superclasses aside. -/
def fieldSiteHere? (c : Class) (name descriptor : String) :
    Option (Except EngineError FieldSite) :=
  if c.declared.instanceFields.any (·.isNamed name descriptor) then
    let key := c.name ++ "." ++ name ++ ":" ++ descriptor
    match c.slot? key with
    | some slot => some (.ok (.instanceSlot c slot))
    | none => some (.error (.unsupported (.missingField key)))
  else (c.staticSite? name descriptor).map .ok

/-- What a field reference means: the nearest declaration, from the class upwards. -/
def fieldSite (c : Class) (name descriptor : String) : Except Fault FieldSite :=
  match c.lineage.findSome? fun k => fieldSiteHere? k name descriptor with
  | some (.ok site) => .ok site
  | some (.error e) => .error (.fatal e)
  | none => .error (.noSuchField name)

end Class

end GreenVm
