/-
  Which objects may stand where a class is expected.
-/
import GreenVm.Class

namespace GreenVm

namespace Class

/-- Whether a class is one of that name or below it, along superclasses. -/
def isBelow (c : Class) (name : String) : Bool := c.lineage.any (·.name == name)

/-- Whether a class, or one above it, has an interface of that name. -/
def implements (c : Class) (name : String) : Bool :=
  c.ancestors.any fun k => k.interfaces.any (·.name == name)

/-- Whether an object of the first class may be stored where the second is expected.  Arrays of
    references follow their elements; arrays of primitives only match themselves; every array is an
    object, cloneable and serializable. -/
def isAssignableTo : Class → Class → Bool
  | source@⟨declared, _, _, element⟩, target =>
    if declared.name == target.name then true
    else
      match declared.component, target.declared.component with
      | some s, some t =>
        if s.isPrimitive || t.isPrimitive then s == t
        else
          match element, target.element with
          | some a, some b => a.isAssignableTo b
          | _, _ => false
      | some _, none =>
        if target.isInterface then
          target.name == ClassName.cloneable || target.name == ClassName.serializable
        else target.name == ClassName.object
      | none, _ =>
        if target.isInterface then source.implements target.name else source.isBelow target.name

end Class

end GreenVm
