/-
  Instructions that refer to classes, fields and methods.

  A reference is resolved each time it is used: classes never change once they are linked, so what
  it means does not either.
-/
import GreenVm.Execute.Operands

namespace GreenVm

/-! ## Resolution -/

namespace Exec

/-- What a field reference in the code of a class means. -/
def resolveField (current : Class) (index : Nat) : Exec FieldSite := do
  match ← current.constant index with
  | .field member =>
    let owner ← mentioned current member.owner
    owner.fieldSite member.name member.descriptor
  | _ => throw (.fatal (.invalidConstant current.name index .fieldReference))

/-- What a method reference in the code of a class means. -/
def resolveMethod (current : Class) (index : Nat) : Exec MethodRef := do
  match ← current.constant index with
  | .method member | .interfaceMethod member =>
    let owner ← mentioned current member.owner
    match owner.findMethod? member.name member.descriptor with
    | some r => return r
    | none => throw (.noSuchMethod owner.name member.name member.descriptor)
  | _ => throw (.fatal (.invalidConstant current.name index .methodReference))

end Exec

/-- The method a special call runs: that of the reference, except that a call to a method of a class
    above runs the nearest one above the calling class. -/
def specialTarget (current : Class) (resolved : MethodRef) : MethodRef :=
  let m := resolved.method
  if m.name = "<init>" ∨ m.isPrivate ∨ resolved.owner.isInterface ∨
      resolved.owner.name = current.name ∨ !current.isBelow resolved.owner.name then resolved
  else
    match current.superClass with
    | some s => (s.findMethod? m.name m.descriptor).getD resolved
    | none => resolved

/-- The method a call on an object of some class runs: private methods are those of the reference,
    others are selected by the class of the object. -/
def virtualTarget (receiver : Class) (resolved : MethodRef) : MethodRef :=
  if resolved.method.isPrivate then resolved
  else (receiver.findMethod? resolved.method.name resolved.method.descriptor).getD resolved

namespace FrameM

/-- The class a pool entry refers to. -/
def classAt (index : Nat) : FrameM Class := do Exec.classAt (← owner) index

/-- Goes on once a class is ready for use. -/
def whenReady (host : Host) (thread : ThreadId) (c : Class) (use : FrameM Next) : FrameM Next := do
  match ← (Exec.readyClass host thread c : Exec Readiness) with
  | .ready => use
  | .await c => return .awaitInit c
  | .runInitializer clinit => return .runInitializer clinit

/-! ## Fields -/

def staticSite (index : Nat) : FrameM (Class × Nat) := do
  match ← (Exec.resolveField (← owner) index : Exec FieldSite) with
  | .staticSlot c i => return (c, i)
  | .instanceSlot .. => throw .staticFieldExpected

def instanceSite (index : Nat) : FrameM (Class × Nat) := do
  match ← (Exec.resolveField (← owner) index : Exec FieldSite) with
  | .instanceSlot c slot => return (c, slot)
  | .staticSlot .. => throw .instanceFieldExpected

def getStatic (host : Host) (thread : ThreadId) (index : Nat) : FrameM Next := do
  let (c, i) ← staticSite index
  whenReady host thread c do
    push (← Exec.getStatic c i)
    return .advance

def putStatic (host : Host) (thread : ThreadId) (index : Nat) : FrameM Next := do
  let (c, i) ← staticSite index
  whenReady host thread c do
    Exec.setStatic c i (← pop)
    return .advance

/-- The object on top of the stack, which must have the fields of a class. -/
def popHolder (declaring : Class) : FrameM (Ref × Object) := do
  let r ← popObject
  let o ← Exec.object r
  if o.type.isBelow declaring.name then return (r, o)
  else throw (.foreignField o.type.name declaring.name)

def getField (index : Nat) : FrameM Unit := do
  let (declaring, slot) ← instanceSite index
  let (_, o) ← popHolder declaring
  push (← o.getSlot slot)

def putField (index : Nat) : FrameM Unit := do
  let (declaring, slot) ← instanceSite index
  let v ← pop
  let (r, o) ← popHolder declaring
  Exec.setObject r (← o.putSlot slot v)

/-! ## Calls -/

/-- The receiver of a call that takes so many entries; it stays where it is. -/
def receiver (arguments : Nat) : FrameM Ref := do
  match arguments with
  | 0 => throw (.fatal .stackUnderflow)
  | n + 1 => (← peek n).asObject

def invokeStatic (host : Host) (thread : ThreadId) (index : Nat) : FrameM Next := do
  let method ← Exec.resolveMethod (← owner) index
  if !method.method.isStatic then throw (.staticMethodExpected method.qualifiedName)
  whenReady host thread method.owner (return .invoke method)

def invokeSpecial (index : Nat) : FrameM Next := do
  let current ← owner
  let method := specialTarget current (← Exec.resolveMethod current index)
  discard <| receiver method.method.argumentCount
  return .invoke method

def invokeVirtual (index : Nat) : FrameM Next := do
  let resolved ← Exec.resolveMethod (← owner) index
  if resolved.method.isStatic then throw (.instanceMethodExpected resolved.qualifiedName)
  let c ← Exec.typeOf (← receiver resolved.method.argumentCount)
  if resolved.owner.isInterface && !c.isAssignableTo resolved.owner then
    throw (.interfaceNotImplemented c.name resolved.owner.name)
  return .invoke (virtualTarget c resolved)

/-- Call sites that are computed at run time are not supported. -/
def invokeDynamic (index : Nat) : FrameM Next := do
  match ← constant index with
  | .invokeDynamic _ name _ => throw (.noBootstrap name)
  | _ => wrongConstant index .callSite

/-! ## Objects and classes -/

/-- A class that has no objects is refused before it is initialized. -/
def new (host : Host) (thread : ThreadId) (index : Nat) : FrameM Next := do
  let c ← classAt index
  let create : FrameM Next := do
    push (.ofRef (← Exec.instantiate c))
    return .advance
  if c.isInterface || c.isAbstract then create else whenReady host thread c create

def checkCast (index : Nat) : FrameM Unit := do
  match ← (← peek 0).asReference with
  | none => return ()
  | some r =>
    let target ← classAt index
    let c ← Exec.typeOf r
    if !c.isAssignableTo target then throw (.classCast c.name target.name)

def instanceOf (index : Nat) : FrameM Unit := do
  match ← popReference with
  | none => push (.ofBool false)
  | some r =>
    let target ← classAt index
    push (.ofBool ((← Exec.typeOf r).isAssignableTo target))

/-- Pushes a constant.  Strings and classes are the one object for their text or name. -/
def loadConstant (index : Nat) : FrameM Unit := do
  let current ← owner
  match ← constant index with
  | .int v => push (.int v)
  | .float bits => push (.float bits)
  | .long v => push (.long v)
  | .double bits => push (.double bits)
  | .string text => push (.ofRef (← Exec.intern text))
  | .classRef name =>
    let c ← Exec.mentioned current name
    push (.ofRef (← Exec.classObject c))
  | .methodHandle .. | .methodType _ => throw .methodHandleConstant
  | _ => wrongConstant index .loadable

end FrameM

end GreenVm
