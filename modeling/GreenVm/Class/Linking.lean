/-
  Linking: from a class file, and the linked classes it names, to a class.

  What is checked here concerns the class file alone: the descriptors in its pool and of its
  members, the presence of code, the code itself, and last, if asked for, that every native method
  has a native.
-/
import GreenVm.Class
import GreenVm.Native

namespace GreenVm

/-- Refuses a member reference with a bad descriptor. -/
def Constant.check : Constant → Except Fault Unit
  | field member =>
    if (FieldType.parse? member.descriptor).isSome then .ok ()
    else .error (.invalidFieldDescriptor member.descriptor)
  | method member | interfaceMethod member =>
    if (MethodDescriptor.parse? member.descriptor).isSome then .ok ()
    else .error (.invalidMethodDescriptor member.descriptor)
  | _ => .ok ()

/-- Links a field declaration.  Only static fields have a constant to start with. -/
def FieldDecl.link (className : String) (f : FieldDecl) : Except Fault Field :=
  match FieldType.parse? f.descriptor with
  | none => .error (.invalidDescriptorOfField f.descriptor className f.name)
  | some type =>
    .ok { name := f.name, type, descriptor := f.descriptor
          constantValue := if f.flags.has .staticMember then f.constantValue else none }

/-- Links a method declaration.  Exactly the methods that are neither native nor abstract have
    code. -/
def MethodDecl.link (className : String) (m : MethodDecl) : Except Fault Method := do
  let qualified := className ++ "." ++ m.name ++ m.descriptor
  let some type := MethodDescriptor.parse? m.descriptor
    | throw (.invalidDescriptorOfMethod qualified)
  let bodiless := m.flags.has .native || m.flags.has .abstract
  let code ← match m.code, bodiless with
    | some code, false => some <$> Code.link qualified code
    | none, true => pure none
    | some _, true => throw (.unwantedCode qualified)
    | none, false => throw (.missingCode qualified)
  return { flags := m.flags, name := m.name, type, descriptor := m.descriptor, code }

namespace ClassFile

/-- Links what a class declares. -/
def linkDeclaration (file : ClassFile) : Except Fault Declaration := do
  file.pool.forM Constant.check
  let fields ← file.fields.mapM fun f => return (f.flags.has .staticMember, ← f.link file.name)
  let methods ← file.methods.mapM (·.link file.name)
  return { name := file.name, flags := file.flags, pool := file.pool
           staticFields := (fields.filter (·.1)).map Prod.snd
           instanceFields := (fields.filter (!·.1)).map Prod.snd
           methods, component := none, sourceFile := file.sourceFile }

/-- Refuses a class with a native method that nobody provides. -/
def checkNatives (natives : Natives) (declared : Declaration) : Except Fault Unit :=
  declared.methods.forM fun m =>
    if m.isNative && !natives.contains declared.name m.name m.descriptor then
      throw (.nativeMissing declared.name m.name m.descriptor)
    else return ()

end ClassFile

/-- What the class of arrays with some component declares. -/
def Declaration.ofArray (name : String) (component : FieldType) : Declaration :=
  { name, flags := .ofList [.publicAccess, .final, .abstract], pool := [], staticFields := []
    instanceFields := [], methods := [], component := some component, sourceFile := none }

end GreenVm
