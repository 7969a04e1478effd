/-
  Assembling a class in memory.

  The operations take the class built so far and return it extended; those that need a constant
  also return its pool index.  Asking for a constant that the pool already has returns the index it
  has there: constants are compared by value, so that `0.0` and `-0.0` are one constant and a NaN
  is never found.
-/
import GreenVm.ClassFile
import GreenVm.ClassName
import GreenVm.Number.Format

namespace GreenVm

/-- Whether two constants have the same value.  Floating-point numbers are compared as numbers. -/
def Constant.sameValue : Constant → Constant → Bool
  | float a, float b => FloatFormat.single.numericEq a.toNat b.toNat
  | double a, double b => FloatFormat.double.numericEq a.toNat b.toNat
  | a, b => a == b

namespace ClassFile

/-! ## Starting points -/

/-- A public class below `java/lang/Object`. -/
def ofClass (name : String) : ClassFile :=
  { name, superClass := some ClassName.object, flags := .ofList [.publicAccess, .super] }

/-- A public interface. -/
def ofInterface (name : String) : ClassFile :=
  { ofClass name with flags := .ofList [.publicAccess, .interface, .abstract] }

/-! ## The class itself -/

def extending (file : ClassFile) (superClass : String) : ClassFile :=
  { file with superClass := some superClass }

/-- The class without a superclass. -/
def asRoot (file : ClassFile) : ClassFile := { file with superClass := none }

def implementing (file : ClassFile) (interface : String) : ClassFile :=
  { file with interfaces := file.interfaces ++ [interface] }

def withFlags (file : ClassFile) (flags : AccessFlags) : ClassFile := { file with flags }

def withSource (file : ClassFile) (sourceFile : String) : ClassFile :=
  { file with sourceFile := some sourceFile }

/-! ## Constants -/

/-- The pool index of a constant, which is appended if the pool has none of that value.  A wide
    constant is followed by an empty entry. -/
def addConstant (file : ClassFile) (c : Constant) : ClassFile × Nat :=
  match file.pool.findIdx? (·.sameValue c) with
  | some i => (file, i + 1)
  | none =>
    let padding := if c.isWide then [.empty] else []
    ({ file with pool := file.pool ++ c :: padding }, file.pool.length + 1)

/-! ## Members -/

def addField (file : ClassFile) (flags : AccessFlags) (name descriptor : String) : ClassFile :=
  { file with fields := file.fields ++ [{ flags, name, descriptor }] }

/-- A public constant: a static field that starts with a pool constant. -/
def addConstantField (file : ClassFile) (name descriptor : String) (value : Constant) : ClassFile :=
  let (file, index) := file.addConstant value
  let flags := .ofList [.publicAccess, .staticMember, .final]
  { file with fields := file.fields ++ [{ flags, name, descriptor, constantValue := some index }] }

def addMethod (file : ClassFile) (flags : AccessFlags) (name descriptor : String)
    (code : CodeDecl) : ClassFile :=
  { file with methods := file.methods ++ [{ flags, name, descriptor, code := some code }] }

def addNative (file : ClassFile) (flags : AccessFlags) (name descriptor : String) : ClassFile :=
  { file with methods := file.methods ++ [{ flags := flags.insert .native, name, descriptor }] }

def addAbstract (file : ClassFile) (name descriptor : String) : ClassFile :=
  let flags := .ofList [.publicAccess, .abstract]
  { file with methods := file.methods ++ [{ flags, name, descriptor }] }

end ClassFile

end GreenVm
