/-
  Access flags of classes, fields and methods.

  The sixteen bits of a declaration are kept as they are, unknown bits included; a `Flag` names
  one of them, and `Flag.ofClass`, `Flag.ofField` and `Flag.ofMethod` list the known ones.
-/
namespace GreenVm

/-- One access flag: its name and its bit. -/
structure Flag where
  name : String
  bit : UInt16
  deriving DecidableEq, Repr

/-- The access flags of a declaration. -/
structure AccessFlags where
  bits : UInt16
  deriving DecidableEq, Repr, Inhabited

namespace Flag

def publicAccess : Flag := ⟨"PUBLIC", 0x0001⟩
def privateAccess : Flag := ⟨"PRIVATE", 0x0002⟩
def protectedAccess : Flag := ⟨"PROTECTED", 0x0004⟩
def staticMember : Flag := ⟨"STATIC", 0x0008⟩
def final : Flag := ⟨"FINAL", 0x0010⟩
def super : Flag := ⟨"SUPER", 0x0020⟩
def synchronized : Flag := ⟨"SYNCHRONIZED", 0x0020⟩
def volatileField : Flag := ⟨"VOLATILE", 0x0040⟩
def bridge : Flag := ⟨"BRIDGE", 0x0040⟩
def transientField : Flag := ⟨"TRANSIENT", 0x0080⟩
def varargs : Flag := ⟨"VARARGS", 0x0080⟩
def native : Flag := ⟨"NATIVE", 0x0100⟩
def interface : Flag := ⟨"INTERFACE", 0x0200⟩
def abstract : Flag := ⟨"ABSTRACT", 0x0400⟩
def strict : Flag := ⟨"STRICT", 0x0800⟩
def synthetic : Flag := ⟨"SYNTHETIC", 0x1000⟩
def annotationType : Flag := ⟨"ANNOTATION", 0x2000⟩
def enumType : Flag := ⟨"ENUM", 0x4000⟩
def moduleType : Flag := ⟨"MODULE", 0x8000⟩

def ofClass : List Flag :=
  [publicAccess, final, super, interface, abstract, synthetic, annotationType, enumType, moduleType]

def ofField : List Flag :=
  [publicAccess, privateAccess, protectedAccess, staticMember, final, volatileField,
    transientField, synthetic, enumType]

def ofMethod : List Flag :=
  [publicAccess, privateAccess, protectedAccess, staticMember, final, synchronized, bridge,
    varargs, native, abstract, strict, synthetic]

end Flag

namespace AccessFlags

def ofList (flags : List Flag) : AccessFlags :=
  ⟨flags.foldl (fun bits f => bits ||| f.bit) 0⟩

def has (flags : AccessFlags) (f : Flag) : Bool := flags.bits &&& f.bit == f.bit

/-- The flags with `f` added. -/
def insert (flags : AccessFlags) (f : Flag) : AccessFlags := ⟨flags.bits ||| f.bit⟩

/-- Those of the `known` flags that are set, in the order of `known`. -/
def names (known : List Flag) (flags : AccessFlags) : List String :=
  (known.filter flags.has).map Flag.name

/-- The flags without the bits that are not `known`. -/
def restrict (known : List Flag) (flags : AccessFlags) : AccessFlags :=
  ⟨flags.bits &&& (ofList known).bits⟩

end AccessFlags

end GreenVm
