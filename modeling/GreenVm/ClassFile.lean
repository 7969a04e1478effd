/-
  Classes as they come from a class path: names and descriptors are text, bytecode is decoded, and
  nothing has been checked against any other class.
-/
import GreenVm.AccessFlags
import GreenVm.Instruction

namespace GreenVm

/-! ## Constants -/

/-- A symbolic reference to a field or method. -/
structure MemberRef where
  owner : String
  name : String
  descriptor : String
  deriving DecidableEq, Repr, Inhabited

/-- A constant pool entry; floating-point constants by their bits. -/
inductive Constant
  /-- The unusable entry after a `long` or `double`. -/
  | empty
  | utf8 (text : String)
  | int (v : Int32)
  | float (bits : UInt32)
  | long (v : Int64)
  | double (bits : UInt64)
  | classRef (name : String)
  | string (text : String)
  | field (member : MemberRef)
  | method (member : MemberRef)
  | interfaceMethod (member : MemberRef)
  | nameAndType (name descriptor : String)
  | methodHandle (kind : Nat) (constant : Nat)
  | methodType (descriptor : String)
  | invokeDynamic (bootstrap : Nat) (name descriptor : String)
  deriving DecidableEq, Repr, Inhabited

/-- Whether a constant takes two entries of the pool. -/
def Constant.isWide : Constant → Bool
  | long _ | double _ => true
  | _ => false

/-- The entry of a pool at an index; indices start at 1. -/
def poolEntry? (pool : List Constant) : Nat → Option Constant
  | 0 => none
  | i + 1 => pool[i]?

/-! ## Code -/

/-- An entry of an exception table, in byte offsets.  `catchType` 0 matches any throwable. -/
structure HandlerDecl where
  startOffset : Nat
  endOffset : Nat
  handlerOffset : Nat
  catchType : Nat
  deriving DecidableEq, Repr, Inhabited

/-- The body of a method: instructions with their byte offsets, exception table, and line numbers
    with the offset each starts at. -/
structure CodeDecl where
  maxStack : Nat
  maxLocals : Nat
  instructions : List (Nat × Instruction)
  handlers : List HandlerDecl := []
  lines : List (Nat × Nat) := []
  deriving DecidableEq, Repr, Inhabited

/-- Code laid out one offset per instruction, so that branch operands and handler ranges are plain
    instruction indices. -/
def CodeDecl.ofList (maxStack maxLocals : Nat) (instructions : List Instruction) : CodeDecl :=
  { maxStack, maxLocals, instructions := (List.range instructions.length).zip instructions }

/-! ## Classes -/

structure FieldDecl where
  flags : AccessFlags
  name : String
  descriptor : String
  /-- Pool index of the value a static field starts with. -/
  constantValue : Option Nat := none
  deriving DecidableEq, Repr, Inhabited

structure MethodDecl where
  flags : AccessFlags
  name : String
  descriptor : String
  code : Option CodeDecl := none
  deriving DecidableEq, Repr, Inhabited

/-- A class as a class path serves it. -/
structure ClassFile where
  name : String
  superClass : Option String
  interfaces : List String := []
  flags : AccessFlags
  pool : List Constant := []
  fields : List FieldDecl := []
  methods : List MethodDecl := []
  sourceFile : Option String := none
  deriving DecidableEq, Repr, Inhabited

namespace ClassFile

def constant? (file : ClassFile) (index : Nat) : Option Constant := poolEntry? file.pool index

def isInterface (file : ClassFile) : Bool := file.flags.has .interface

end ClassFile

end GreenVm
