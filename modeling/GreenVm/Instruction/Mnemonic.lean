/-
  Mnemonics: how listings name instructions, and the kinds and conditions in them.

  Instructions that take the same operands share a table, from a name to the instruction with these
  operands.
-/
import GreenVm.Instruction

namespace GreenVm

/-- What some names stand for. -/
abbrev NameTable (α : Type) := List (String × α)

namespace NameTable

variable {α : Type}

/-- What a name stands for. -/
def find? (table : NameTable α) (name : String) : Option α :=
  (List.find? (fun e => e.1 == name) table).map Prod.snd

/-- The first name of what has a property. -/
def nameWhere? (table : NameTable α) (is : α → Bool) : Option String :=
  (List.find? (fun e => is e.2) table).map Prod.fst

end NameTable

/-! ## Kinds -/

def ValueKind.names : NameTable ValueKind :=
  [("int", .int), ("long", .long), ("float", .float), ("double", .double), ("ref", .reference)]

def NumKind.names : NameTable NumKind :=
  [("int", .int), ("long", .long), ("float", .float), ("double", .double)]

def ArrayKind.names : NameTable ArrayKind :=
  [("boolean", .boolean), ("byte", .byte), ("char", .char), ("short", .short), ("int", .int),
    ("long", .long), ("float", .float), ("double", .double), ("ref", .reference)]

def Condition.names : NameTable Condition :=
  [("eq", .eq), ("ne", .ne), ("lt", .lt), ("ge", .ge), ("gt", .gt), ("le", .le)]

/-! ## Instructions -/

/-- Instructions without operands. -/
def Instruction.plain : NameTable Instruction :=
  [("nop", .nop), ("aconst_null", .literal .null), ("pop", .pop 1), ("pop2", .pop 2),
    ("dup", .dup 1 0), ("dup_x1", .dup 1 1), ("dup_x2", .dup 1 2), ("dup2", .dup 2 0),
    ("dup2_x1", .dup 2 1), ("dup2_x2", .dup 2 2), ("swap", .swap), ("i2b", .narrow .byte),
    ("i2c", .narrow .char), ("i2s", .narrow .short), ("lcmp", .compareLong),
    ("fcmpl", .compareFloat .less), ("fcmpg", .compareFloat .greater),
    ("dcmpl", .compareDouble .less), ("dcmpg", .compareDouble .greater),
    ("arraylength", .arrayLength), ("athrow", .throwTop), ("monitorenter", .monitorEnter),
    ("monitorexit", .monitorExit), ("return", .leave none)]

/-- Instructions whose only operand is a kind of number. -/
def Instruction.onNumbers : NameTable (NumKind → Instruction) :=
  [("add", .binary .add), ("sub", .binary .sub), ("mul", .binary .mul), ("div", .binary .div),
    ("rem", .binary .rem), ("and", .binary .and), ("or", .binary .or), ("xor", .binary .xor),
    ("neg", .neg), ("shl", .shift .shl), ("shr", .shift .shr), ("ushr", .shift .ushr)]

/-- Branches whose only operand is their target. -/
def Instruction.onTarget : NameTable (Nat → Instruction) :=
  [("if_acmpeq", .branchSame true), ("if_acmpne", .branchSame false), ("ifnull", .branchNull true),
    ("ifnonnull", .branchNull false), ("goto", .goto), ("jsr", .jumpSubroutine)]

/-- Instructions whose only operand is an index, of a constant or a local variable. -/
def Instruction.onIndex : NameTable (Nat → Instruction) :=
  [("ldc", .loadConstant), ("ret", .returnSubroutine), ("getstatic", .getStatic),
    ("putstatic", .putStatic), ("getfield", .getField), ("putfield", .putField),
    ("invokevirtual", .invokeVirtual), ("invokespecial", .invokeSpecial),
    ("invokestatic", .invokeStatic), ("invokeinterface", .invokeInterface),
    ("invokedynamic", .invokeDynamic), ("new", .new), ("anewarray", .newReferenceArray),
    ("checkcast", .checkCast), ("instanceof", .instanceOf)]

end GreenVm
