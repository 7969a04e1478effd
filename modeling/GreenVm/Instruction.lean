/-
  Decoded instructions.

  Instructions that differ only in a parameter are one constructor: the arithmetic operations by
  operation and operand kind, the six `dup` forms by how many slots are copied and skipped, the
  comparisons by what they answer for NaN.  Branch operands are byte offsets in a class file and
  instruction indices once linked; `mapTargets` is the passage from one to the other.
-/
namespace GreenVm

/-! ## Kinds -/

/-- Kind of value moved by a typed load, store or return. -/
inductive ValueKind
  | int | long | float | double | reference
  deriving DecidableEq, Repr, Inhabited

/-- Operand kind of arithmetic, shift and conversion instructions. -/
inductive NumKind
  | int | long | float | double
  deriving DecidableEq, Repr, Inhabited

/-- Element kind of array instructions.  `byte` loads and stores also serve boolean arrays. -/
inductive ArrayKind
  | boolean | byte | char | short | int | long | float | double | reference
  deriving DecidableEq, Repr, Inhabited

/-- The element kind a `newarray` operand byte stands for. -/
def ArrayKind.ofCode? : Nat → Option ArrayKind
  | 4 => some .boolean
  | 5 => some .char
  | 6 => some .float
  | 7 => some .double
  | 8 => some .byte
  | 9 => some .short
  | 10 => some .int
  | 11 => some .long
  | _ => none

/-- Integer kinds an int is narrowed to and widened back from. -/
inductive NarrowKind
  | byte | char | short
  deriving DecidableEq, Repr, Inhabited

inductive BinaryOp
  | add | sub | mul | div | rem | and | or | xor
  deriving DecidableEq, Repr, Inhabited

/-- `shr` keeps the sign, `ushr` fills with zeros. -/
inductive ShiftOp
  | shl | shr | ushr
  deriving DecidableEq, Repr, Inhabited

/-- What a floating-point comparison answers when an operand is NaN. -/
inductive NanBias
  | less | greater
  deriving DecidableEq, Repr, Inhabited

/-- Condition of a branch on the order of two ints. -/
inductive Condition
  | eq | ne | lt | ge | gt | le
  deriving DecidableEq, Repr, Inhabited

/-- Whether a condition holds of the order of its operands. -/
def Condition.holds : Condition → Ordering → Bool
  | eq, o => o.isEq
  | ne, o => o.isNe
  | lt, o => o.isLT
  | ge, o => o.isGE
  | gt, o => o.isGT
  | le, o => o.isLE

/-! ## Instructions -/

/-- A value written into an instruction; floating-point values by their bits. -/
inductive Literal
  | null
  | int (v : Int32)
  | long (v : Int64)
  | float (bits : UInt32)
  | double (bits : UInt64)
  deriving DecidableEq, Repr, Inhabited

/-- A decoded instruction.  A `constant` is an index into the constant pool, an `index` that of a
    local variable. -/
inductive Instruction
  | nop
  | literal (value : Literal)
  | loadConstant (constant : Nat)
  | load (kind : ValueKind) (index : Nat)
  | store (kind : ValueKind) (index : Nat)
  | arrayLoad (kind : ArrayKind)
  | arrayStore (kind : ArrayKind)
  /-- Drops `slots` slots. -/
  | pop (slots : Nat)
  /-- Copies the top `slots` slots beneath the `skip` slots below them. -/
  | dup (slots skip : Nat)
  | swap
  | binary (op : BinaryOp) (kind : NumKind)
  | shift (op : ShiftOp) (kind : NumKind)
  | neg (kind : NumKind)
  | increment (index : Nat) (delta : Int16)
  | convert (source target : NumKind)
  | narrow (kind : NarrowKind)
  | compareLong
  | compareFloat (bias : NanBias)
  | compareDouble (bias : NanBias)
  /-- Branches on the order of the top int to zero. -/
  | branchZero (condition : Condition) (target : Nat)
  /-- Branches on the order of the two top ints. -/
  | branchInts (condition : Condition) (target : Nat)
  /-- Branches if whether the two top references are the same is `same`. -/
  | branchSame (same : Bool) (target : Nat)
  /-- Branches if whether the top reference is null is `null`. -/
  | branchNull (null : Bool) (target : Nat)
  | goto (target : Nat)
  | jumpSubroutine (target : Nat)
  | returnSubroutine (index : Nat)
  | tableSwitch (default : Nat) (low : Int32) (targets : List Nat)
  | lookupSwitch (default : Nat) (pairs : List (Int32 × Nat))
  | leave (kind : Option ValueKind)
  | getStatic (constant : Nat)
  | putStatic (constant : Nat)
  | getField (constant : Nat)
  | putField (constant : Nat)
  | invokeVirtual (constant : Nat)
  | invokeSpecial (constant : Nat)
  | invokeStatic (constant : Nat)
  | invokeInterface (constant : Nat)
  | invokeDynamic (constant : Nat)
  | new (constant : Nat)
  | newArray (kind : ArrayKind)
  | newReferenceArray (constant : Nat)
  | newMultiArray (constant : Nat) (dimensions : Nat)
  | arrayLength
  | throwTop
  | checkCast (constant : Nat)
  | instanceOf (constant : Nat)
  | monitorEnter
  | monitorExit
  deriving DecidableEq, Repr, Inhabited

namespace Instruction

/-- Passes every branch operand through `f`, in the order in which they are written. -/
def mapTargets {m : Type → Type} [Monad m] (f : Nat → m Nat) : Instruction → m Instruction
  | branchZero c t => return branchZero c (← f t)
  | branchInts c t => return branchInts c (← f t)
  | branchSame s t => return branchSame s (← f t)
  | branchNull n t => return branchNull n (← f t)
  | goto t => return goto (← f t)
  | jumpSubroutine t => return jumpSubroutine (← f t)
  | tableSwitch d low ts => return tableSwitch (← f d) low (← ts.mapM f)
  | lookupSwitch d ps => return lookupSwitch (← f d) (← ps.mapM fun p => return (p.1, ← f p.2))
  | i => return i

/-- The branch operands of an instruction, in the order in which they are written. -/
def targets : Instruction → List Nat
  | branchZero _ t | branchInts _ t | branchSame _ t | branchNull _ t => [t]
  | goto t | jumpSubroutine t => [t]
  | tableSwitch d _ ts => d :: ts
  | lookupSwitch d ps => d :: ps.map Prod.snd
  | _ => []

end Instruction

end GreenVm
