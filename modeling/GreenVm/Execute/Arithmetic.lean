/-
  Arithmetic, conversion and comparison instructions.
-/
import GreenVm.Execute.Operands
import GreenVm.Number.Arithmetic

namespace GreenVm

namespace FrameM

def binary (op : BinaryOp) (kind : NumKind) : FrameM Unit := do
  match kind with
  | .int =>
    let b ← popInt
    let a ← popInt
    push (.int (← op.onInts a b))
  | .long =>
    let b ← popLong
    let a ← popLong
    push (.long (← op.onLongs a b))
  | .float =>
    let b ← popFloat
    let a ← popFloat
    push (.float (← op.onFloats a b))
  | .double =>
    let b ← popDouble
    let a ← popDouble
    push (.double (← op.onDoubles a b))

def shift (op : ShiftOp) (kind : NumKind) : FrameM Unit := do
  let distance ← popInt
  match ← popNumber kind with
  | .int v => push (.int (op.onInt v distance))
  | .long v => push (.long (op.onLong v distance))
  | _ => throw (.fatal integerOperation)

def negate (kind : NumKind) : FrameM Unit := do
  match kind with
  | .int => push (.int (-(← popInt)))
  | .long => push (.long (-(← popLong)))
  | .float => push (.float ((← popFloat) ^^^ 0x80000000))
  | .double => push (.double ((← popDouble) ^^^ 0x8000000000000000))

def increment (index : Nat) (delta : Int16) : FrameM Unit := do
  let v ← (← load index).asInt
  store index (.int (v + delta.toInt32))

def convert (source target : NumKind) : FrameM Unit := do
  push ((← popNumber source).convert target)

def compareLongs : FrameM Unit := do
  let b ← popLong
  let a ← popLong
  push (.int (orderNumber (compare a b)))

def compareFloats (bias : NanBias) : FrameM Unit := do
  let b ← popFloat
  let a ← popFloat
  push (.int (GreenVm.compareFloats bias a b))

def compareDoubles (bias : NanBias) : FrameM Unit := do
  let b ← popDouble
  let a ← popDouble
  push (.int (GreenVm.compareDoubles bias a b))

end FrameM

end GreenVm
