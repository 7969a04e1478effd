/-
  Operand stacks: typed entries, bounded in slots.

  The stack counts entries, the bound counts slots; `depth` keeps the number of slots in use.
-/
import GreenVm.Value

namespace GreenVm

/-- An operand stack, the top entry first. -/
structure OperandStack where
  values : List Value := []
  /-- Slots in use. -/
  depth : Nat := 0
  max : Nat
  deriving DecidableEq, Repr, Inhabited

/-- Slots taken by all of some values. -/
def totalSlots (vs : List Value) : Nat := vs.foldr (fun v n => v.slots + n) 0

namespace OperandStack

def ofMax (max : Nat) : OperandStack := { max }

def push (s : OperandStack) (v : Value) : Except EngineError OperandStack :=
  if s.depth + v.slots ≤ s.max then
    .ok { s with values := v :: s.values, depth := s.depth + v.slots }
  else .error (.stackOverflow s.max)

/-- Pushes the values of a list, the first one first. -/
def pushAll (s : OperandStack) (vs : List Value) : Except EngineError OperandStack :=
  vs.foldlM push s

def pop (s : OperandStack) : Except EngineError (Value × OperandStack) :=
  match s.values with
  | [] => .error .stackUnderflow
  | v :: rest => .ok (v, { s with values := rest, depth := s.depth - v.slots })

/-- The entry `n` below the top. -/
def peek (s : OperandStack) (n : Nat) : Except EngineError Value :=
  match s.values[n]? with
  | some v => .ok v
  | none => .error .stackUnderflow

/-- Takes the top `n` entries, the deepest first. -/
def popArgs (s : OperandStack) (n : Nat) : Except EngineError (List Value × OperandStack) :=
  if s.values.length < n then .error .stackUnderflow
  else
    let args := (s.values.take n).reverse
    .ok (args, { s with values := s.values.drop n, depth := s.depth - totalSlots args })

/-- Takes entries that fill exactly so many slots, the deepest first.  It is an error to cut a wide
    value. -/
def popSlots (s : OperandStack) : Nat → Except EngineError (List Value × OperandStack)
  | 0 => .ok ([], s)
  | 1 => do
    let (v, s) ← s.pop
    if v.isWide then throw (.typeMismatch .category1 .category2)
    return ([v], s)
  | n + 2 => do
    let (v, s) ← s.pop
    let (below, s) ← if v.isWide then s.popSlots n else s.popSlots (n + 1)
    return (below ++ [v], s)

/-- Copies the top `slots` slots beneath the `skip` slots below them. -/
def dup (s : OperandStack) (slots skip : Nat) : Except EngineError OperandStack := do
  let (top, s) ← s.popSlots slots
  let (below, s) ← s.popSlots skip
  let s ← s.pushAll top
  let s ← s.pushAll below
  s.pushAll top

/-- Exchanges the two top one-slot entries. -/
def swap (s : OperandStack) : Except EngineError OperandStack := do
  let (top, s) ← s.popSlots 1
  let (below, s) ← s.popSlots 1
  let s ← s.pushAll top
  s.pushAll below

def clear (s : OperandStack) : OperandStack := { s with values := [], depth := 0 }

end OperandStack

end GreenVm
