/-
  Linked code: branch operands and handler ranges are instruction indices instead of byte offsets.

  `Code.link` does the passage and refuses code in which an offset names no instruction.
-/
import GreenVm.ClassFile
import GreenVm.Fault

namespace GreenVm

/-- A linked exception table entry: instructions `start ≤ pc < stop` are covered. -/
structure Handler where
  start : Nat
  stop : Nat
  handler : Nat
  /-- Pool index of the class it catches; `none` catches everything. -/
  catchType : Option Nat
  deriving DecidableEq, Repr, Inhabited

def Handler.covers (h : Handler) (pc : Nat) : Bool := h.start ≤ pc && pc < h.stop

/-- The linked body of a method. -/
structure Code where
  maxStack : Nat
  maxLocals : Nat
  instructions : Array Instruction
  offsets : List Nat
  handlers : List Handler
  /-- First instruction and line number, in order. -/
  lines : List (Nat × Nat)
  deriving DecidableEq, Repr, Inhabited

namespace Code

/-- The line an instruction belongs to. -/
def lineOf? (code : Code) (pc : Nat) : Option Nat :=
  (code.lines.takeWhile fun l => l.1 ≤ pc).getLast?.map Prod.snd

/-- Whether each offset is below the next. -/
def ascending (offsets : List Nat) : Bool :=
  (offsets.zip offsets.tail).all fun p => p.1 < p.2

/-- The instruction at a byte offset. -/
def indexOf? (offsets : List Nat) (offset : Nat) : Option Nat := offsets.idxOf? offset

/-- Turns the branch operands of an instruction into indices. -/
def linkInstruction (method : String) (offsets : List Nat) (i : Instruction) :
    Except EngineError Instruction :=
  i.mapTargets fun target =>
    match indexOf? offsets target with
    | some index => .ok index
    | none => .error (.invalidBranchTarget method target)

/-- The instruction a range that stops at a byte offset stops before.  A range may reach past the
    last instruction. -/
def linkStop? (offsets : List Nat) (offset : Nat) : Option Nat :=
  match indexOf? offsets offset with
  | some stop => some stop
  | none => if offsets.getLast?.any (· < offset) then some offsets.length else none

def linkHandler (method : String) (offsets : List Nat) (h : HandlerDecl) :
    Except EngineError Handler := do
  let malformed := EngineError.malformedExceptionTable method
  let some start := indexOf? offsets h.startOffset
    | throw (malformed (.strayStart h.startOffset))
  let some stop := linkStop? offsets h.endOffset
    | throw (malformed (.strayEnd h.endOffset))
  if stop ≤ start then throw (malformed (.emptyRange h.startOffset h.endOffset))
  let some handler := indexOf? offsets h.handlerOffset
    | throw (malformed (.strayHandler h.handlerOffset))
  return { start, stop, handler, catchType := if h.catchType = 0 then none else some h.catchType }

/-- The order of line number entries: by instruction, then by line. -/
def lineOrder (a b : Nat × Nat) : Bool := a.1 < b.1 || (a.1 == b.1 && a.2 ≤ b.2)

/-- Links the body of a method; `method` names it in errors. -/
def link (method : String) (code : CodeDecl) : Except EngineError Code := do
  let offsets := code.instructions.map Prod.fst
  if !ascending offsets then throw (.unsupported (.offsetsNotAscending method))
  let instructions ← code.instructions.mapM fun p => linkInstruction method offsets p.2
  let handlers ← code.handlers.mapM (linkHandler method offsets)
  let lines := code.lines.filterMap fun l => (indexOf? offsets l.1).map (·, l.2)
  return { maxStack := code.maxStack, maxLocals := code.maxLocals,
           instructions := instructions.toArray, offsets, handlers,
           lines := lines.mergeSort lineOrder }

end Code

end GreenVm
