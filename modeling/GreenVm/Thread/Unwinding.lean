/-
  What a thread does with its frames: pushing and popping them, ending, and looking for the handler
  of a throwable.

  A frame that is left, in whatever way, releases the monitors it still holds.  A class whose
  initializer is left by a throwable or an engine error has failed.
-/
import GreenVm.Execute

namespace GreenVm

/-- Work on a thread and on the machine; both keep what was done before a failure. -/
abbrev ThreadM := ExceptT Fault (StateT Thread (StateM Machine))

instance : MonadLift Exec ThreadM where
  monadLift x := ExceptT.mk (StateT.lift x.run)

namespace ThreadM

/-! ## Frames -/

def topFrame : ThreadM Frame := do
  match (← getThe Thread).frames with
  | f :: _ => return f
  | [] => throw (.fatal (.unsupported .noFrame))

/-- Does something to the top frame and puts back what became of it. -/
def onTop {α : Type} (x : FrameM α) : ThreadM α :=
  ExceptT.mk fun t m =>
    match t.takeTop with
    | (none, t) => ((.error (.fatal (.unsupported .noFrame)), t), m)
    | (some f, t) =>
      let ((result, f), m) := (x.run.run f).run m
      ((result, t.putTop f), m)

/-- Replaces the top frame. -/
def setTop (f : Frame) : ThreadM Unit :=
  modifyThe Thread fun t => { t with frames := f :: t.frames.tail }

def pushFrame (f : Frame) : ThreadM Unit :=
  modifyThe Thread fun t => { t with frames := f :: t.frames, depth := t.depth + 1 }

/-- Releases monitors, in their order. -/
def releaseAll (rs : List Ref) : ThreadM Unit := do
  let id := (← getThe Thread).id
  rs.forM fun r => (Exec.release id r : Exec Unit)

/-- Leaves the frame `f`, the first of the frames, and keeps the `rest`. -/
def leaveFrame (f : Frame) (rest : List Frame) : ThreadM Unit := do
  modifyThe Thread fun t => { t with frames := rest, depth := t.depth - 1 }
  releaseAll f.monitors

/-! ## Status -/

def terminate (completion : Completion) : ThreadM Unit :=
  modifyThe Thread fun t =>
    { t with status := .terminated, blocker := none, completion := some completion }

def blockOn (monitor : Ref) : ThreadM Unit :=
  modifyThe Thread fun t => { t with status := .blocked, blocker := some (.monitor monitor) }

def awaitInit (c : Class) : ThreadM Unit :=
  modifyThe Thread fun t => { t with status := .waiting, blocker := some (.classInit c) }

/-! ## Unwinding -/

end ThreadM

namespace Exec

/-- The first of some exception table entries that accepts an object of a class.  An entry whose
    class cannot be loaded accepts nothing. -/
def acceptingHandler? (owner thrown : Class) : List Handler → Exec (Option Nat)
  | [] => return none
  | h :: hs => do
    match h.catchType with
    | none => return some h.handler
    | some index =>
      match ← attempt (classAt owner index) with
      | .ok c =>
        if thrown.isAssignableTo c then return some h.handler
        else acceptingHandler? owner thrown hs
      | .error _ => acceptingHandler? owner thrown hs

/-- Where a frame handles a throwable.  Entries are tried in their order, so that an inner handler
    that comes before an outer one hides it. -/
def findHandler? (f : Frame) (r : Ref) : Exec (Option Nat) := do
  acceptingHandler? f.owner (← typeOf r) f.coveringHandlers

end Exec

namespace ThreadM

/-- Hands an object to the nearest handler, from the first of the thread's frames on.  If there is
    none the thread ends. -/
def unwindFrom (r : Ref) : List Frame → ThreadM Unit
  | [] => do
    modifyThe Thread fun t => { t with entry := none }
    let m ← (get : Exec Machine)
    terminate (.threw (m.heap.thrownChain r))
  | f :: rest => do
    match ← (Exec.findHandler? f r : Exec (Option Nat)) with
    | some handler =>
      let stack ← f.stack.clear.push (.ofRef r)
      setTop { f with stack, pc := handler }
    | none =>
      leaveFrame f rest
      match f.kind with
      | .method => unwindFrom r rest
      | .classInit =>
        (Exec.setInit f.owner .failed : Exec Unit)
        let r' ← (Exec.initializerFailure r : Exec Ref)
        unwindFrom r' rest

/-- Transfers control to the nearest handler of a throwable. -/
def unwind (t : Throwable) : ThreadM Unit := do
  let r ← (Exec.materialize t : Exec Ref)
  unwindFrom r (← getThe Thread).frames

/-- Leaves all frames. -/
def leaveAll : List Frame → ThreadM Unit
  | [] => return ()
  | f :: rest => do
    leaveFrame f rest
    if f.kind = .classInit then (Exec.setInit f.owner .failed : Exec Unit)
    leaveAll rest

/-- Ends the thread with an engine error. -/
def abort (e : EngineError) : ThreadM Unit := do
  leaveAll (← getThe Thread).frames
  modifyThe Thread fun t => { t with entry := none, reacquire := none }
  terminate (.aborted e)

end ThreadM

end GreenVm
