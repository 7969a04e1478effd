/-
  Green threads: what one is made of, what it can wait for, how it ends, and what a step of it asks
  of the scheduler.
-/
import GreenVm.Frame
import GreenVm.Heap

namespace GreenVm

/-! ## Endings -/

/-- One throwable of a cause chain: its class and its message. -/
structure ThrownLink where
  className : String
  message : Option String
  deriving DecidableEq, Repr, Inhabited

/-- A cause chain as text. -/
def thrownText (chain : List ThrownLink) : String :=
  String.intercalate "\nCaused by: " (chain.map fun l => throwableText l.className l.message)

/-- How a thread ended. -/
inductive Completion
  | returned (value : Option Value)
  /-- An uncaught throwable, followed by its causes. -/
  | threw (chain : List ThrownLink)
  /-- A rule of the machine was violated. -/
  | aborted (error : EngineError)
  deriving DecidableEq, Repr, Inhabited

/-! ## Waiting -/

inductive ThreadStatus
  | runnable
  /-- Waiting to enter a monitor. -/
  | blocked
  /-- Waiting for anything else. -/
  | waiting
  | terminated
  deriving DecidableEq, Repr, Inhabited

/-- Why a thread is not runnable. -/
inductive Blocker
  | monitor (object : Ref)
  /-- In the wait set of an object, with the holds to take back and the time at which to give up. -/
  | wait (object : Ref) (count : Nat) (deadline : Option Nat)
  | join (thread : ThreadId)
  | sleep (deadline : Nat)
  /-- Another thread runs the initializer of the class. -/
  | classInit (target : Class)
  deriving Inhabited

/-- The time at which a thread stops waiting by itself. -/
def Blocker.deadline? : Blocker → Option Nat
  | sleep d => some d
  | wait _ _ d => d
  | _ => none

/-- A pause a step asks for. -/
inductive Suspend
  | wait (object : Ref) (count : Nat) (millis : Option Nat)
  | join (thread : ThreadId)
  | sleep (millis : Nat)
  | yield
  deriving DecidableEq, Repr, Inhabited

/-! ## Threads -/

/-- A green thread. -/
structure Thread where
  id : ThreadId
  name : String
  status : ThreadStatus := .runnable
  blocker : Option Blocker := none
  /-- Monitor and number of holds to take back after a wait. -/
  reacquire : Option (Ref × Nat) := none
  /-- The method still to be called as the bottom frame. -/
  entry : Option (MethodRef × List Value) := none
  /-- The frames, innermost first. -/
  frames : List Frame := []
  /-- Number of frames. -/
  depth : Nat := 0
  completion : Option Completion := none
  deriving Inhabited

/-- One line of a stack trace. -/
structure TracePoint where
  className : String
  methodName : String
  descriptor : String
  pc : Nat
  line : Option Nat
  sourceFile : Option String
  deriving DecidableEq, Repr, Inhabited

def TracePoint.display (p : TracePoint) : String :=
  let place := match p.sourceFile, p.line with
    | some file, some line => s!"({file}:{line})"
    | some file, none => s!"({file})"
    | none, _ => s!"(pc {p.pc})"
  s!"at {dotted p.className}.{p.methodName}{place}"

namespace Thread

/-- A thread that starts at a method. -/
def starting (id : ThreadId) (name : String) (method : MethodRef) (args : List Value) : Thread :=
  { id, name, entry := some (method, args) }

/-- The top frame, and the thread while it is without it. -/
@[noinline] def takeTop (t : Thread) : Option Frame × Thread :=
  match t.frames with
  | [] => (none, t)
  | f :: rest => (some f, { t with frames := rest })

/-- The thread with its top frame again. -/
def putTop (t : Thread) (f : Frame) : Thread := { t with frames := f :: t.frames }

/-- Where the thread goes on next. -/
def location? (t : Thread) : Option (String × String × Nat) :=
  t.frames.head?.map fun f => (f.owner.name, f.method.method.name, f.pc)

/-- The calls the thread is in, innermost first. -/
def backtrace (t : Thread) : List TracePoint :=
  t.frames.map fun f =>
    { className := f.owner.name, methodName := f.method.method.name
      descriptor := f.method.method.descriptor, pc := f.pc
      line := f.code.lineOf? f.pc, sourceFile := f.owner.declared.sourceFile }

end Thread

/-- What a step asks of the scheduler, which acts on it after the step so that no other thread sees
    a half-done change. -/
structure Requests where
  /-- Threads promoted to successor of a monitor. -/
  woken : List ThreadId := []
  /-- Threads taken out of a wait set. -/
  notified : List ThreadId := []
  spawned : List Thread := []
  suspend : Option Suspend := none
  exit : Option Int32 := none
  deriving Inhabited

end GreenVm
