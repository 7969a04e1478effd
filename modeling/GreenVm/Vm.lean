/-
  Virtual machines as an embedder uses them: starting threads, running them, and looking at how
  things stand.
-/
import GreenVm.Scheduler

namespace GreenVm

/-- The exit status of a program in which a thread was stopped by an engine error. -/
def exitFatal : Int32 := 134

/-- The exit status of a program whose main thread ended with an uncaught throwable. -/
def exitUncaught : Int32 := 1

/-- How a thread stands. -/
structure ThreadReport where
  id : ThreadId
  name : String
  status : ThreadStatus
  completion : Option Completion
  deriving Repr, Inhabited

/-- How a run ended. -/
structure Termination where
  exitStatus : Int32
  /-- How the first thread ended, if it did. -/
  main : Option Completion
  threads : List ThreadReport
  /-- Whether the budget of turns ran out first. -/
  exhausted : Bool
  deriving Repr, Inhabited

namespace Vm

def boot (config : Config) (classPath : Table String ClassFile) (wallClock : Nat) : Vm :=
  { machine := .boot config classPath wallClock }

/-- Does something to the machine between turns. -/
def withMachine {α : Type} (vm : Vm) (x : Exec α) : Except Fault α × Vm :=
  let (result, machine) := x.run vm.machine
  (result, { vm with machine })

/-! ## Starting threads -/

/-- The name of a thread that an embedder starts. -/
def rootThreadName (id : ThreadId) : String :=
  if id.index = 0 then "main" else Exec.defaultThreadName id

/-- Makes ready a thread that starts at a static method. -/
def prepareThread (className methodName descriptor : String) (args : List Value) :
    Exec Thread := do
  let c ← Exec.loadClass className
  let some r := c.findMethod? methodName descriptor
    | throw (.noSuchEntryMethod className methodName descriptor)
  if !r.method.isStatic then throw (.entryNotStatic r.qualifiedName)
  if args.length ≠ r.method.argumentCount then
    throw (.fatal (.unsupported
      (.argumentCount r.qualifiedName r.method.argumentCount args.length)))
  let id ← Exec.issueThreadId
  let name := rootThreadName id
  discard <| Exec.newThreadObject id name
  return .starting id name r args

/-- Starts a thread at a static method.  Its class is loaded now, and initialized by the first step
    of the thread. -/
def spawn (vm : Vm) (className methodName descriptor : String) (args : List Value) :
    Except Fault ThreadId × Vm :=
  match vm.withMachine (prepareThread className methodName descriptor args) with
  | (.ok t, vm) => (.ok t.id, { vm with threads := vm.threads.push t })
  | (.error fault, vm) => (.error fault, vm)

/-! ## Running -/

/-- Whether the budget of turns is used up. -/
def isExhausted (vm : Vm) : Bool := vm.machine.config.maxTurns.any (· ≤ vm.turns)

/-- Takes turns until no thread can go on, the program has ended, or the budget of turns is used up,
    which the answer says.  There is no answer if `fuel` turns were not enough. -/
def runUntilIdle (host : Host) : Nat → Vm → Option Bool × Vm
  | 0, vm => (none, vm)
  | fuel + 1, vm =>
    if vm.isExhausted then (some true, vm)
    else
      match vm.turn host with
      | (.ran, vm) => runUntilIdle host fuel vm
      | (_, vm) => (some false, vm)

/-! ## Looking at things -/

def reports (vm : Vm) : List ThreadReport :=
  vm.threads.toList.map fun t =>
    { id := t.id, name := t.name, status := t.status, completion := t.completion }

def hasAborted (t : ThreadReport) : Bool :=
  match t.completion with
  | some (.aborted _) => true
  | _ => false

/-- How the program stands. -/
def termination (vm : Vm) (exhausted : Bool) : Termination :=
  let threads := vm.reports
  let main := threads.head?.bind ThreadReport.completion
  let exitStatus := match vm.exitStatus, main with
    | some status, _ => status
    | none, some (.threw _) => exitUncaught
    | none, _ => if threads.any hasAborted then exitFatal else 0
  { exitStatus, main, threads, exhausted }

def status? (vm : Vm) (id : ThreadId) : Option ThreadStatus := (vm.thread? id).map Thread.status

def completion? (vm : Vm) (id : ThreadId) : Option Completion :=
  (vm.thread? id).bind Thread.completion

def backtrace (vm : Vm) (id : ThreadId) : Except EngineError (List TracePoint) :=
  match vm.thread? id with
  | some t => .ok t.backtrace
  | none => .error (.noSuchThread id)

/-! ## Programs -/

/-- The array of arguments for `main`. -/
def argumentArray (args : List String) : Exec Ref := do
  let array ← Exec.newArray "[Ljava/lang/String;" (Int32.ofNat args.length)
  args.zipIdx.forM fun (arg, i) => do
    let s ← Exec.newString arg
    Exec.arrayStore array (Int32.ofNat i) (.ofRef s)
  return array

/-- Starts `main(String[])` of a class. -/
def startMain (vm : Vm) (mainClass : String) (args : List String) : Except Fault ThreadId × Vm :=
  match vm.withMachine (argumentArray args) with
  | (.ok array, vm) =>
    vm.spawn mainClass "main" "([Ljava/lang/String;)V" [.ofRef array]
  | (.error fault, vm) => (.error fault, vm)

/-- Runs a program, with every thread it starts.  A program that cannot be started because of a
    throwable ends like one that threw it; there is no answer if `fuel` turns were not enough. -/
def run (host : Host) (fuel : Nat) (vm : Vm) (mainClass : String) (args : List String) :
    Option (Except EngineError Termination) × Vm :=
  match vm.startMain mainClass args with
  | (.ok _, vm) =>
    match vm.runUntilIdle host fuel with
    | (some exhausted, vm) => (some (.ok (vm.termination exhausted)), vm)
    | (none, vm) => (none, vm)
  | (.error (.fatal e), vm) => (some (.error e), vm)
  | (.error (.thrown t), vm) =>
    match vm.withMachine (Exec.materialize t) with
    | (.ok r, vm) =>
      (some (.ok { exitStatus := exitUncaught, main := some (.threw (vm.machine.heap.thrownChain r))
                   threads := vm.reports, exhausted := false }), vm)
    | (.error (.fatal e), vm) => (some (.error e), vm)
    | (.error (.thrown _), vm) => (none, vm)

end Vm

end GreenVm
