/-
  The scheduler: round robin over threads in the order of their creation, one step per turn.

  Time is logical.  The clock goes on by one tick per turn, and when no thread can run it goes
  straight to the earliest time a thread waits for, so a run depends on nothing but its program.
  What a step asked for is done after the step, by `Vm.settle`.
-/
import GreenVm.Thread.Step

namespace GreenVm

/-- One turn, as it was recorded: where the thread was before its step. -/
structure TraceEntry where
  turn : Nat
  thread : ThreadId
  className : String
  methodName : String
  pc : Nat
  deriving DecidableEq, Repr, Inhabited

/-- A virtual machine: the machine and the threads that share it. -/
structure Vm where
  machine : Machine
  /-- The threads in the order of their creation. -/
  threads : Array Thread := #[]
  /-- Where the search for the next thread begins. -/
  cursor : Nat := 0
  clock : Nat := 0
  turns : Nat := 0
  trace : Array TraceEntry := #[]
  exitStatus : Option Int32 := none
  deriving Inhabited

/-- What became of a turn. -/
inductive Turn
  | ran
  /-- No thread can go on. -/
  | idle
  | exited
  deriving DecidableEq, Repr, Inhabited

/-! ## Threads by id -/

/-- Changes the first thread with an id. -/
def updateThread (id : ThreadId) (f : Thread → Thread) (ts : Array Thread) : Array Thread :=
  match ts.findIdx? (·.id = id) with
  | some index => ts.modify index f
  | none => ts

namespace Thread

def isRunnable (t : Thread) : Bool := t.status == .runnable

/-- Makes a waiting thread runnable. -/
def resumed (t : Thread) : Thread := { t with status := .runnable, blocker := none }

/-- Makes a thread runnable that was promoted to successor of the monitor it is blocked on. -/
def promoted (t : Thread) : Thread := if t.status = .blocked then t.resumed else t

/-- Takes a thread out of a wait; it competes for the monitor again before the wait is over. -/
def notified (t : Thread) : Thread :=
  match t.blocker with
  | some (.wait object count _) => { t.resumed with reacquire := some (object, count) }
  | _ => { t with blocker := none }

/-- Makes a thread wait, if it can still run. -/
def suspended (t : Thread) (b : Blocker) : Thread :=
  if t.status = .runnable then { t with status := .waiting, blocker := some b } else t

/-- The time a waiting thread waits for. -/
def deadline? (t : Thread) : Option Nat :=
  if t.status = .waiting then t.blocker.bind Blocker.deadline? else none

end Thread

namespace Vm

def thread? (vm : Vm) (id : ThreadId) : Option Thread := vm.threads.find? (·.id = id)

/-! ## Waking -/

/-- Wakes a waiting thread if what it waits for has come: its time, the end of the thread it joins,
    or the end of the initialization of a class.  A thread whose time to wait for a notification is
    over leaves the wait set. -/
def wakeThread (clock : Nat) (ended : ThreadId → Bool) (t : Thread) : StateM Machine Thread := do
  if t.status ≠ .waiting then return t
  match t.blocker with
  | some (.sleep deadline) => return if deadline ≤ clock then t.resumed else t
  | some (.join target) => return if ended target then t.resumed else t
  | some (.classInit c) =>
    match (Exec.stateOf (← get) c).init with
    | .inProgress _ => return t
    | _ => return t.resumed
  | some (.wait object _ (some deadline)) =>
    if deadline ≤ clock then
      modify fun m => { m with heap := m.heap.update object fun o =>
        { o with monitor := (o.monitor.removeWaiter t.id).2 } }
      return t.notified
    else return t
  | _ => return t

/-- Whether a thread of an id has ended. -/
def hasEnded (ts : Array Thread) (id : ThreadId) : Bool :=
  ts.any fun t => t.status == .terminated && t.id == id

/-- Wakes the threads for which the time has come. -/
def wakeDue (vm : Vm) : Vm :=
  let wake := wakeThread vm.clock (hasEnded vm.threads)
  let (threads, machine) := (vm.threads.mapM wake).run vm.machine
  { vm with threads, machine }

/-- The earliest time a thread waits for. -/
def earliestDeadline? (vm : Vm) : Option Nat :=
  (vm.threads.toList.filterMap Thread.deadline?).min?

/-! ## Choosing -/

/-- The first index with a runnable thread among so many from an index on, going round. -/
def pickFrom? (ts : Array Thread) : Nat → Nat → Option Nat
  | 0, _ => none
  | count + 1, start =>
    let index := start % ts.size
    if ts[index]?.any Thread.isRunnable then some index else pickFrom? ts count (start + 1)

/-- The first runnable thread at or after the cursor, going round. -/
def pick? (vm : Vm) : Option Nat := pickFrom? vm.threads vm.threads.size vm.cursor

/-! ## After a step -/

/-- The blocker for a pause that was asked for, if it takes any time. -/
def blockerFor? (vm : Vm) : Suspend → Option Blocker
  | .wait object count millis => some (.wait object count (millis.map (vm.clock + ·)))
  | .join target =>
    if (vm.thread? target).any (·.status ≠ .terminated) then some (.join target) else none
  | .sleep millis => some (.sleep (vm.clock + millis))
  | .yield => none

/-- Makes the thread at an index wait. -/
def pause (vm : Vm) (index : Nat) (s : Suspend) : Vm :=
  match vm.blockerFor? s with
  | some b => { vm with threads := vm.threads.modify index (·.suspended b) }
  | none => vm

/-- Does what the step of the thread at an index asked for: wakes threads, lets the thread pause,
    notes the end of the program, and adds new threads. -/
def settle (vm : Vm) (index : Nat) (q : Requests) : Vm :=
  let threads := q.woken.foldl (fun ts id => updateThread id Thread.promoted ts) vm.threads
  let threads := q.notified.foldl (fun ts id => updateThread id Thread.notified ts) threads
  let vm := { vm with threads }
  let vm := match q.suspend with
    | some s => vm.pause index s
    | none => vm
  { vm with exitStatus := q.exit.or vm.exitStatus, threads := vm.threads ++ q.spawned.toArray }

/-! ## Turns -/

/-- Records where the thread at an index is, if turns are recorded. -/
def record (vm : Vm) (index : Nat) : Vm :=
  if vm.machine.config.recordTrace then
    match vm.threads[index]? with
    | none => vm
    | some t =>
      match t.location? with
      | none => vm
      | some (className, methodName, pc) =>
        let entry : TraceEntry := { turn := vm.turns, thread := t.id, className, methodName, pc }
        { vm with trace := vm.trace.push entry }
  else vm

/-- The thread at an index, and the threads while it is out of its place. -/
@[noinline] def takeAt (ts : Array Thread) (index : Nat) : Option Thread × Array Thread :=
  match ts[index]? with
  | none => (none, ts)
  | some t => (some t, ts.setIfInBounds index default)

/-- Makes a step of the thread at an index. -/
def stepAt (host : Host) (index : Nat) (ts : Array Thread) : StateM Machine (Array Thread) := do
  match takeAt ts index with
  | (none, ts) => return ts
  | (some t, ts) => return ts.setIfInBounds index (← t.step host)

/-- Gives the thread at an index its turn. -/
def runThread (host : Host) (vm : Vm) (index : Nat) : Vm :=
  let vm := { vm with turns := vm.turns + 1, clock := vm.clock + 1 }
  let vm := vm.record index
  let (threads, machine) := (stepAt host index vm.threads).run vm.machine
  let requests := machine.requests
  let vm := { vm with threads, machine := { machine with requests := {} } }
  { vm.settle index requests with cursor := index + 1 }

/-- The state in which the next thread is chosen, and that thread.  If no thread can run, the clock
    goes to the earliest time a thread waits for. -/
def choose (vm : Vm) : Option Nat × Vm :=
  let woken := vm.wakeDue
  match woken.pick? with
  | some index => (some index, woken)
  | none =>
    match woken.earliestDeadline? with
    | none => (none, woken)
    | some deadline =>
      let woken := { woken with clock := max woken.clock deadline }.wakeDue
      (woken.pick?, woken)

/-- One turn. -/
def turn (host : Host) (vm : Vm) : Turn × Vm :=
  if vm.exitStatus.isSome then (.exited, vm)
  else
    match vm.choose with
    | (none, vm) => (.idle, vm)
    | (some index, vm) =>
      let vm := vm.runThread host index
      (if vm.exitStatus.isSome then .exited else .ran, vm)

end Vm

end GreenVm
