/-
  Monitors: reentrant locks with a queue of contenders and a set of waiters.

  Contenders queue in arrival order.  When the monitor becomes free the head of the queue becomes
  the successor, and only the successor may take the monitor then, so no thread that arrives later
  can pass the queue.  `Monitor.line` is the queue with the successor in front of it.
-/
import GreenVm.Fault

namespace GreenVm

/-- The lock of an object. -/
structure Monitor where
  owner : Option ThreadId := none
  count : Nat := 0
  queue : List ThreadId := []
  successor : Option ThreadId := none
  waiting : List ThreadId := []
  deriving DecidableEq, Repr, Inhabited

namespace Monitor

/-- The threads that wait to enter, in the order in which they will. -/
def line (m : Monitor) : List ThreadId := m.successor.toList ++ m.queue

def isOwnedBy (m : Monitor) (t : ThreadId) : Bool := m.owner == some t

/-- Joins the queue, unless the thread is in it. -/
def enqueue (m : Monitor) (t : ThreadId) : Monitor :=
  if t ∈ m.queue then m else { m with queue := m.queue ++ [t] }

/-- Takes the monitor `count` times.  On failure the thread is queued and must try again once it
    has been promoted. -/
def tryEnter (m : Monitor) (t : ThreadId) (count : Nat) : Bool × Monitor :=
  match m.owner with
  | some owner =>
    if owner = t then (true, { m with count := m.count + count }) else (false, m.enqueue t)
  | none =>
    if m.successor = none ∨ m.successor = some t then
      (true, { m with
        successor := none, queue := m.queue.filter (· ≠ t), owner := some t, count := count })
    else (false, m.enqueue t)

/-- Makes the head of the queue the successor. -/
def promote (m : Monitor) : Monitor :=
  { m with successor := m.queue.head?, queue := m.queue.tail }

/-- Releases one hold.  The thread promoted to successor, if the monitor became free. -/
def exit (m : Monitor) (t : ThreadId) : Except Fault (Option ThreadId × Monitor) :=
  if m.isOwnedBy t then
    if 1 < m.count then .ok (none, { m with count := m.count - 1 })
    else
      let freed := { m with count := 0, owner := none }.promote
      .ok (freed.successor, freed)
  else .error .notOwner

/-- Gives up all holds and joins the waiters.  The number of holds, and the thread promoted to
    successor. -/
def wait (m : Monitor) (t : ThreadId) : Except Fault ((Nat × Option ThreadId) × Monitor) :=
  if m.isOwnedBy t then
    let freed := { m with count := 0, owner := none, waiting := m.waiting ++ [t] }.promote
    .ok ((m.count, freed.successor), freed)
  else .error .notOwner

/-- Takes the oldest waiter out. -/
def notify (m : Monitor) (t : ThreadId) : Except Fault (Option ThreadId × Monitor) :=
  if m.isOwnedBy t then .ok (m.waiting.head?, { m with waiting := m.waiting.tail })
  else .error .notOwner

/-- Takes all waiters out, the oldest first. -/
def notifyAll (m : Monitor) (t : ThreadId) : Except Fault (List ThreadId × Monitor) :=
  if m.isOwnedBy t then .ok (m.waiting, { m with waiting := [] })
  else .error .notOwner

/-- Takes a waiter out whose time is up; whether it was still waiting. -/
def removeWaiter (m : Monitor) (t : ThreadId) : Bool × Monitor :=
  (decide (t ∈ m.waiting), { m with waiting := m.waiting.filter (· ≠ t) })

end Monitor

end GreenVm
