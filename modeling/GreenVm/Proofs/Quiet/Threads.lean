/-
  Native methods that have nothing to do with monitors.

  A quiet relation is `Threaded` if it also allows what native methods do with threads: something is
  attached to an object, an id is issued, a thread is started at a `run`, and the scheduler is asked
  for a pause that is no wait.  It then allows every native method but the waits and the
  notifications.
-/
import GreenVm.Proofs.Ancestry
import GreenVm.Proofs.Quiet.Instructions

namespace GreenVm

open Exec

/-- A quiet relation that allows what native methods do with threads. -/
class Threaded (R : Machine → Machine → Prop) : Prop extends Quiet R where
  attach : ∀ m r (f : Payload → Payload),
    R m { m with heap := m.heap.update r fun o => { o with payload := f o.payload } }
  bind : ∀ m next objects, R m { m with nextThread := next, threadObjects := objects }
  pause : ∀ m s, (∀ r count millis, s ≠ .wait r count millis) →
    R m { m with requests := { m.requests with suspend := some s } }
  finish : ∀ m status, R m { m with requests := { m.requests with exit := some status } }
  start : ∀ m id name run args, run.method.key = "run()V" → R m { m with requests :=
    { m.requests with spawned := m.requests.spawned ++ [.starting id name run args] } }

/-- Whether a native method waits or notifies. -/
def Native.usesMonitor : Native → Bool
  | .builtin (.object op) =>
    op == .wait || op == .waitTimeout || op == .notify || op == .notifyAll
  | _ => false

variable {R : Machine → Machine → Prop} [Threaded R] {r : Ref} {t : ThreadId} {call : NativeCall}
  {host : Host}

namespace Exec

theorem updatePayload_threaded {f : Payload → Payload} : Within R (updatePayload r f) :=
  .bind (.discard object_within) fun _ m => Threaded.attach m r f

theorem issueThreadId_threaded : Within R issueThreadId :=
  fun m => Threaded.bind m (m.nextThread + 1) m.threadObjects

theorem bindThread_threaded : Within R (bindThread t r) :=
  .bind updatePayload_threaded fun _ m => Threaded.bind m m.nextThread (m.threadObjects.put t r)

theorem newThreadObject_threaded {name : String} : Within R (newThreadObject t name) :=
  .bind newObject_within fun _ => .bind newString_within fun _ => .bind putField_within fun _ =>
    .bind bindThread_threaded fun _ => .pure _

theorem threadObject_threaded : Within R (threadObject t) := by
  refine read_within fun m => ?_
  split
  · exact .pure _
  · exact newThreadObject_threaded

theorem suspend_threaded {s : Suspend} (h : ∀ r count millis, s ≠ .wait r count millis) :
    Within R (suspend s) := fun m => Threaded.pause m s h

end Exec

namespace NativeCall

theorem initThread_threaded {target : Option Ref} {name : Option String} :
    Within R (call.initThread target name) :=
  .bind (.liftExcept _) fun _ => .bind issueThreadId_threaded fun _ => .bind newString_within
    fun _ => .bind putField_within fun _ => .bind putField_within fun _ =>
      .bind bindThread_threaded fun _ => .pure _

theorem startRun_threaded {r : Ref} {id : ThreadId} : Within R (startRun r id) := by
  refine .bind typeOf_within fun c => ?_
  split
  · exact .throw _
  · next run hr =>
    have key : run.method.key = "run()V" := Class.findMethod?_key hr
    exact .bind threadName_within fun name => .bind updatePayload_threaded fun _ =>
      .bind (fun m => Threaded.start m id name run _ key) fun _ => .pure _

theorem startThread_threaded : Within R call.startThread := by
  refine .bind (.liftExcept _) fun r => .bind object_within fun o => ?_
  have start : Within R (threadOf r >>= startRun r) :=
    .bind threadOf_within fun _ => startRun_threaded
  dsimp only
  split
  · exact .bind (.throw _) fun _ => start
  · exact start

end NativeCall

theorem ThreadOp.run_threaded {op : ThreadOp} : Within R (op.run call) := by
  cases op with
  | init => exact NativeCall.initThread_threaded
  | initTarget =>
    exact .bind (.liftExcept _) fun _ => .bind (.liftExcept _) fun _ =>
      NativeCall.initThread_threaded
  | initTargetName =>
    exact .bind (.liftExcept _) fun _ => .bind (.liftExcept _) fun _ =>
      .bind NativeCall.stringArg_within fun _ => NativeCall.initThread_threaded
  | start => exact NativeCall.startThread_threaded
  | join =>
    exact .bind (.liftExcept _) fun _ => .bind threadOf_within fun _ =>
      .bind (suspend_threaded nofun) fun _ => .pure _
  | getName => exact run_within rfl
  | getId => exact run_within rfl
  | currentThread => exact .bind threadObject_threaded fun _ => .pure _
  | sleep =>
    refine .bind (.liftExcept _) fun _ => .bind (.liftExcept _) fun millis => ?_
    have pause : Within R (do
        Exec.suspend (if millis = 0 then .yield else .sleep millis.toInt.toNat)
        return none : Exec (Option Value)) := by
      refine .bind (suspend_threaded ?_) fun _ => .pure _
      split <;> exact nofun
    dsimp only
    split
    · exact .bind (.throw _) fun _ => pause
    · exact pause
  | yield => exact .bind (suspend_threaded nofun) fun _ => .pure _

/-- Every native method that neither waits nor notifies stays within a threaded relation. -/
theorem Native.run_threaded (hh : host.Within R) {native : Native}
    (h : native.usesMonitor = false) : Within R (native.run host call) := by
  cases native with
  | host name => exact hh name call
  | builtin op =>
    cases op with
    | object op =>
      cases op with
      | wait => cases h
      | waitTimeout => cases h
      | notify => cases h
      | notifyAll => cases h
      | _ => exact ObjectOp.run_within rfl
    | system op =>
      cases op with
      | exit =>
        exact .bind (.liftExcept _) fun _ => .bind (.liftExcept _) fun _ =>
          .bind (fun m => Threaded.finish m _) fun _ => .pure _
      | _ => exact SystemOp.run_within rfl
    | thread op => exact ThreadOp.run_threaded
    | _ => exact Builtin.run_within rfl

end GreenVm
