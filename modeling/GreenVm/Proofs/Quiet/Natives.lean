/-
  Native methods as a whole, for relations that do not mind monitors, threads and requests.

  A calm relation is `Lively` if it also allows what the natives of threads and monitors do: objects
  change their monitors and what is attached to them, ids are issued, and the scheduler is asked for
  something, such as to start a thread that calls `run` of an object.
-/
import GreenVm.Proofs.Quiet.Steps

namespace GreenVm

open Exec

/-- The same class, fields or elements, text and class represented: objects that differ in nothing
    but their monitors and what else is attached to them. -/
structure Object.SameContents (o o' : Object) : Prop where
  type_eq : o'.type = o.type
  body_eq : o'.body = o.body
  text_eq : o'.payload.text = o.payload.text
  represents_eq : o'.payload.represents = o.payload.represents

/-- A calm relation that allows objects to change otherwise than in their class and contents, and
    requests. -/
class Lively (R : Machine → Machine → Prop) : Prop extends Calm R where
  change : ∀ m r f, (∀ o, m.heap.get? r = some o → o.SameContents (f o)) →
    R m { m with heap := m.heap.update r f }
  request : ∀ m q, q.spawned = m.requests.spawned → R m { m with requests := q }
  bind : ∀ m next objects, R m { m with nextThread := next, threadObjects := objects }
  start : ∀ m r o run id name args, m.heap.get? r = some o →
    o.type.findMethod? "run" "()V" = some run → R m { m with requests := { m.requests with
      spawned := m.requests.spawned ++ [.starting id name run args] } }

instance : Lively KeepsTypes where
  change _ _ _ hf := .update fun o ho => (hf o ho).type_eq
  request _ _ _ := .of_heap rfl
  bind _ _ _ := .of_heap rfl
  start _ _ _ _ _ _ _ _ _ := .of_heap rfl

variable {R : Machine → Machine → Prop} [Lively R] {α : Type} {r : Ref} {t : ThreadId}
  {call : NativeCall} {host : Host}

namespace Exec

/-! ## Monitors, requests and threads -/

theorem withMonitor_within {f : Monitor → Except Fault (α × Monitor)} :
    Within R (withMonitor r f) := by
  intro m
  rcases withMonitor_cases r f m with ⟨e, he⟩ | ⟨o, a, monitor, ho, -, he⟩ <;> rw [he]
  · exact refl_of R m
  · refine Lively.change m r _ fun o' ho' => ?_
    cases ho.symm.trans ho'
    exact ⟨rfl, rfl, rfl, rfl⟩

theorem tryEnter_within {n : Nat} : Within R (tryEnter r t n) := withMonitor_within

theorem request_within {f : Requests → Requests} (h : ∀ q, (f q).spawned = q.spawned) :
    Within R (request f) := fun m => Lively.request m _ (h m.requests)

theorem wake_within {ts : List ThreadId} : Within R (wake ts) := request_within fun _ => rfl

theorem reportNotified_within {ts : List ThreadId} : Within R (reportNotified ts) :=
  request_within fun _ => rfl

theorem suspend_within {s : Suspend} : Within R (suspend s) := request_within fun _ => rfl

theorem exit_within {status : Int32} : Within R (exit status) := request_within fun _ => rfl

/-- Changing what is attached to an object, but neither its text nor the class it represents. -/
theorem attach_within {f : Payload → Payload}
    (h : ∀ o : Object, o.SameContents { o with payload := f o.payload }) :
    Within R (updatePayload r f) :=
  .bind (.discard object_within) fun _ m => Lively.change m r _ fun o _ => h o

theorem issueThreadId_within : Within R issueThreadId :=
  fun m => Lively.bind m (m.nextThread + 1) m.threadObjects

theorem bindThread_within : Within R (bindThread t r) :=
  .bind (attach_within fun _ => ⟨rfl, rfl, rfl, rfl⟩) fun _ m =>
    Lively.bind m m.nextThread (m.threadObjects.put t r)

theorem newThreadObject_within {name : String} : Within R (newThreadObject t name) :=
  .bind newObject_within fun _ => .bind newString_within fun _ => .bind putField_within fun _ =>
    .bind bindThread_within fun _ => .pure _

theorem threadObject_within : Within R (threadObject t) := by
  refine read_within fun m => ?_
  split
  · exact .pure _
  · exact newThreadObject_within

theorem release_lively : Within R (release t r) := by
  intro m
  rcases release_cases r t m with e | e <;> rw [e]
  · exact refl_of R m
  · exact Within.bind withMonitor_within (fun _ => wake_within) m

end Exec

/-! ## Native methods -/

theorem NativeCall.wait_within {millis : Option Nat} : Within R (call.wait millis) :=
  .bind (.liftExcept _) fun _ => .bind withMonitor_within fun _ => .bind wake_within fun _ =>
    .bind suspend_within fun _ => .pure _

theorem NativeCall.initThread_within {target : Option Ref} {name : Option String} :
    Within R (call.initThread target name) :=
  .bind (.liftExcept _) fun _ => .bind issueThreadId_within fun _ => .bind newString_within fun _ =>
    .bind putField_within fun _ => .bind putField_within fun _ => .bind bindThread_within fun _ =>
      .pure _

theorem ObjectOp.run_lively {op : ObjectOp} : Within R (op.run call) := by
  cases op with
  | wait => exact NativeCall.wait_within
  | waitTimeout =>
    refine .bind (.liftExcept _) fun _ => .bind (.liftExcept _) fun _ => ?_
    dsimp only
    split
    · exact .bind (.throw _) fun _ => NativeCall.wait_within
    · exact NativeCall.wait_within
  | notify =>
    exact .bind (.liftExcept _) fun _ => .bind withMonitor_within fun _ =>
      .bind reportNotified_within fun _ => .pure _
  | notifyAll =>
    exact .bind (.liftExcept _) fun _ => .bind withMonitor_within fun _ =>
      .bind reportNotified_within fun _ => .pure _
  | _ => exact ObjectOp.run_within rfl

/-- A thread starts at the `run` of an object that is there. -/
theorem NativeCall.startRun_within {this : Ref} {id : ThreadId} : Within R (startRun this id) := by
  refine typeOf_within.bind_of fun m c m₁ hc => ?_
  cases hr : c.findMethod? "run" "()V" with
  | none => exact Within.throw _ m₁
  | some run =>
    obtain ⟨o, ho, rfl, rfl⟩ := typeOf_ok hc
    have started (m₂ : Machine) (h : KeepsTypes m₁ m₂) (name : String) :
        R m₂ (outcome (spawn (.starting id name run [.ofRef this])) m₂).2 := by
      obtain ⟨o₂, ho₂, e⟩ := h this o ho
      exact Lively.start m₂ this o₂ run id name _ ho₂ (e.symm ▸ hr)
    refine Within.bind_at (threadName_within m₁) fun name m₂ h₂ => ?_
    refine Within.bind_at (attach_within (fun _ => ⟨rfl, rfl, rfl, rfl⟩) m₂) fun _ m₃ h₃ => ?_
    refine Within.bind_at (started m₃ ?_ name) fun _ m₄ _ => Within.pure _ m₄
    have types₂ : KeepsTypes m₁ m₂ := by
      have := threadName_within (R := KeepsTypes) (r := this) m₁
      rwa [h₂] at this
    have types₃ := attach_within (R := KeepsTypes) (r := this)
      (f := fun p => { p with started := true }) (fun _ => ⟨rfl, rfl, rfl, rfl⟩) m₂
    rw [h₃] at types₃
    exact trans_of KeepsTypes types₂ types₃

theorem NativeCall.startThread_within : Within R call.startThread := by
  refine .bind (.liftExcept _) fun this => .bind object_within fun o => ?_
  have start : Within R (threadOf this >>= startRun this) :=
    .bind threadOf_within fun _ => startRun_within
  dsimp only
  split
  · exact .bind (.throw _) fun _ => start
  · exact start

theorem ThreadOp.run_lively {op : ThreadOp} : Within R (op.run call) := by
  cases op with
  | init => exact NativeCall.initThread_within
  | initTarget =>
    exact .bind (.liftExcept _) fun _ => .bind (.liftExcept _) fun _ =>
      NativeCall.initThread_within
  | initTargetName =>
    exact .bind (.liftExcept _) fun _ => .bind (.liftExcept _) fun _ =>
      .bind NativeCall.stringArg_within fun _ => NativeCall.initThread_within
  | start => exact NativeCall.startThread_within
  | join =>
    exact .bind (.liftExcept _) fun _ => .bind threadOf_within fun _ => .bind suspend_within
      fun _ => .pure _
  | currentThread => exact .bind threadObject_within fun _ => .pure _
  | sleep =>
    have pause (s : Suspend) : Within R (do
        suspend s
        return none : Exec (Option Value)) := .bind suspend_within fun _ => .pure _
    refine .bind (.liftExcept _) fun _ => .bind (.liftExcept _) fun _ => ?_
    dsimp only
    split
    · exact .bind (.throw _) fun _ => pause _
    · exact pause _
  | yield => exact .bind suspend_within fun _ => .pure _
  | _ => exact ThreadOp.run_within rfl

/-- Native methods stay within a lively relation, if the functions of the embedder do. -/
theorem Native.run_within (hh : host.Within R) {native : Native} :
    Within R (native.run host call) := by
  cases native with
  | host name => exact hh name call
  | builtin op =>
    cases op with
    | object op => exact ObjectOp.run_lively
    | thread op => exact ThreadOp.run_lively
    | system op =>
      cases op with
      | exit =>
        exact .bind (.liftExcept _) fun _ => .bind (.liftExcept _) fun _ =>
          .bind exit_within fun _ => .pure _
      | _ => exact SystemOp.run_within rfl
    | _ => exact Builtin.run_within rfl

/-- A lively relation allows whatever a step does, if it allows what functions of the embedder do. -/
theorem StepsWithin.of_lively (hh : host.Within R) (id : ThreadId) : StepsWithin R host id where
  native _ _ _ := Native.run_within hh
  tryEnter _ _ := Exec.tryEnter_within
  leave _ := .bind Exec.withMonitor_within fun _ => Exec.wake_within

end GreenVm
