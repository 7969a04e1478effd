/-
  What can become of a thread and of the machine in one step.

  * `Thread.Unwinds`: handing an object from frame to frame.
  * `Thread.aborted`, `Machine.abandoned`: the thread and the machine after an engine error.
  * `Thread.Steps`: a step is a unit of work that succeeds, or one that fails, and then the object
    that was thrown is handed on or the thread aborts.
-/
import GreenVm.Proofs.Attempts

namespace GreenVm

/-! ## Unwinding -/

/-- The machine in which a thread has left some frames for good: what they had recorded is released,
    and the classes that they were to initialize have failed. -/
def Machine.abandoned (m : Machine) (t : ThreadId) : List Frame → Machine
  | [] => m
  | f :: rest =>
    let left := m.released t f.monitors
    abandoned (if f.kind = .classInit then left.withInit f.owner .failed else left) t rest

namespace Thread

/-- The thread after an engine error. -/
def aborted (t : Thread) (e : EngineError) : Thread :=
  { t with frames := [], depth := t.depth - t.frames.length, entry := none, reacquire := none
           status := .terminated, blocker := none, completion := some (.aborted e) }

/-- Handing an object to the nearest handler, from the first of some frames on. -/
inductive Unwinds : Thread → Machine → Ref → List Frame → Except Fault Unit × Thread × Machine → Prop
  | unhandled {t : Thread} {m : Machine} {r : Ref} :
    Unwinds t m r []
      (.ok (), { t with entry := none }.ended (.threw (m.heap.thrownChain r)), m)
  | lost {t : Thread} {m m₁ : Machine} {r : Ref} {f : Frame} {rest : List Frame} {e : EngineError}
      (hh : outcome (Exec.findHandler? f r) m = (.error (.fatal e), m₁)) :
    Unwinds t m r (f :: rest) (.error (.fatal e), t, m₁)
  | caught {t : Thread} {m m₁ : Machine} {r : Ref} {f : Frame} {rest : List Frame} {handler : Nat}
      {stack : OperandStack} (hh : outcome (Exec.findHandler? f r) m = (.ok (some handler), m₁))
      (hs : f.stack.clear.push (.ofRef r) = .ok stack) :
    Unwinds t m r (f :: rest) (.ok (), t.withTop { f with stack, pc := handler }, m₁)
  | overflowed {t : Thread} {m m₁ : Machine} {r : Ref} {f : Frame} {rest : List Frame}
      {handler : Nat} {e : EngineError}
      (hh : outcome (Exec.findHandler? f r) m = (.ok (some handler), m₁))
      (hs : f.stack.clear.push (.ofRef r) = .error e) :
    Unwinds t m r (f :: rest) (.error (.fatal e), t, m₁)
  | passes {t : Thread} {m m₁ : Machine} {r : Ref} {f : Frame} {rest : List Frame}
      {x : Except Fault Unit × Thread × Machine}
      (hh : outcome (Exec.findHandler? f r) m = (.ok none, m₁)) (hk : f.kind = .method)
      (hu : Unwinds (t.left rest) (m₁.released t.id f.monitors) r rest x) :
    Unwinds t m r (f :: rest) x
  | fails {t : Thread} {m m₁ m₂ : Machine} {r r' : Ref} {f : Frame} {rest : List Frame}
      {x : Except Fault Unit × Thread × Machine}
      (hh : outcome (Exec.findHandler? f r) m = (.ok none, m₁)) (hk : f.kind = .classInit)
      (hr : outcome (Exec.initializerFailure r)
        ((m₁.released t.id f.monitors).withInit f.owner .failed) = (.ok r', m₂))
      (hu : Unwinds (t.left rest) m₂ r' rest x) : Unwinds t m r (f :: rest) x
  | unmade {t : Thread} {m m₁ m₂ : Machine} {r : Ref} {f : Frame} {rest : List Frame}
      {e : EngineError} (hh : outcome (Exec.findHandler? f r) m = (.ok none, m₁))
      (hk : f.kind = .classInit)
      (hr : outcome (Exec.initializerFailure r)
        ((m₁.released t.id f.monitors).withInit f.owner .failed) = (.error (.fatal e), m₂)) :
    Unwinds t m r (f :: rest) (.error (.fatal e), t.left rest, m₂)

end Thread

/-! ## Failures that are not thrown -/

/-- Work whose failures are engine errors. -/
def FailsFatally {α : Type} (x : Exec α) : Prop :=
  ∀ m f m', outcome x m = (.error f, m') → ∃ e, f = .fatal e

namespace Exec

variable {r : Ref}

theorem typeOf_failsFatally : FailsFatally (typeOf r) := by
  intro m f m' h
  rw [typeOf] at h
  rcases object_cases r m with ⟨-, e⟩ | ⟨o, -, e⟩
  · rw [outcome_bind_error e] at h
    cases h
    exact ⟨_, rfl⟩
  · rw [outcome_bind_ok e, outcome_pure] at h
    cases h

theorem acceptingHandler?_ok (owner thrown : Class) (hs : List Handler) (m : Machine) :
    ∃ handler, (outcome (acceptingHandler? owner thrown hs) m).1 = .ok handler := by
  induction hs generalizing m with
  | nil => exact ⟨none, rfl⟩
  | cons h hs ih =>
    rw [acceptingHandler?]
    cases h.catchType with
    | none => exact ⟨_, rfl⟩
    | some index =>
      dsimp only
      rw [outcome_bind_ok (outcome_attempt _ _)]
      rcases outcome (classAt owner index) m with ⟨e | c, m₁⟩
      · exact ih m₁
      · dsimp only
        split
        · exact ⟨_, rfl⟩
        · exact ih m₁

theorem findHandler?_failsFatally {f : Frame} : FailsFatally (findHandler? f r) := by
  intro m e m' h
  rw [findHandler?] at h
  rcases ht : outcome (typeOf r) m with ⟨e' | c, m₁⟩
  · rw [outcome_bind_error ht] at h
    cases h
    exact typeOf_failsFatally m _ _ ht
  · rw [outcome_bind_ok ht] at h
    obtain ⟨handler, hh⟩ := acceptingHandler?_ok f.owner c f.coveringHandlers m₁
    rw [h] at hh
    cases hh

theorem raiseNew_failsFatally {className : String} {message : Option String}
    {cause : Option Ref} : FailsFatally (raiseNew className message cause) := by
  intro m f m' h
  rw [outcome_raiseNew] at h
  split at h
  · cases h
  · cases h
    exact ⟨_, rfl⟩

theorem materialize_failsFatally {t : Throwable} : FailsFatally (materialize t) := by
  cases t with
  | object r =>
    intro m f m' h
    rw [materialize, outcome_pure] at h
    cases h
  | symbolic name message => exact raiseNew_failsFatally

theorem initializerFailure_failsFatally : FailsFatally (initializerFailure r) := by
  intro m f m' h
  rw [initializerFailure] at h
  rcases ht : outcome (typeOf r) m with ⟨e' | c, m₁⟩
  · rw [outcome_bind_error ht] at h
    cases h
    exact typeOf_failsFatally m _ _ ht
  · rw [outcome_bind_ok ht] at h
    split at h
    · rw [outcome_pure] at h
      cases h
    · exact raiseNew_failsFatally m₁ f m' h

end Exec

/-! ## All cases -/

namespace ThreadM

theorem unwindFrom_unwinds : ∀ (fs : List Frame) (r : Ref) (t : Thread) (m : Machine),
    t.Unwinds m r fs (outcome (unwindFrom r fs) (t, m))
  | [], r, t, m => by
    rw [unwindFrom, outcome_bind_ok (outcome_modifyThread _ _),
      outcome_bind_ok (by rw [outcome_liftThread, outcome_get]), outcome_terminate]
    exact .unhandled
  | f :: rest, r, t, m => by
    rw [unwindFrom]
    rcases hh : outcome (Exec.findHandler? f r) m with ⟨e | handler, m₁⟩
    · obtain ⟨e, rfl⟩ := Exec.findHandler?_failsFatally m _ _ hh
      rw [outcome_thread_bind_error hh]
      exact .lost hh
    rw [outcome_thread_bind_ok hh]
    cases handler with
    | some handler =>
      dsimp only
      cases hs : f.stack.clear.push (.ofRef r) with
      | error e =>
        rw [outcome_engine_bind_error]
        exact .overflowed hh hs
      | ok stack =>
        rw [outcome_engine_bind_ok, outcome_setTop]
        exact .caught hh hs
    | none =>
      dsimp only
      rw [outcome_bind_ok (outcome_leaveFrame f rest t m₁)]
      cases hk : f.kind with
      | method => exact .passes hh hk (unwindFrom_unwinds rest r _ _)
      | classInit =>
        dsimp only
        rw [outcome_thread_bind_ok (Exec.outcome_setInit _ _ _)]
        rcases hr : outcome (Exec.initializerFailure r)
          ((m₁.released t.id f.monitors).withInit f.owner .failed) with ⟨e | r', m₂⟩
        · obtain ⟨e, rfl⟩ := Exec.initializerFailure_failsFatally _ _ _ hr
          rw [outcome_thread_bind_error hr]
          exact .unmade hh hk hr
        · rw [outcome_thread_bind_ok hr]
          exact .fails hh hk hr (unwindFrom_unwinds rest r' _ _)

theorem outcome_leaveAll : ∀ (fs : List Frame) (t : Thread) (m : Machine), t.frames = fs →
    outcome (leaveAll fs) (t, m) = (.ok (),
      { t with frames := [], depth := t.depth - fs.length }, m.abandoned t.id fs)
  | [], t, m, h => by
    rw [leaveAll, outcome_pure]
    cases t
    cases h
    rfl
  | f :: rest, t, m, h => by
    rw [leaveAll, outcome_bind_ok (outcome_leaveFrame f rest t m)]
    have hd : t.depth - 1 - rest.length = t.depth - (rest.length + 1) := by omega
    have next (m₁ : Machine) := outcome_leaveAll rest (t.left rest) m₁ rfl
    cases hk : f.kind with
    | method =>
      have := next (m.released t.id f.monitors)
      simpa [Thread.left, Machine.abandoned, hk, hd] using this
    | classInit =>
      have := next ((m.released t.id f.monitors).withInit f.owner .failed)
      simp only [if_true]
      rw [outcome_thread_bind_ok (Exec.outcome_setInit _ _ _), this]
      simp [Thread.left, Machine.abandoned, hk, hd]

theorem outcome_abort (e : EngineError) (t : Thread) (m : Machine) :
    outcome (abort e) (t, m) = (.ok (), t.aborted e, m.abandoned t.id t.frames) := by
  rw [abort, outcome_bind_ok (outcome_getThread _), outcome_bind_ok (outcome_leaveAll _ _ _ rfl),
    outcome_bind_ok (outcome_modifyThread _ _), outcome_terminate]
  rfl

end ThreadM

namespace Thread

/-- Unwinding throws nothing. -/
theorem Unwinds.fatal {t : Thread} {m : Machine} {r : Ref} {fs : List Frame} {f : Fault}
    {s : Thread × Machine} (h : t.Unwinds m r fs (.error f, s)) : ∃ e, f = .fatal e := by
  generalize hx : (Except.error f, s) = x at h
  induction h with
  | unhandled => cases hx
  | caught => cases hx
  | lost => exact ⟨_, (Except.error.inj (congrArg Prod.fst hx))⟩
  | overflowed => exact ⟨_, (Except.error.inj (congrArg Prod.fst hx))⟩
  | unmade => exact ⟨_, (Except.error.inj (congrArg Prod.fst hx))⟩
  | passes _ _ _ ih => exact ih hx
  | fails _ _ _ _ ih => exact ih hx

/-- A step of a thread that can run. -/
inductive Steps (host : Host) (t : Thread) (m : Machine) : Thread × Machine → Prop
  | works {t₁ : Thread} {m₁ : Machine} (h : t.Attempts host m (.ok (), t₁, m₁)) :
    Steps host t m (t₁, m₁)
  | throws {e : Throwable} {r : Ref} {t₁ t₂ : Thread} {m₁ m₂ m₃ : Machine}
      (h : t.Attempts host m (.error (.thrown e), t₁, m₁))
      (hm : outcome (Exec.materialize e) m₁ = (.ok r, m₂))
      (hu : t₁.Unwinds m₂ r t₁.frames (.ok (), t₂, m₃)) : Steps host t m (t₂, m₃)
  | aborts {e : EngineError} {t₁ : Thread} {m₁ : Machine}
      (h : t.Attempts host m (.error (.fatal e), t₁, m₁)) :
    Steps host t m (t₁.aborted e, m₁.abandoned t₁.id t₁.frames)
  | unmade {e : Throwable} {e' : EngineError} {t₁ : Thread} {m₁ m₂ : Machine}
      (h : t.Attempts host m (.error (.thrown e), t₁, m₁))
      (hm : outcome (Exec.materialize e) m₁ = (.error (.fatal e'), m₂)) :
    Steps host t m (t₁.aborted e', m₂.abandoned t₁.id t₁.frames)
  | stuck {e : Throwable} {e' : EngineError} {r : Ref} {t₁ t₂ : Thread} {m₁ m₂ m₃ : Machine}
      (h : t.Attempts host m (.error (.thrown e), t₁, m₁))
      (hm : outcome (Exec.materialize e) m₁ = (.ok r, m₂))
      (hu : t₁.Unwinds m₂ r t₁.frames (.error (.fatal e'), t₂, m₃)) :
    Steps host t m (t₂.aborted e', m₃.abandoned t₂.id t₂.frames)

/-- What becomes of a thread and of the machine after a unit of work that has failed. -/
inductive Recovers (t : Thread) (m : Machine) : Fault → Thread × Machine → Prop
  | throws {e : Throwable} {r : Ref} {t' : Thread} {m₁ m₂ : Machine}
      (hm : outcome (Exec.materialize e) m = (.ok r, m₁))
      (hu : t.Unwinds m₁ r t.frames (.ok (), t', m₂)) : Recovers t m (.thrown e) (t', m₂)
  | aborts {e : EngineError} : Recovers t m (.fatal e) (t.aborted e, m.abandoned t.id t.frames)
  | unmade {e : Throwable} {e' : EngineError} {m₁ : Machine}
      (hm : outcome (Exec.materialize e) m = (.error (.fatal e'), m₁)) :
    Recovers t m (.thrown e) (t.aborted e', m₁.abandoned t.id t.frames)
  | stuck {e : Throwable} {e' : EngineError} {r : Ref} {t' : Thread} {m₁ m₂ : Machine}
      (hm : outcome (Exec.materialize e) m = (.ok r, m₁))
      (hu : t.Unwinds m₁ r t.frames (.error (.fatal e'), t', m₂)) :
    Recovers t m (.thrown e) (t'.aborted e', m₂.abandoned t'.id t'.frames)

theorem step_eq (host : Host) {t : Thread} (h : t.status = .runnable) (m : Machine) :
    (t.step host).run m = (outcome (ThreadM.stepThread host) (t, m)).2 := by
  unfold Thread.step
  simp only [h, if_true]
  rfl

/-- A thread that cannot run does nothing. -/
theorem step_of_not_runnable {host : Host} {t : Thread} {m : Machine} (h : t.status ≠ .runnable) :
    (t.step host).run m = (t, m) := by
  unfold Thread.step
  simp only [h, if_false]
  rfl

/-- A step in which the unit of work succeeds. -/
theorem step_of_ok {host : Host} {t : Thread} {m : Machine} (hs : t.status = .runnable)
    {s : Thread × Machine} (h : outcome (ThreadM.tryStep host) (t, m) = (.ok (), s)) :
    (t.step host).run m = s := by
  rw [step_eq host hs]
  unfold ThreadM.stepThread
  rw [outcome_tryCatch, outcome_tryCatch, h]

/-- A step in which the unit of work fails. -/
theorem step_of_error {host : Host} {t t₁ : Thread} {m m₁ : Machine} {e : Fault}
    (hs : t.status = .runnable)
    (h : outcome (ThreadM.tryStep host) (t, m) = (.error e, t₁, m₁)) :
    t₁.Recovers m₁ e ((t.step host).run m) := by
  rw [step_eq host hs]
  unfold ThreadM.stepThread
  rw [outcome_tryCatch, outcome_tryCatch, h]
  cases e with
  | fatal e =>
    dsimp only
    rw [outcome_throw]
    dsimp only
    rw [ThreadM.outcome_abort]
    exact .aborts
  | thrown e =>
    dsimp only
    unfold ThreadM.unwind
    rcases hm : outcome (Exec.materialize e) m₁ with ⟨e' | r, m₂⟩
    · obtain ⟨e', rfl⟩ := Exec.materialize_failsFatally m₁ _ _ hm
      rw [outcome_thread_bind_error hm]
      dsimp only
      rw [ThreadM.outcome_abort]
      exact .unmade hm
    rw [outcome_thread_bind_ok hm, outcome_bind_ok (outcome_getThread _)]
    have hu := ThreadM.unwindFrom_unwinds t₁.frames r t₁ m₂
    rcases hr : outcome (ThreadM.unwindFrom r t₁.frames) (t₁, m₂) with ⟨e' | _, t₂, m₃⟩ <;>
      rw [hr] at hu
    · obtain ⟨e', rfl⟩ := hu.fatal
      dsimp only
      rw [ThreadM.outcome_abort]
      exact .stuck hm hu
    · exact .throws hm hu

/-- Whatever comes of a step is one of the cases. -/
theorem step_steps (host : Host) {t : Thread} (h : t.status = .runnable) (m : Machine) :
    t.Steps host m ((t.step host).run m) := by
  have ha := ThreadM.tryStep_attempts host t m
  rcases ho : outcome (ThreadM.tryStep host) (t, m) with ⟨e | _, t₁, m₁⟩ <;> rw [ho] at ha
  · have hr := step_of_error h ho
    generalize (t.step host).run m = s at hr ⊢
    cases hr with
    | throws hm hu => exact .throws ha hm hu
    | aborts => exact .aborts ha
    | unmade hm => exact .unmade ha hm
    | stuck hm hu => exact .stuck ha hm hu
  · rw [step_of_ok h ho]
    exact .works ha

end Thread

end GreenVm
