/-
  The steps of a thread as a whole, seen from the machine.

  `StepsWithin R host id` says that a quiet relation also allows what thread `id` does to monitors
  and through native methods.  It then holds between the machines before and after any step of the
  thread, however the step ends.
-/
import GreenVm.Proofs.Quiet.Instructions

namespace GreenVm

/-- Leaving a monitor, and reporting whom to wake. -/
def Exec.leaveMonitor (r : Ref) (t : ThreadId) : Exec Unit := do
  let promoted ← withMonitor r (·.exit t)
  wake promoted.toList

/-- A relation that allows what a step of a thread does beyond quiet work. -/
structure StepsWithin (R : Machine → Machine → Prop) (host : Host) (id : ThreadId) : Prop where
  native : ∀ (native : Native) (call : NativeCall), call.thread = id →
    Within R (native.run host call)
  tryEnter : ∀ r n, Within R (Exec.tryEnter r id n)
  leave : ∀ r, Within R (Exec.leaveMonitor r id)

/-- A thread keeps its id, and a relation holds between the machines. -/
def OnThread (id : ThreadId) (R : Machine → Machine → Prop) (s s' : Thread × Machine) : Prop :=
  s.1.id = id → s'.1.id = id ∧ R s.2 s'.2

variable {R : Machine → Machine → Prop} {host : Host} {id : ThreadId} {α : Type}

instance [Std.Refl R] : Std.Refl (OnThread id R) := ⟨fun s h => ⟨h, refl_of R s.2⟩⟩

instance [IsTrans Machine R] : IsTrans (Thread × Machine) (OnThread id R) :=
  ⟨fun _ _ _ h h' e => ⟨(h' (h e).1).1, trans_of R (h e).2 (h' (h e).1).2⟩⟩

theorem StepsWithin.initializes (h : StepsWithin R host id) : InitializesWithin R host id :=
  fun native _ => h.native native _ rfl

namespace Exec

variable {r : Ref} {m : Machine}

/-- Releasing a monitor does nothing, or it is leaving the monitor and reporting whom to wake. -/
theorem release_cases (r : Ref) (t : ThreadId) (m : Machine) :
    outcome (release t r) m = (.ok (), m) ∨
      outcome (release t r) m = outcome (leaveMonitor r t) m := by
  unfold release
  rw [outcome_bind_ok (outcome_get m)]
  cases ho : m.heap.get? r with
  | none => exact .inl rfl
  | some o =>
    cases hx : o.monitor.exit t with
    | error e => exact .inl (by simp only [hx, outcome_pure])
    | ok a =>
      obtain ⟨promoted, monitor⟩ := a
      refine .inr ?_
      have hw : outcome (withMonitor r (·.exit t)) m =
          (.ok promoted, { m with heap := m.heap.update r fun _ => { o with monitor } }) := by
        rw [withMonitor, outcome_bind_ok (outcome_object ho), hx]
        rfl
      rw [leaveMonitor, outcome_bind_ok hw]
      simp only [hx]
      rfl

theorem release_within [Quiet R] (h : StepsWithin R host id) : Within R (release id r) := by
  intro m
  rcases release_cases r id m with e | e <;> rw [e]
  · exact refl_of R m
  · exact h.leave r m

end Exec

/-! ## Instructions -/

/-- A relation holds between the machines, whatever becomes of the frame. -/
def OffFrame (R : Machine → Machine → Prop) (s s' : Frame × Machine) : Prop := R s.2 s'.2

instance [Std.Refl R] : Std.Refl (OffFrame R) := ⟨fun s => refl_of R s.2⟩

instance [IsTrans Machine R] : IsTrans (Frame × Machine) (OffFrame R) :=
  ⟨fun _ _ _ h h' => trans_of R h h'⟩

namespace FrameM

theorem lift_offFrame {x : Exec α} (h : Within R x) : Within (OffFrame R) (liftM x : FrameM α) := by
  intro s
  rw [outcome_liftFrame]
  exact h s.2

theorem modifyFrame_offFrame [Std.Refl R] {g : Frame → Frame} :
    Within (OffFrame R) (modifyThe Frame g : FrameM Unit) := fun s => refl_of R s.2

variable [Quiet R]

theorem monitorEnter_offFrame (h : StepsWithin R host id) :
    Within (OffFrame R) (monitorEnter id) := by
  refine .bind (peek_within.mono fun _ _ => And.right) fun _ => .bind (.liftExcept _) fun _ =>
    .bind (lift_offFrame (h.tryEnter _ 1)) fun entered => ?_
  cases entered with
  | true =>
    exact .bind (.discard (pop_within.mono fun _ _ => And.right)) fun _ =>
      .bind modifyFrame_offFrame fun _ => .pure _
  | false => exact .pure _

theorem monitorExit_offFrame (h : ∀ r, Within R (Exec.leaveMonitor r id)) :
    Within (OffFrame R) (monitorExit id) := by
  refine .bind (popObject_within.mono fun _ _ => And.right) fun r => ?_
  rintro ⟨f, m⟩
  have hl := h r m
  rw [Exec.leaveMonitor] at hl
  rcases hx : outcome (Exec.withMonitor r (·.exit id)) m with ⟨e | p, m'⟩
  · rw [outcome_bind_error hx] at hl
    rw [outcome_frame_bind_error hx]
    exact hl
  · rw [outcome_bind_ok hx] at hl
    rw [outcome_frame_bind_ok hx]
    exact hl

theorem execute_offFrame [Initializes R] (h : StepsWithin R host id) {i : Instruction}
    (hb : i = .arrayStore .byte → StoresBytes R) : Within (OffFrame R) (execute host id i) := by
  by_cases he : i = .monitorEnter
  · subst he
    exact monitorEnter_offFrame h
  · by_cases hx : i = .monitorExit
    · subst hx
      exact .bind (monitorExit_offFrame h.leave) fun _ => .pure _
    · exact (execute_quiet h.initializes he hx hb).mono fun _ _ => And.right

end FrameM

/-! ## Threads -/

namespace ThreadM

theorem lift_onThread {x : Exec α} (h : Within R x) :
    Within (OnThread id R) (liftM x : ThreadM α) := by
  intro s e
  rw [outcome_liftThread]
  exact ⟨e, h s.2⟩

theorem modifyThread_onThread [Std.Refl R] {g : Thread → Thread} (hg : ∀ t, (g t).id = t.id) :
    Within (OnThread id R) (modifyThe Thread g : ThreadM Unit) :=
  fun s e => ⟨(hg s.1).trans e, refl_of R s.2⟩

theorem readThread_onThread {f : Thread → ThreadM α}
    (h : ∀ t : Thread, t.id = id → Within (OnThread id R) (f t)) :
    Within (OnThread id R) ((getThe Thread : ThreadM Thread) >>= f) := by
  intro s e
  rw [outcome_bind_ok (outcome_getThread s)]
  exact h s.1 e s e

theorem threadId_onThread {f : ThreadId → ThreadM α} (h : Within (OnThread id R) (f id)) :
    Within (OnThread id R) (threadId >>= f) := by
  intro s e
  rw [threadId, outcome_bind_ok (by rw [outcome_bind_ok (outcome_getThread s), outcome_pure]), e]
  exact h s e

variable [Quiet R]

theorem topFrame_onThread : Within (OnThread id R) topFrame :=
  readThread_onThread fun t _ => by
    split
    · exact .pure _
    · exact .throw _

theorem setTop_onThread {f : Frame} : Within (OnThread id R) (setTop f) :=
  modifyThread_onThread fun _ => rfl

theorem pushFrame_onThread {f : Frame} : Within (OnThread id R) (pushFrame f) :=
  modifyThread_onThread fun _ => rfl

theorem terminate_onThread {c : Completion} : Within (OnThread id R) (terminate c) :=
  modifyThread_onThread fun _ => rfl

theorem blockOn_onThread {r : Ref} : Within (OnThread id R) (blockOn r) :=
  modifyThread_onThread fun _ => rfl

theorem awaitInit_onThread {c : Class} : Within (OnThread id R) (awaitInit c) :=
  modifyThread_onThread fun _ => rfl

theorem releaseAll_onThread (h : StepsWithin R host id) {rs : List Ref} :
    Within (OnThread id R) (releaseAll rs) :=
  readThread_onThread fun _ e => .forM fun _ _ => lift_onThread (e ▸ Exec.release_within h)

theorem leaveFrame_onThread (h : StepsWithin R host id) {f : Frame} {rest : List Frame} :
    Within (OnThread id R) (leaveFrame f rest) :=
  .bind (modifyThread_onThread fun _ => rfl) fun _ => releaseAll_onThread h

/-! ### Calls -/

variable {r : MethodRef} {lock : Option Ref} {args : List Value}

theorem nativeFor?_onThread : Within (OnThread id R) (nativeFor? r) :=
  .bind (lift_onThread Exec.get_within) fun _ => .pure _

theorem takeLock_onThread (h : StepsWithin R host id) : Within (OnThread id R) (takeLock r) := by
  have enter (lock : Ref) : Within (OnThread id R) (do
      let id ← threadId
      if ← (Exec.tryEnter lock id 1 : Exec Bool) then return .held lock else return .busy lock :
        ThreadM Locking) := by
    refine threadId_onThread (.bind (lift_onThread (h.tryEnter lock 1)) fun entered => ?_)
    cases entered <;> exact .pure _
  unfold takeLock
  split
  · exact .pure _
  · dsimp only
    split
    · exact .bind (lift_onThread Exec.classObject_within) enter
    · exact .bind topFrame_onThread fun _ => .bind (.liftExcept _) fun _ =>
        .bind (.liftExcept _) enter

theorem callNative_onThread (h : StepsWithin R host id) {native : Native} :
    Within (OnThread id R) (callNative host r native args lock) := by
  refine .bind (.liftExcept _) fun p => threadId_onThread ?_
  refine .bind (lift_onThread (Exec.attempt_within (h.native _ _ rfl))) fun _ =>
    .bind (releaseAll_onThread h) fun _ => .bind (.liftExcept _) fun value =>
      .bind topFrame_onThread fun f => ?_
  dsimp only
  split
  · exact .bind (.liftExcept _) fun _ => setTop_onThread
  · exact .bind (.pure _) fun _ => setTop_onThread

theorem callBytecode_onThread (h : StepsWithin R host id) :
    Within (OnThread id R) (callBytecode r args lock) := by
  refine .bind (lift_onThread Exec.get_within) fun m => readThread_onThread fun t _ => ?_
  split
  · exact .bind (releaseAll_onThread h) fun _ => .throw _
  · exact .bind (.liftExcept _) fun _ => pushFrame_onThread

theorem call_onThread (h : StepsWithin R host id) : Within (OnThread id R) (call host r lock) := by
  refine .bind topFrame_onThread fun f => .bind (.liftExcept _) fun p =>
    .bind setTop_onThread fun _ => .bind nativeFor?_onThread fun native => ?_
  cases native with
  | some native => exact callNative_onThread h
  | none => exact callBytecode_onThread h

theorem invoke_onThread (h : StepsWithin R host id) : Within (OnThread id R) (invoke host r) := by
  refine .bind (takeLock_onThread h) fun l => ?_
  cases l with
  | unneeded => exact call_onThread h
  | held lock => exact call_onThread h
  | busy lock => exact blockOn_onThread

theorem pushInitializer_onThread : Within (OnThread id R) (pushInitializer r) :=
  .bind (.liftExcept _) fun _ => pushFrame_onThread

theorem tryReacquire_onThread (h : StepsWithin R host id) {monitor : Ref} {count : Nat} :
    Within (OnThread id R) (tryReacquire monitor count) := by
  refine .bind (modifyThread_onThread fun _ => rfl) fun _ => threadId_onThread
    (.bind (lift_onThread (h.tryEnter _ _)) fun entered => ?_)
  cases entered with
  | true => exact .pure _
  | false => exact .bind blockOn_onThread fun _ => modifyThread_onThread fun _ => rfl

/-! ### Unwinding -/

variable [Initializes R]

theorem unwindFrom_onThread (h : StepsWithin R host id) : ∀ {fs : List Frame} {r : Ref},
    Within (OnThread id R) (unwindFrom r fs)
  | [], r => by
    rw [unwindFrom]
    exact .bind (modifyThread_onThread fun _ => rfl) fun _ =>
      .bind (lift_onThread Exec.get_within) fun _ => terminate_onThread
  | f :: rest, r => by
    rw [unwindFrom]
    refine .bind (lift_onThread Exec.findHandler?_within) fun handler => ?_
    cases handler with
    | some handler => exact .bind (.liftExcept _) fun _ => setTop_onThread
    | none =>
      refine .bind (leaveFrame_onThread h) fun _ => ?_
      split
      · exact unwindFrom_onThread h
      · exact .bind (lift_onThread Exec.setInit_within) fun _ =>
          .bind (lift_onThread Exec.initializerFailure_within) fun _ => unwindFrom_onThread h

theorem unwind_onThread (h : StepsWithin R host id) {e : Throwable} :
    Within (OnThread id R) (unwind e) :=
  .bind (lift_onThread Exec.materialize_within) fun _ =>
    readThread_onThread fun _ _ => unwindFrom_onThread h

theorem leaveAll_onThread (h : StepsWithin R host id) : ∀ {fs : List Frame},
    Within (OnThread id R) (leaveAll fs)
  | [] => .pure _
  | f :: rest => by
    rw [leaveAll]
    refine .bind (leaveFrame_onThread h) fun _ => ?_
    split
    · exact .bind (lift_onThread Exec.setInit_within) fun _ => leaveAll_onThread h
    · exact leaveAll_onThread h

theorem abort_onThread (h : StepsWithin R host id) {e : EngineError} :
    Within (OnThread id R) (abort e) :=
  readThread_onThread fun _ _ => .bind (leaveAll_onThread h) fun _ =>
    .bind (modifyThread_onThread fun _ => rfl) fun _ => terminate_onThread

omit [Initializes R] in
theorem resume_onThread {kind : FrameKind} {rest : List Frame} {value : Option Value} :
    Within (OnThread id R) (resume kind rest value) := by
  unfold resume
  split
  · exact .pure _
  · split
    · exact .bind (.liftExcept _) fun _ => setTop_onThread
    · exact .bind (.pure _) fun _ => setTop_onThread
  · refine readThread_onThread fun t _ => ?_
    split
    · exact terminate_onThread
    · exact .pure _

theorem returnFrom_onThread (h : StepsWithin R host id) {value : Option Value} :
    Within (OnThread id R) (returnFrom value) := by
  refine .bind topFrame_onThread fun f => readThread_onThread fun t _ =>
    .bind (leaveFrame_onThread h) fun _ => ?_
  dsimp only
  split
  · exact .bind (lift_onThread Exec.setInit_within) fun _ => resume_onThread
  · exact resume_onThread

/-! ### Steps -/

theorem startEntry_onThread (h : StepsWithin R host id) :
    Within (OnThread id R) (startEntry host) := by
  refine readThread_onThread fun t e => ?_
  subst e
  split
  · refine .bind (lift_onThread (Exec.readyClass_within h.initializes)) fun readiness => ?_
    cases readiness with
    | runInitializer clinit => exact pushInitializer_onThread
    | await c => exact awaitInit_onThread
    | ready =>
      refine .bind (modifyThread_onThread fun _ => rfl) fun _ =>
        .bind nativeFor?_onThread fun native => ?_
      cases native with
      | none => exact .bind (.liftExcept _) fun _ => pushFrame_onThread
      | some native =>
        exact .bind (.liftExcept _) fun p => .bind (lift_onThread (h.native _ _ rfl)) fun _ =>
          terminate_onThread
  · exact .throw _

end ThreadM

/-- If the thread executes an instruction next, a relation holds between the machines before and
    after. -/
def Thread.ExecutesWithin (R : Machine → Machine → Prop) (host : Host) (t : Thread) (m : Machine) :
    Prop :=
  t.reacquire = none → ∀ f rest, t.frames = f :: rest →
    R m (outcome (Frame.execute host t.id) (f, m)).2.2

namespace ThreadM

variable {t : Thread} {m : Machine} {f : Frame} {rest : List Frame}

theorem instruction_onThread (hf : t.frames = f :: rest)
    (hx : R m (outcome (Frame.execute host t.id) (f, m)).2.2) :
    OnThread t.id R (t, m) (outcome (instruction host t.id) (t, m)).2 := by
  rw [instruction, outcome_onTop _ hf]
  refine fun _ => ⟨rfl, ?_⟩
  rcases hy : outcome (Frame.execute host t.id) (f, m) with ⟨e | next, f', m'⟩ <;> rw [hy] at hx
  · rw [outcome_bind_error hy]
    exact hx
  · rw [outcome_bind_ok hy]
    exact hx

variable [Quiet R] [Initializes R]

theorem runInstruction_onThread (h : StepsWithin R host t.id) (hf : t.frames = f :: rest)
    (hx : R m (outcome (Frame.execute host t.id) (f, m)).2.2) :
    OnThread t.id R (t, m) (outcome (runInstruction host) (t, m)).2 := by
  have hid : outcome threadId (t, m) = (.ok t.id, t, m) := rfl
  rw [runInstruction, outcome_bind_ok hid]
  refine Within.bind_at (instruction_onThread hf hx) fun next s _ => ?_
  cases next with
  | advance => exact Within.pure _ s
  | jump => exact Within.pure _ s
  | invoke r => exact invoke_onThread h s
  | leave value => exact returnFrom_onThread h s
  | block monitor => exact blockOn_onThread s
  | awaitInit c => exact awaitInit_onThread s
  | runInitializer clinit => exact pushInitializer_onThread s

theorem tryStep_onThread (h : StepsWithin R host t.id) (hx : t.ExecutesWithin R host m) :
    OnThread t.id R (t, m) (outcome (tryStep host) (t, m)).2 := by
  rw [tryStep, outcome_bind_ok (outcome_getThread _)]
  split
  · exact tryReacquire_onThread h (t, m)
  · exact startEntry_onThread h (t, m)
  · next f rest hr hf => exact runInstruction_onThread h hf (hx hr f rest hf)

theorem stepThread_onThread (h : StepsWithin R host t.id) (hx : t.ExecutesWithin R host m) :
    OnThread t.id R (t, m) (outcome (stepThread host) (t, m)).2 := by
  refine Within.tryCatch_at (Within.tryCatch_at (tryStep_onThread h hx) fun e => ?_) fun e => ?_
  · cases e with
    | thrown e => exact unwind_onThread h
    | fatal e => exact .throw _
  · cases e with
    | thrown e => exact .pure _
    | fatal e => exact abort_onThread h

end ThreadM

/-- **A step of a thread stays within every relation that allows quiet work, the monitors' operations
    of the thread and its native calls**, if the instruction does that it executes. -/
theorem Thread.step_executes [Quiet R] [Initializes R] {t : Thread} {m : Machine}
    (h : StepsWithin R host t.id) (hx : t.ExecutesWithin R host m) :
    ((t.step host).run m).1.id = t.id ∧ R m ((t.step host).run m).2 := by
  unfold Thread.step
  split
  · exact ThreadM.stepThread_onThread h hx rfl
  · exact ⟨rfl, refl_of R m⟩

/-- Only the instruction that stores bytes must be allowed by itself. -/
theorem Frame.execute_within [Quiet R] [Initializes R] {f : Frame} (h : StepsWithin R host id)
    (hb : f.code.instructions[f.pc]? = some (.arrayStore .byte) → StoresBytes R) (m : Machine) :
    R m (outcome (Frame.execute host id) (f, m)).2.2 := by
  rw [Frame.execute, outcome_bind_ok (outcome_getFrame _)]
  cases hi : f.code.instructions[f.pc]? with
  | some i => exact FrameM.execute_offFrame h (fun e => hb (e ▸ hi)) (f, m)
  | none => exact refl_of R m

theorem Thread.executesWithin [Quiet R] [Initializes R] {t : Thread} {m : Machine}
    (h : StepsWithin R host t.id) (hb : ∀ f rest, t.reacquire = none → t.frames = f :: rest →
      f.code.instructions[f.pc]? = some (.arrayStore .byte) → StoresBytes R) :
    t.ExecutesWithin R host m :=
  fun hr f rest hf => Frame.execute_within h (hb f rest hr hf) m

theorem Thread.step_within [Quiet R] [Initializes R] [StoresBytes R] {t : Thread} {m : Machine}
    (h : StepsWithin R host t.id) :
    ((t.step host).run m).1.id = t.id ∧ R m ((t.step host).run m).2 :=
  t.step_executes h (t.executesWithin h fun _ _ _ _ _ => inferInstance)

/-- The relation that allows everything. -/
def Anything (_ _ : Machine) : Prop := True

instance : Quiet Anything where
  refl _ := trivial
  trans _ _ _ _ _ := trivial
  load _ _ := trivial
  setStatics _ _ _ := trivial
  create _ _ _ _ := trivial
  update _ _ _ _ _ := trivial
  intern _ _ _ _ _ _ _ _ := trivial
  classObject _ _ _ _ _ _ _ _ := trivial
  print _ _ _ := trivial

instance : Initializes Anything := ⟨fun _ _ _ => trivial⟩

instance : StoresBytes Anything := ⟨fun _ _ _ _ _ _ _ => trivial⟩

/-- A thread keeps its id. -/
theorem Thread.step_id (host : Host) (t : Thread) (m : Machine) :
    ((t.step host).run m).1.id = t.id :=
  have h : StepsWithin Anything host t.id :=
    ⟨fun _ _ _ _ => trivial, fun _ _ _ => trivial, fun _ _ => trivial⟩
  (Thread.step_within h).1

end GreenVm
