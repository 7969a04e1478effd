/-
  What a step does to the frames of its thread.

  * `Frame.Guarded`: a frame that has recorded the lock of its method, which its thread owns.
  * `Thread.step_callPushed`: a step leaves a thread with no more frames than it had, or it pushes
    one, which is that of a class initializer, of a method that is not synchronized, or guarded.
  * `Thread.step_entryPushed`: the first frame of a thread has recorded nothing.
-/
import GreenVm.Proofs.Calls
import GreenVm.Proofs.Quiet.Steps

namespace GreenVm

/-- The frame has recorded the lock of its method, and a thread owns that lock. -/
structure Frame.Guarded (f : Frame) (id : ThreadId) (m : Machine) (lock : Ref) : Prop where
  monitors_eq : f.monitors = [lock]
  owner_eq : (m.monitorAt lock).owner = some id
  count_pos : 1 ≤ (m.monitorAt lock).count
  static : f.method.method.isStatic = true → m.classObjects.get? f.owner.name = some lock
  receiver : f.method.method.isStatic = false → f.locals[0]? = some (.ofRef lock)

/-- A frame that may be pushed above others. -/
def Frame.Fit (f : Frame) (id : ThreadId) (m : Machine) : Prop :=
  f.kind = .method → f.method.method.isSynchronized = true → ∃ lock, f.Guarded id m lock

/-! ## Frames in the middle of a step -/

/-- The thread has these frames. -/
def HasFrames (fs : List Frame) (s : Thread × Machine) : Prop := s.1.frames = fs

/-- The thread has no more than so many frames. -/
def AtMost (n : Nat) (s : Thread × Machine) : Prop := s.1.frames.length ≤ n

/-- There is no frame above so many others, or one that is fit to be there. -/
def CallPushed (id : ThreadId) (n : Nat) (s : Thread × Machine) : Prop :=
  AtMost n s ∨ ∃ f fs, s.1.frames = f :: fs ∧ fs.length = n ∧ f.Fit id s.2

/-- There is no frame, or just one that has recorded nothing. -/
def EntryPushed (s : Thread × Machine) : Prop :=
  AtMost 0 s ∨ ∃ f, s.1.frames = [f] ∧ f.monitors = []

/-- The thread has its id and its frames as before. -/
def SameFrames (s s' : Thread × Machine) : Prop := s'.1.id = s.1.id ∧ s'.1.frames = s.1.frames

instance : Std.Refl SameFrames := ⟨fun _ => ⟨rfl, rfl⟩⟩

instance : IsTrans (Thread × Machine) SameFrames :=
  ⟨fun _ _ _ h h' => ⟨h'.1.trans h.1, h'.2.trans h.2⟩⟩

variable {α : Type} {f : Frame} {fs rest : List Frame} {n : Nat} {host : Host} {t : Thread}
  {m : Machine} {r : MethodRef} {lock : Option Ref} {args : List Value}

theorem HasFrames.atMost (s : Thread × Machine) (h : HasFrames fs s) (hn : fs.length ≤ n) :
    AtMost n s := by
  rw [AtMost, show s.1.frames = fs from h]
  exact hn

/-- Work that leaves the frames alone. -/
theorem HasFrames.of_same {x : ThreadM α} (h : Within SameFrames x) (hn : fs.length ≤ n) :
    Leads (HasFrames fs) x (fun _ => HasFrames fs) (AtMost n) :=
  (Leads.of_within h fun _ _ hs h => h.2.trans hs).failing fun s hs => HasFrames.atMost s hs hn

theorem AtMost.of_same {x : ThreadM α} (h : Within SameFrames x) :
    Leads (AtMost n) x (fun _ => AtMost n) (AtMost n) :=
  .of_within h fun s s' hs h => by rw [AtMost, h.2]; exact hs

namespace ThreadM

theorem lift_same {x : Exec α} : Within SameFrames (liftM x : ThreadM α) := fun _ => ⟨rfl, rfl⟩

theorem modifyThread_same {g : Thread → Thread}
    (h : ∀ t, (g t).id = t.id ∧ (g t).frames = t.frames) :
    Within SameFrames (modifyThe Thread g : ThreadM Unit) := fun s => h s.1

theorem getThread_same : Within SameFrames (getThe Thread : ThreadM Thread) := fun _ => ⟨rfl, rfl⟩

theorem topFrame_same : Within SameFrames topFrame :=
  .bind getThread_same fun t => by split <;> first | exact .pure _ | exact .throw _

theorem releaseAll_same {rs : List Ref} : Within SameFrames (releaseAll rs) :=
  .bind getThread_same fun _ => .forM fun _ _ => lift_same

theorem terminate_same {c : Completion} : Within SameFrames (terminate c) :=
  modifyThread_same fun _ => ⟨rfl, rfl⟩

theorem blockOn_same {l : Ref} : Within SameFrames (blockOn l) :=
  modifyThread_same fun _ => ⟨rfl, rfl⟩

theorem awaitInit_same {c : Class} : Within SameFrames (awaitInit c) :=
  modifyThread_same fun _ => ⟨rfl, rfl⟩

theorem tryReacquire_same {l : Ref} {count : Nat} : Within SameFrames (tryReacquire l count) := by
  refine .bind (modifyThread_same fun _ => ⟨rfl, rfl⟩) fun _ =>
    .bind (.bind getThread_same fun _ => .pure _) fun _ => .bind lift_same fun entered => ?_
  cases entered with
  | true => exact .pure _
  | false => exact .bind blockOn_same fun _ => modifyThread_same fun _ => ⟨rfl, rfl⟩

/-! ## Leaving frames -/

theorem setTop_hasFrames (g : Frame) :
    Leads (HasFrames (f :: rest)) (setTop g) (fun _ => HasFrames (g :: rest)) (AtMost n) := by
  rintro ⟨t, m⟩ h
  rw [setTop, outcome_modifyThread]
  show g :: t.frames.tail = g :: rest
  rw [show t.frames = f :: rest from h, List.tail_cons]

theorem leaveFrame_hasFrames (hn : rest.length ≤ n) :
    Leads (HasFrames fs) (leaveFrame f rest) (fun _ => HasFrames rest) (AtMost n) := by
  intro s _
  rw [leaveFrame, outcome_bind_ok (outcome_modifyThread _ _)]
  exact HasFrames.of_same releaseAll_same hn _ rfl

theorem unwindFrom_atMost : ∀ {fs : List Frame} {r : Ref}, fs.length ≤ n →
    Leads (HasFrames fs) (unwindFrom r fs) (fun _ => AtMost n) (AtMost n)
  | [], r, hn => by
    rw [unwindFrom]
    refine .bind (HasFrames.of_same (modifyThread_same fun _ => ⟨rfl, rfl⟩) hn) fun _ =>
      .bind (HasFrames.of_same lift_same hn) fun _ => ?_
    exact (HasFrames.of_same terminate_same hn).weaken (fun _ h => h) (fun _ s h => h.atMost s hn)
      fun _ h => h
  | f :: rest, r, hn => by
    have hrest : rest.length ≤ n := Nat.le_of_succ_le hn
    rw [unwindFrom]
    refine .bind (HasFrames.of_same lift_same hn) fun handler => ?_
    cases handler with
    | some handler =>
      refine .bind (.liftExcept _ (fun _ _ _ h => h) fun s h => h.atMost s hn) fun stack => ?_
      exact (setTop_hasFrames _).weaken (fun _ h => h) (fun _ s h => h.atMost s hn) fun _ h => h
    | none =>
      refine .bind (leaveFrame_hasFrames hrest) fun _ => ?_
      split
      · exact unwindFrom_atMost hrest
      · exact .bind (HasFrames.of_same lift_same hrest) fun _ =>
          .bind (HasFrames.of_same lift_same hrest) fun _ => unwindFrom_atMost hrest

/-- Unwinding pushes nothing. -/
theorem unwind_atMost (e : Throwable) :
    Leads (AtMost n) (unwind e) (fun _ => AtMost n) (AtMost n) := by
  refine .bind (AtMost.of_same lift_same) fun r => ?_
  intro s h
  rw [outcome_bind_ok (outcome_getThread s)]
  exact unwindFrom_atMost h s rfl

theorem leaveAll_atMost : ∀ {fs : List Frame}, fs.length ≤ n →
    Leads (HasFrames fs) (leaveAll fs) (fun _ => AtMost n) (AtMost n)
  | [], hn => .pure _ fun s h => h.atMost s hn
  | f :: rest, hn => by
    have hrest : rest.length ≤ n := Nat.le_of_succ_le hn
    rw [leaveAll]
    refine .bind (leaveFrame_hasFrames hrest) fun _ => ?_
    split
    · exact .bind (HasFrames.of_same lift_same hrest) fun _ => leaveAll_atMost hrest
    · exact leaveAll_atMost hrest

theorem abort_atMost (e : EngineError) :
    Leads (AtMost n) (abort e) (fun _ => AtMost n) (AtMost n) := by
  intro s h
  rw [abort, outcome_bind_ok (outcome_getThread s)]
  refine Leads.bind (leaveAll_atMost h) (fun _ => ?_) s rfl
  exact .bind (AtMost.of_same (modifyThread_same fun _ => ⟨rfl, rfl⟩)) fun _ =>
    AtMost.of_same terminate_same

theorem resume_atMost {kind : FrameKind} {value : Option Value} (hn : rest.length ≤ n) :
    Leads (HasFrames rest) (resume kind rest value) (fun _ => AtMost n) (AtMost n) := by
  have done (x : ThreadM Unit) (hx : Within SameFrames x) :
      Leads (HasFrames rest) x (fun _ => AtMost n) (AtMost n) :=
    (HasFrames.of_same hx hn).weaken (fun _ h => h) (fun _ s h => h.atMost s hn) fun _ h => h
  cases rest with
  | nil =>
    refine done _ (.bind getThread_same fun _ => ?_)
    split
    · exact terminate_same
    · exact .pure _
  | cons caller rest =>
    cases kind with
    | classInit => exact .pure _ fun s h => h.atMost s hn
    | method =>
      have returned (stack : OperandStack) : Leads (HasFrames (caller :: rest))
          (setTop { caller with stack, pc := caller.pc + 1 }) (fun _ => AtMost n) (AtMost n) :=
        (setTop_hasFrames _).weaken (fun _ h => h) (fun _ s hs => hs.atMost s hn) fun _ h => h
      cases value with
      | none => exact .bind (.pure _ fun _ h => h) returned
      | some v => exact .bind (.liftExcept _ (fun _ _ _ h => h) fun s h => h.atMost s hn) returned

/-- Returning takes a frame off. -/
theorem returnFrom_atMost {value : Option Value} (hn : rest.length ≤ n) :
    Leads (HasFrames (f :: rest)) (returnFrom value) (fun _ => AtMost n) (AtMost n) := by
  rintro ⟨t, m⟩ h
  have hf : t.frames = f :: rest := h
  unfold returnFrom
  rw [outcome_bind_ok (outcome_topFrame hf m), outcome_bind_ok (outcome_getThread _), hf,
    List.tail_cons]
  refine Leads.bind (leaveFrame_hasFrames hn) (fun _ => ?_) (t, m) h
  dsimp only
  split
  · exact .bind (HasFrames.of_same lift_same hn) fun _ => resume_atMost hn
  · exact resume_atMost hn

/-! ## Calls -/

theorem callNative_atMost {native : Native} (hn : rest.length + 1 ≤ n) :
    Leads (HasFrames (f :: rest)) (callNative host r native args lock) (fun _ => AtMost n)
      (AtMost n) := by
  have failing {s : Thread × Machine} (h : HasFrames (f :: rest) s) : AtMost n s := h.atMost s hn
  refine .bind (.liftExcept _ (fun _ _ _ h => h) fun _ => failing) fun p => ?_
  refine .bind (HasFrames.of_same (.bind getThread_same fun _ => .pure _) hn) fun _ =>
    .bind (HasFrames.of_same lift_same hn) fun result =>
      .bind (HasFrames.of_same releaseAll_same hn) fun _ =>
        .bind (.liftExcept _ (fun _ _ _ h => h) fun _ => failing) fun value =>
          .bind (HasFrames.of_same topFrame_same hn) fun g => ?_
  have done (stack : OperandStack) : Leads (HasFrames (f :: rest))
      (setTop { g with stack, pc := g.pc + 1 }) (fun _ => AtMost n) (AtMost n) :=
    (setTop_hasFrames _).weaken (fun _ h => h) (fun _ s hs => hs.atMost s hn) fun _ h => h
  dsimp only
  split
  · exact .bind (.liftExcept _ (fun _ _ _ h => h) fun _ => failing) done
  · exact .bind (.pure _ fun _ h => h) done

/-- The frame of a call has its lock recorded. -/
theorem callBytecode_callPushed {id : ThreadId} {stack : OperandStack} (hf : t.frames.length = n)
    (ha : f.stack.popArgs r.method.argumentCount = .ok (args, stack))
    (hl : r.method.isSynchronized = true → ∃ l, lock = some l ∧
      ((m.monitorAt l).owner = some id ∧ 1 ≤ (m.monitorAt l).count) ∧ r.LockIs f m l) :
    Leads (· = (t, m)) (callBytecode r args lock) (fun _ => CallPushed id n) (AtMost n) := by
  rintro _ rfl
  unfold callBytecode
  rw [outcome_bind_ok (by rw [outcome_liftThread, outcome_get]),
    outcome_bind_ok (outcome_getThread _)]
  dsimp only
  cases callFailure? r t.depth m.config.maxCallDepth with
  | some fault =>
    exact Leads.bind (HasFrames.of_same releaseAll_same hf.le)
      (fun _ => .throw _ fun s h => h.atMost s hf.le) (t, m) rfl
  | none =>
    dsimp only
    cases he : Frame.enter r args .method with
    | error e =>
      rw [outcome_engine_bind_error]
      exact hf.le
    | ok callee =>
      rw [outcome_engine_bind_ok]
      obtain ⟨hmethod, -, -, locals, hlocals⟩ := Frame.enter_ok he
      refine .inr ⟨{ callee with monitors := lock.toList }, t.frames, rfl, hf, fun _ hs => ?_⟩
      obtain ⟨l, rfl, ⟨hown, hcount⟩, hlock⟩ := hl (hmethod ▸ hs)
      refine ⟨l, rfl, hown, hcount, fun h => ?_, fun h => ?_⟩
      · show m.classObjects.get? callee.method.owner.name = some l
        rw [hmethod]
        exact hlock.static (hmethod ▸ h)
      · have h : r.method.isStatic = false := hmethod ▸ h
        have hc : r.method.argumentCount = r.method.type.parameters.length + 1 := by
          simp [Method.argumentCount, h]
        have hv := hlock.receiver h
        rw [hc] at ha hv
        obtain ⟨others, rfl⟩ := OperandStack.popArgs_cons ha hv
        exact Frame.layOut_first hlocals

theorem call_callPushed {id : ThreadId} (hf : t.frames = f :: rest) (hn : rest.length + 1 = n)
    (hl : r.method.isSynchronized = true → ∃ l, lock = some l ∧
      ((m.monitorAt l).owner = some id ∧ 1 ≤ (m.monitorAt l).count) ∧ r.LockIs f m l) :
    Leads (· = (t, m)) (call host r lock) (fun _ => CallPushed id n) (AtMost n) := by
  rintro _ rfl
  have hlen : t.frames.length = n := by rw [hf, List.length_cons, hn]
  unfold call
  rw [outcome_bind_ok (outcome_topFrame hf m)]
  cases ha : f.stack.popArgs r.method.argumentCount with
  | error e =>
    rw [outcome_engine_bind_error]
    exact hlen.le
  | ok a =>
    obtain ⟨args, stack⟩ := a
    rw [outcome_engine_bind_ok]
    dsimp only
    rw [setTop, outcome_bind_ok (outcome_modifyThread _ _), outcome_bind_ok
      (outcome_nativeFor? r _ m), hf, List.tail_cons]
    cases m.natives.lookup? r.owner.name r.method.name r.method.descriptor with
    | some native =>
      have lower : Leads (HasFrames ({ f with stack } :: rest)) (callNative host r native args lock)
          (fun _ => CallPushed id n) (AtMost n) :=
        (callNative_atMost hn.le).weaken (fun _ h => h) (fun _ _ h => .inl h) fun _ h => h
      refine lower _ ?_
      rfl
    | none =>
      refine callBytecode_callPushed ?_ ha hl _ rfl
      exact hn

theorem invoke_callPushed (hf : t.frames = f :: rest) (hn : rest.length + 1 = n) (m : Machine) :
    Leads (· = (t, m)) (invoke host r) (fun _ => CallPushed t.id n) (AtMost n) := by
  rintro _ rfl
  have hlen : t.frames.length = n := by rw [hf, List.length_cons, hn]
  have hl := takeLock_spec r hf m
  unfold invoke
  generalize ho : outcome (takeLock r) (t, m) = x at hl
  cases hl with
  | failed =>
    rw [outcome_bind_error ho]
    exact hlen.le
  | unneeded hs =>
    rw [outcome_bind_ok ho]
    exact call_callPushed hf hn (fun h => absurd (hs.symm.trans h) nofun) _ rfl
  | busy =>
    rw [outcome_bind_ok ho]
    exact .inl hlen.le
  | held _ he hr =>
    rw [outcome_bind_ok ho]
    exact call_callPushed hf hn (fun _ => ⟨_, rfl, Exec.tryEnter_owner he, hr⟩) _ rfl

theorem runInstruction_callPushed (hf : t.frames = f :: rest) (hn : rest.length + 1 = n)
    (m : Machine) :
    Leads (· = (t, m)) (runInstruction host) (fun _ => CallPushed t.id n) (AtMost n) := by
  rintro _ rfl
  unfold runInstruction
  rw [outcome_bind_ok (outcome_threadId _)]
  obtain ⟨x, f', m', hi⟩ : ∃ x f' m', outcome (instruction host t.id) (t, m) =
      (x, { t with frames := f' :: rest }, m') := ⟨_, _, _, outcome_onTop _ hf m⟩
  cases x with
  | error e =>
    rw [outcome_bind_error hi]
    exact hn.le
  | ok next =>
    rw [outcome_bind_ok hi]
    cases next with
    | advance => exact .inl hn.le
    | jump pc => exact .inl hn.le
    | block monitor => exact .inl hn.le
    | awaitInit c => exact .inl hn.le
    | invoke r =>
      exact invoke_callPushed (t := { t with frames := f' :: rest }) rfl hn m' _ rfl
    | leave value =>
      have lower : Leads (HasFrames (f' :: rest)) (returnFrom value) (fun _ => CallPushed t.id n)
          (AtMost n) :=
        (returnFrom_atMost (Nat.le_of_succ_le hn.le)).weaken (fun _ h => h) (fun _ _ h => .inl h)
          fun _ h => h
      refine lower _ ?_
      rfl
    | runInitializer clinit =>
      dsimp only
      unfold pushInitializer
      cases he : Frame.enter clinit [] .classInit with
      | error e =>
        rw [outcome_engine_bind_error]
        exact hn.le
      | ok g =>
        rw [outcome_engine_bind_ok]
        refine .inr ⟨g, f' :: rest, rfl, hn, fun hk => ?_⟩
        rw [(Frame.enter_ok he).2.1] at hk
        cases hk

/-! ## The first frame -/

theorem pushFirst_entryPushed {kind : FrameKind} : Leads (HasFrames [])
    (do pushFrame (← Frame.enter r args kind) : ThreadM Unit) (fun _ => EntryPushed)
    (AtMost 0) := by
  rintro ⟨t, m⟩ h
  cases he : Frame.enter r args kind with
  | error e =>
    rw [outcome_engine_bind_error]
    exact h.atMost _ le_rfl
  | ok f =>
    rw [outcome_engine_bind_ok]
    exact .inr ⟨f, congrArg (f :: ·) (show t.frames = [] from h), (Frame.enter_ok he).2.2.1⟩

theorem startEntry_entryPushed : Leads (HasFrames []) (startEntry host) (fun _ => EntryPushed)
    (AtMost 0) := by
  have failing {s : Thread × Machine} (h : HasFrames [] s) : AtMost 0 s := h.atMost s le_rfl
  have still {x : ThreadM Unit} (h : Within SameFrames x) :
      Leads (HasFrames []) x (fun _ => EntryPushed) (AtMost 0) :=
    (HasFrames.of_same h le_rfl).weaken (fun _ h => h) (fun _ _ h => .inl (failing h)) fun _ h => h
  refine .bind (HasFrames.of_same getThread_same le_rfl) fun t => ?_
  split
  · refine .bind (HasFrames.of_same lift_same le_rfl) fun readiness => ?_
    cases readiness with
    | runInitializer clinit => exact pushFirst_entryPushed
    | await c => exact still awaitInit_same
    | ready =>
      refine .bind (HasFrames.of_same (modifyThread_same fun _ => ⟨rfl, rfl⟩) le_rfl) fun _ =>
        .bind (HasFrames.of_same (.bind lift_same fun _ => .pure _) le_rfl) fun native => ?_
      cases native with
      | none => exact pushFirst_entryPushed
      | some native =>
        exact still (.bind (.liftExcept _) fun _ => .bind lift_same fun _ => terminate_same)
  · exact .throw _ fun _ => failing

/-! ## Steps -/

/-- A step that fails pushes nothing. -/
theorem stepThread_pushes {Q : Thread × Machine → Prop} (hq : ∀ s, AtMost t.frames.length s → Q s)
    (h : Leads (· = (t, m)) (tryStep host) (fun _ => Q) (AtMost t.frames.length)) :
    Leads (· = (t, m)) (stepThread host) (fun _ => Q) Q := by
  refine .tryCatch (E := AtMost t.frames.length) (.tryCatch h fun e => ?_) fun e => ?_
  · cases e with
    | thrown e => exact (unwind_atMost e).weaken (fun _ h => h) (fun _ => hq) fun _ h => h
    | fatal e => exact .throw _ fun _ h => h
  · cases e with
    | thrown e => exact .pure _ hq
    | fatal e => exact (abort_atMost e).weaken (fun _ h => h) (fun _ => hq) hq

/-- A thread that takes a monitor back pushes nothing. -/
theorem tryStep_reacquires {p : Ref × Nat} (hr : t.reacquire = some p) :
    Leads (· = (t, m)) (tryStep host) (fun _ => AtMost t.frames.length)
      (AtMost t.frames.length) := by
  rintro _ rfl
  unfold tryStep
  rw [outcome_bind_ok (outcome_getThread _), hr]
  exact AtMost.of_same tryReacquire_same (t, m) (Nat.le_refl _)

end ThreadM

/-- A thread with frames pushes at most one, and that one is fit to be pushed above others. -/
theorem Thread.step_callPushed (host : Host) {t : Thread} (hf : t.frames ≠ []) (m : Machine) :
    CallPushed t.id t.frames.length ((t.step host).run m) := by
  unfold Thread.step
  split
  · refine Leads.outcome_snd (ThreadM.stepThread_pushes (fun _ => .inl) ?_) (s := (t, m)) rfl
    cases hr : t.reacquire with
    | some p =>
      exact (ThreadM.tryStep_reacquires hr).weaken (fun _ h => h) (fun _ _ => .inl) fun _ h => h
    | none =>
      obtain ⟨f, rest, hfr⟩ := List.exists_cons_of_ne_nil hf
      rintro _ rfl
      unfold ThreadM.tryStep
      rw [outcome_bind_ok (outcome_getThread _), hr, hfr]
      exact ThreadM.runInstruction_callPushed hfr rfl m _ rfl
  · exact .inl (Nat.le_refl _)

/-- A thread without frames pushes at most one, which has recorded nothing. -/
theorem Thread.step_entryPushed (host : Host) {t : Thread} (hf : t.frames = []) (m : Machine) :
    EntryPushed ((t.step host).run m) := by
  have hlen : t.frames.length = 0 := by rw [hf]; rfl
  have lower (s : Thread × Machine) (h : AtMost t.frames.length s) : EntryPushed s :=
    .inl (hlen ▸ h)
  unfold Thread.step
  split
  · refine Leads.outcome_snd (ThreadM.stepThread_pushes lower ?_) (s := (t, m)) rfl
    cases hr : t.reacquire with
    | some p =>
      exact (ThreadM.tryStep_reacquires hr).weaken (fun _ h => h) (fun _ => lower) fun _ h => h
    | none =>
      rintro _ rfl
      unfold ThreadM.tryStep
      rw [outcome_bind_ok (outcome_getThread _), hr, hf]
      exact ThreadM.startEntry_entryPushed (t, m) hf
  · exact lower _ (Nat.le_refl _)

end GreenVm
