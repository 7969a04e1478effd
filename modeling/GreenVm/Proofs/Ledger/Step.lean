/-
  The ledger of a thread over one step.

  * `Thread.keepsLock`: a call that has taken its lock goes as far as recording it.
  * `Thread.step_rested`: a step in which this is so keeps the ledger of the thread, and changes
    nobody else's holds.
-/
import GreenVm.Proofs.Ledger.Unwinding

namespace GreenVm

/-! ## Calls that keep their lock -/

/-- Whether a call for which a thread holds the lock goes ahead: the arguments are there, and they
    fit into a frame of the method, if it needs one.  A native method must not be a wait, which
    would count the lock among the holds to be taken back. -/
def MethodRef.fits (r : MethodRef) (t : Thread) (m : Machine) : Bool :=
  match t.frames with
  | [] => false
  | f :: _ =>
    match f.stack.popArgs r.method.argumentCount with
    | .error _ => false
    | .ok (args, _) =>
      match m.natives.lookup? r.owner.name r.method.name r.method.descriptor with
      | some native => !native.isWait
      | none =>
        (ThreadM.callFailure? r t.depth m.config.maxCallDepth).isSome ||
          (Frame.enter r args .method).toBool

/-- Whether the call that the next step of a thread makes, if it makes one and gets the lock for it,
    goes ahead with the lock. -/
def Thread.keepsLock (host : Host) (t : Thread) (m : Machine) : Bool :=
  match t.reacquire, outcome (ThreadM.instruction host t.id) (t, m) with
  | none, (.ok (.invoke r), s) =>
    match outcome (ThreadM.takeLock r) s with
    | (.ok (.held _), s) => r.fits s.1 s.2
    | _ => true
  | _, _ => true
section

variable {m m' : Machine} {id : ThreadId} {extra : List Ref} {f : Frame} {fs rest : List Frame}
  {t : Thread} {s : Thread × Machine} {α : Type}

/-! ## Instructions -/

/-- At work on a frame that is out of its thread, above the frames `rest`. -/
def BusyTop (id : ThreadId) (t : Thread) (rest : List Frame)
    (s : Frame × Machine) : Prop :=
  Busy id [] (s.1 :: rest) ({ t with frames := s.1 :: rest }, s.2)

namespace BusyTop

/-- Quiet work on the frame keeps the ledger. -/
theorem moves {s s' : Frame × Machine} (h : BusyTop id t rest s) (hs : OnFrame LeavesLocks s s') :
    BusyTop id t rest s' := by
  obtain ⟨f, m⟩ := s
  obtain ⟨f', m'⟩ := s'
  obtain ⟨⟨pc, locals, stack, e⟩, hl⟩ := hs
  refine (Busy.machine h hl).withFrames (fun r => ?_) rfl
  simp only at e
  simp only [e, Thread.recordedIn_cons]

theorem of_within {x : FrameM α} (hx : Within (OnFrame LeavesLocks) x) :
    Leads (BusyTop id t rest) x (fun _ => BusyTop id t rest) (BusyTop id t rest) :=
  .of_within hx fun _ _ => moves

end BusyTop

namespace FrameM

/-- A monitor that is entered is recorded in the frame at once. -/
theorem monitorEnter_leads : Leads (BusyTop id t rest) (monitorEnter id)
    (fun _ => BusyTop id t rest) (BusyTop id t rest) := by
  rintro ⟨f, m⟩ h
  have hs := monitorEnter_spec id f m
  generalize outcome (monitorEnter id) (f, m) = x at hs
  cases hs with
  | failed => exact h
  | busy _ he => exact Busy.machine h (Exec.tryEnter_refused he)
  | entered _ he => exact (Busy.taken h he).record _

/-- A hold that is given back is struck from the frame, if it is recorded there. -/
theorem monitorExit_leads : Leads (BusyTop id t rest) (monitorExit id)
    (fun _ => BusyTop id t rest) (BusyTop id t rest) := by
  rintro ⟨f, m⟩ h
  have hs := monitorExit_spec id f m
  generalize outcome (monitorExit id) (f, m) = x at hs
  cases hs with
  | failed => exact Busy.withFrames h (fun r => by simp) rfl
  | @exited r stack m' _ hc hh hq =>
    exact
      { id_eq := h.id_eq
        counted := hc h.counted
        status_eq := h.status_eq
        blocker_eq := h.blocker_eq
        reacquire_eq := h.reacquire_eq
        frames_eq := rfl
        noWait := fun w e => h.noWait w (hq ▸ e)
        balanced := fun r' => by
          have : m.holds id r' ≤ _ := h.balanced r'
          refine (hh id r').trans_le ?_
          simp only [Thread.recordedIn_cons, List.count_nil] at this ⊢
          rw [List.count_erase]
          by_cases hr : r = r'
          · simp only [hr, and_self, if_true, beq_self_eq_true]
            omega
          · simpa [hr, Ne.symm hr] using this }

theorem execute_leads {host : Host} (hh : host.Within LeavesLocks) (i : Instruction) :
    Leads (BusyTop id t rest) (execute host id i) (fun _ => BusyTop id t rest)
      (BusyTop id t rest) := by
  by_cases he : i = .monitorEnter
  · subst he
    exact monitorEnter_leads
  · by_cases hx : i = .monitorExit
    · subst hx
      exact .bind monitorExit_leads fun _ => .pure _ fun _ h => h
    · exact BusyTop.of_within (execute_quiet (initializesWithin_leavesLocks hh id) he hx
        fun _ => inferInstance)

end FrameM

theorem ThreadM.instruction_leads {host : Host} (hh : host.Within LeavesLocks) :
    Leads (Busy id [] (f :: rest)) (instruction host id)
      (fun _ s => ∃ f', Busy id [] (f' :: rest) s) (Failing id) := by
  rintro ⟨t, m⟩ h
  have execute : Leads (BusyTop id t rest) (Frame.execute host id)
      (fun _ => BusyTop id t rest) (BusyTop id t rest) := by
    intro s h
    rw [Frame.execute, outcome_bind_ok (outcome_getFrame s)]
    cases s.1.code.instructions[s.1.pc]? with
    | some i => exact FrameM.execute_leads hh i s h
    | none => exact h
  have work : Leads (BusyTop id t rest) (do
      let next ← Frame.execute host id
      modifyThe Frame (·.moved next)
      return next : FrameM Next) (fun _ => BusyTop id t rest) (BusyTop id t rest) :=
    .bind execute fun next =>
      .bind (BusyTop.of_within (FrameM.modifyFrame_within fun f => f.moved_moves next)) fun _ =>
        .pure _ fun _ h => h
  have hb : BusyTop id t rest (f, m) := h.withFrames (fun _ => rfl) rfl
  have := work (f, m) hb
  rw [instruction, outcome_onTop _ h.frames_eq]
  split at this <;> next e =>
    simp only [e]
    exact ⟨_, this⟩

namespace ThreadM

/-! ## Calls -/

variable {lock : Option Ref} {args : List Value} {host : Host} {r : MethodRef}

theorem topFrame_leads : Leads (Busy id extra (f :: rest)) topFrame
    (fun g s => g = f ∧ Busy id extra (f :: rest) s) (fun _ => False) := by
  rintro ⟨t, m⟩ h
  rw [outcome_topFrame h.frames_eq]
  exact ⟨rfl, h⟩

/-- A frame is pushed that records what was not recorded before. -/
theorem pushFrame_leads (f : Frame) : Leads (Busy id f.monitors fs) (pushFrame f)
    (fun _ => Busy id [] (f :: fs)) (fun _ => False) := by
  rintro ⟨t, m⟩ h
  rw [pushFrame, outcome_modifyThread]
  exact
    { id_eq := h.id_eq
      counted := h.counted
      status_eq := h.status_eq
      blocker_eq := h.blocker_eq
      reacquire_eq := h.reacquire_eq
      frames_eq := by rw [← h.frames_eq]
      noWait := h.noWait
      balanced := fun r => by
        have : m.holds id r ≤ _ := h.balanced r
        rw [Thread.recordedIn_cons]
        show m.holds id r ≤ _
        simp only [List.count_nil]
        omega }

/-- What is known when the lock of a call has been dealt with. -/
def Locked (id : ThreadId) (r : MethodRef) (f : Frame) (rest : List Frame) (l : Locking)
    (s : Thread × Machine) : Prop :=
  match l with
  | .held lock => Busy id [lock] (f :: rest) s ∧ r.LockIs f s.2 lock
  | _ => Busy id [] (f :: rest) s

theorem takeLock_leads (r : MethodRef) : Leads (Busy id [] (f :: rest)) (takeLock r)
    (Locked id r f rest) (Failing id) := by
  rintro ⟨t, m⟩ h
  have hl := takeLock_spec r h.frames_eq m
  generalize outcome (takeLock r) (t, m) = x at hl
  cases hl with
  | failed hl => exact (h.machine hl).failing
  | unneeded => exact h
  | busy hl => exact h.machine hl
  | held hl he hr => exact ⟨(h.machine hl).taken (h.id_eq ▸ he), hr⟩

/-- The arguments of a call whose receiver has been locked can be told from the receiver. -/
theorem splitReceiver_ok {stack' : OperandStack} {m : Machine} {l : Ref}
    (ha : f.stack.popArgs r.method.argumentCount = .ok (args, stack')) (hl : r.LockIs f m l) :
    ∃ p, r.splitReceiver args = .ok p := by
  cases hs : r.method.isStatic with
  | true => exact ⟨_, by simp only [MethodRef.splitReceiver, hs, if_true]; rfl⟩
  | false =>
    have hc : r.method.argumentCount = r.method.type.parameters.length + 1 := by
      simp [Method.argumentCount, hs]
    have hv := hl.receiver hs
    rw [hc] at ha hv
    obtain ⟨rest, rfl⟩ := OperandStack.popArgs_cons ha hv
    exact ⟨(some l, rest), by simp only [MethodRef.splitReceiver, hs]; rfl⟩

/-- Releasing the lock of a call, if there is one. -/
theorem releaseLock_leads : Leads (Busy id lock.toList fs) (releaseAll lock.toList)
    (fun _ => Busy id [] fs) (fun _ => False) := by
  have h : Leads (Busy id (lock.toList ++ []) fs) (releaseAll lock.toList)
      (fun _ => Busy id [] fs) (fun _ => False) := releaseAll_leads lock.toList
  rwa [List.append_nil] at h

/-- What remains of a native call once it has a result. -/
theorem finishNative_leads (r : MethodRef) (result : Except Fault (Option Value)) :
    Leads (Busy id lock.toList (f :: rest)) (do
      releaseAll lock.toList
      let value ← result
      let f ← topFrame
      let stack ← match value, r.method.type.returnType with
        | some v, some _ => f.stack.push v
        | _, _ => pure f.stack
      setTop { f with stack, pc := f.pc + 1 } : ThreadM Unit) (fun _ => Rested id)
      (Failing id) := by
  have done (stack : OperandStack) : Leads (Busy id [] (f :: rest))
      (setTop { f with stack, pc := f.pc + 1 }) (fun _ => Rested id) (Failing id) :=
    (setTop_leads f { f with stack, pc := f.pc + 1 } rfl).weaken (fun _ h => h)
      (fun _ _ => Busy.rested) fun _ => False.elim
  refine .bind (releaseLock_leads.failing fun _ => False.elim) fun _ =>
    .bind (liftExcept_leads _) fun value =>
      .bind (topFrame_leads.failing fun _ => False.elim) fun g => ?_
  rintro s ⟨rfl, h⟩
  rcases value with _ | v
  · exact Leads.bind (.pure _ fun _ h => h) done s h
  · cases r.method.type.returnType with
    | none => exact Leads.bind (.pure _ fun _ h => h) done s h
    | some _ => exact Leads.bind (liftExcept_leads _) done s h

theorem outcome_releaseAll_nil (s : Thread × Machine) :
    outcome (releaseAll []) s = (.ok (), s) := rfl

/-- A native call either releases the lock that was taken for it, or it is a wait for which none
    was taken. -/
theorem callNative_leads (hh : host.Within LeavesLocks) {native : Native}
    (hs : lock.isSome → ∃ p, r.splitReceiver args = .ok p)
    (hw : lock.isSome → native.isWait = false) :
    Leads (Busy id lock.toList (f :: rest)) (callNative host r native args lock)
      (fun _ => Rested id) (Failing id) := by
  rintro ⟨t, m⟩ h
  unfold callNative
  cases hp : r.splitReceiver args with
  | error e =>
    cases lock with
    | some lock => obtain ⟨p, e'⟩ := hs rfl; cases hp.symm.trans e'
    | none =>
      rw [outcome_bind_error (outcome_liftExcept _ _)]
      exact h.failing
  | ok p =>
    obtain ⟨receiver, args⟩ := p
    rw [outcome_bind_ok (outcome_liftExcept _ _)]
    dsimp only
    rw [outcome_bind_ok (outcome_threadId _), show t.id = id from h.id_eq,
      outcome_bind_ok (by rw [outcome_liftThread, outcome_attempt])]
    let call : NativeCall := { owner := r.owner, receiver, args, thread := id }
    have hrun : LeavesLocks m (outcome (native.run host call) m).2 ∨ _ :=
      Native.run_cases hh m
    rcases hrun with hl | ⟨o, c, m', hwait, -, hout, hgave⟩
    · exact finishNative_leads r _ _ (h.machine hl)
    · cases lock with
      | some lock => rw [hw rfl] at hwait; cases hwait
      | none =>
        rw [hout, Option.toList_none, outcome_bind_ok (outcome_releaseAll_nil _),
          outcome_bind_ok (outcome_liftExcept _ _),
          outcome_bind_ok (outcome_topFrame h.frames_eq m')]
        exact h.gaveUp hgave

/-- A bytecode method is called with a frame that records the lock, or the lock is released. -/
theorem callBytecode_leads : Leads
    (fun s => Busy id lock.toList fs s ∧ (lock.isSome →
      (callFailure? r s.1.depth s.2.config.maxCallDepth).isSome ∨
        (Frame.enter r args .method).toBool))
    (callBytecode r args lock) (fun _ => Rested id) (Failing id) := by
  rintro ⟨t, m⟩ ⟨h, hfits⟩
  unfold callBytecode
  rw [outcome_bind_ok (by rw [outcome_liftThread, outcome_get]),
    outcome_bind_ok (outcome_getThread _)]
  dsimp only
  cases hc : callFailure? r t.depth m.config.maxCallDepth with
  | some fault =>
    exact Leads.bind (releaseLock_leads.failing fun _ => False.elim)
      (fun _ => .throw _ fun _ => Busy.failing) _ h
  | none =>
    dsimp only
    cases he : Frame.enter r args .method with
    | ok callee =>
      rw [outcome_engine_bind_ok]
      have pushed : Busy id [] ({ callee with monitors := lock.toList } :: fs) _ :=
        pushFrame_leads _ _ h
      exact pushed.rested
    | error e =>
      cases lock with
      | some lock => simp [hc, he, Except.toBool] at hfits
      | none =>
        rw [outcome_engine_bind_error]
        exact h.failing

/-- A call keeps the ledger, if it goes ahead with the lock it has taken. -/
theorem call_leads (hh : host.Within LeavesLocks) (lock : Option Ref) : Leads
    (fun s => Busy id lock.toList (f :: rest) s ∧
      ∀ l, lock = some l → r.fits s.1 s.2 = true ∧ r.LockIs f s.2 l)
    (call host r lock) (fun _ => Rested id) (Failing id) := by
  rintro ⟨t, m⟩ ⟨h, hlock⟩
  have hf : t.frames = f :: rest := h.frames_eq
  unfold call
  rw [outcome_bind_ok (outcome_topFrame hf m)]
  cases ha : f.stack.popArgs r.method.argumentCount with
  | error e =>
    cases lock with
    | some l => simp [MethodRef.fits, hf, ha] at hlock
    | none =>
      rw [outcome_engine_bind_error]
      exact h.failing
  | ok a =>
    obtain ⟨args, stack⟩ := a
    rw [outcome_engine_bind_ok]
    have h' : Busy id lock.toList ({ f with stack } :: rest)
        ({ t with frames := { f with stack } :: t.frames.tail }, m) :=
      (setTop_leads f { f with stack } rfl) (t, m) h
    dsimp only
    rw [setTop]
    rw [outcome_bind_ok (outcome_modifyThread _ _), outcome_bind_ok (outcome_nativeFor? r _ m)]
    cases hl : m.natives.lookup? r.owner.name r.method.name r.method.descriptor with
    | some native =>
      refine callNative_leads hh (fun hs => ?_) (fun hs => ?_) _ h'
      · obtain ⟨l, rfl⟩ := Option.isSome_iff_exists.1 hs
        exact splitReceiver_ok ha (hlock l rfl).2
      · obtain ⟨l, rfl⟩ := Option.isSome_iff_exists.1 hs
        simpa [MethodRef.fits, hf, ha, hl] using (hlock l rfl).1
    | none =>
      refine callBytecode_leads _ ⟨h', fun hs => ?_⟩
      obtain ⟨l, rfl⟩ := Option.isSome_iff_exists.1 hs
      simpa [MethodRef.fits, hf, ha, hl] using (hlock l rfl).1

theorem invoke_leads (hh : host.Within LeavesLocks) : Leads
    (fun s => Busy id [] (f :: rest) s ∧
      ∀ l s', outcome (takeLock r) s = (.ok (.held l), s') → r.fits s'.1 s'.2 = true)
    (invoke host r) (fun _ => Rested id) (Failing id) := by
  rintro s ⟨h, hfits⟩
  have hl := takeLock_leads r s h
  unfold invoke
  rcases ho : outcome (takeLock r) s with ⟨e | l, s'⟩ <;> rw [ho] at hl
  · rw [outcome_bind_error ho]
    exact hl
  · rw [outcome_bind_ok ho]
    cases l with
    | unneeded =>
      exact call_leads hh none s' ⟨hl, nofun⟩
    | held l =>
      refine call_leads hh (some l) s' ⟨hl.1, ?_⟩
      rintro _ ⟨⟩
      exact ⟨hfits l s' ho, hl.2⟩
    | busy l => exact blockOn_leads s' hl

/-! ## Returns and entries -/

theorem resume_leads {kind : FrameKind} {value : Option Value} : Leads (Busy id [] rest)
    (resume kind rest value) (fun _ => Rested id) (Failing id) := by
  cases rest with
  | nil =>
    intro s h
    unfold resume
    dsimp only
    rw [outcome_bind_ok (outcome_getThread s)]
    exact Leads.ite terminate_leads (.pure _ fun _ => Busy.rested) s h
  | cons caller rest =>
    cases kind with
    | classInit => exact .pure _ fun _ => Busy.rested
    | method =>
      have done (stack : OperandStack) : Leads (Busy id [] (caller :: rest))
          (setTop { caller with stack, pc := caller.pc + 1 }) (fun _ => Rested id)
          (Failing id) :=
        (setTop_leads caller { caller with stack, pc := caller.pc + 1 } rfl).weaken
          (fun _ h => h) (fun _ _ => Busy.rested) fun _ => False.elim
      cases value with
      | none => exact .bind (.pure _ fun _ h => h) done
      | some v => exact .bind (liftExcept_leads _) done

theorem returnFrom_leads (value : Option Value) : Leads (Busy id [] (f :: rest))
    (returnFrom value) (fun _ => Rested id) (Failing id) := by
  unfold returnFrom
  refine .bind (topFrame_leads.failing fun _ => False.elim) fun g => ?_
  rintro s ⟨rfl, h⟩
  rw [outcome_bind_ok (outcome_getThread s), h.frames_eq, List.tail_cons]
  refine Leads.bind (leaveFrame_leads.failing fun _ => False.elim) (fun _ => ?_) s h
  dsimp only
  split
  · exact .bind (setInit_leads.failing fun _ => False.elim) fun _ => resume_leads
  · exact resume_leads

end ThreadM

namespace ThreadM

theorem pushInitializer_leads : Leads (Busy id [] fs) (pushInitializer r)
    (fun _ => Rested id) (Failing id) := by
  rintro ⟨t, m⟩ h
  unfold pushInitializer
  cases he : Frame.enter r [] .classInit with
  | error e =>
    rw [outcome_engine_bind_error]
    exact h.failing
  | ok f =>
    rw [outcome_engine_bind_ok]
    have pushed : Busy id [] (f :: fs) _ :=
      pushFrame_leads f _ ((Frame.enter_ok he).2.2.1.symm ▸ h)
    exact pushed.rested

/-- A native method that is called by a thread without holds leaves the locks alone. -/
theorem native_leads (hh : host.Within LeavesLocks) {native : Native} {owner : Class}
    {receiver : Option Ref} : Leads (Busy id [] [])
      (liftM (native.run host { owner, receiver, args, thread := id }) : ThreadM (Option Value))
      (fun _ => Busy id [] []) (Failing id) := by
  rintro ⟨t, m⟩ h
  rw [outcome_liftThread]
  let call : NativeCall := { owner, receiver, args, thread := id }
  have hrun : LeavesLocks m (outcome (native.run host call) m).2 ∨ _ :=
    Native.run_cases hh m
  rcases hrun with hl | ⟨o, c, m', -, -, -, hgave⟩
  · split <;> next e =>
      obtain ⟨-, rfl⟩ := Prod.mk.inj e
      first | exact h.machine hl | exact (h.machine hl).failing
  · have hc : c = m.holds id o := hgave.count_eq
    have hp := hgave.count_pos h.counted
    have hb : m.holds id o ≤ 0 := h.balanced o
    omega

/-- The entry method starts without a hold, so that a native entry method cannot wait. -/
theorem startEntry_leads (hh : host.Within LeavesLocks) : Leads (Busy id [] [])
    (startEntry host) (fun _ => Rested id) (Failing id) := by
  intro s h
  unfold startEntry
  rw [outcome_bind_ok (outcome_getThread s)]
  cases he : s.1.entry with
  | none =>
    dsimp only
    rw [outcome_throw]
    exact h.failing
  | some entry =>
    obtain ⟨r, args⟩ := entry
    dsimp only
    refine Leads.bind (lift_leads (Exec.readyClass_within (initializesWithin_leavesLocks hh _)))
      (fun readiness => ?_) s h
    cases readiness with
    | runInitializer clinit => exact pushInitializer_leads
    | await c => exact awaitInit_leads
    | ready =>
      refine .bind ((modifyEntry_leads fun _ => rfl).failing fun _ => False.elim) fun _ => ?_
      rintro ⟨t, m⟩ h'
      rw [outcome_bind_ok (outcome_nativeFor? r t m)]
      cases m.natives.lookup? r.owner.name r.method.name r.method.descriptor with
      | none =>
        dsimp only
        cases he : Frame.enter r args .method with
        | error e =>
          rw [outcome_engine_bind_error]
          exact h'.failing
        | ok f =>
          rw [outcome_engine_bind_ok]
          have pushed : Busy id [] [f] _ :=
            pushFrame_leads f _ ((Frame.enter_ok he).2.2.1.symm ▸ h')
          exact pushed.rested
      | some native =>
        refine Leads.bind (liftExcept_leads _) (fun p => ?_) (t, m) h'
        rw [h.id_eq]
        exact .bind (native_leads hh) fun _ => terminate_leads

/-- Takes a monitor back, or blocks and keeps the holds to be taken back. -/
theorem tryReacquire_leads {monitor : Ref} {count : Nat} : Leads
    (fun s => Steady id s ∧ s.1.reacquire = some (monitor, count))
    (tryReacquire monitor count) (fun _ => Rested id) (Failing id) := by
  rintro ⟨t, m⟩ ⟨h, hr⟩
  obtain rfl : t.id = id := h.id_eq
  have hbusy := h.letGo
  unfold tryReacquire
  rw [outcome_bind_ok (outcome_modifyThread _ _), outcome_bind_ok (outcome_threadId _)]
  rcases he : outcome (Exec.tryEnter monitor t.id count) m with ⟨e | b, m'⟩
  · cases (Exec.tryEnter_requests monitor t.id count m).2 e m' he
    rw [outcome_thread_bind_error he]
    exact hbusy.failing
  · rw [outcome_thread_bind_ok he]
    cases b with
    | true => exact (h.takenBack hr he).rested
    | false => exact h.refused hr he

/-- An instruction keeps the ledger, if the call it makes goes ahead with the lock it has taken. -/
theorem runInstruction_leads (hh : host.Within LeavesLocks) : Leads
    (fun s => Busy id [] (f :: rest) s ∧ s.1.keepsLock host s.2 = true)
    (runInstruction host) (fun _ => Rested id) (Failing id) := by
  rintro ⟨t, m⟩ ⟨h, hk⟩
  have hi := instruction_leads hh (t, m) h
  unfold runInstruction
  rw [outcome_bind_ok (outcome_threadId _), show t.id = id from h.id_eq]
  rcases ho : outcome (instruction host id) (t, m) with ⟨e | next, s⟩ <;> rw [ho] at hi
  · rw [outcome_bind_error ho]
    exact hi
  · obtain ⟨f', hi⟩ := hi
    rw [outcome_bind_ok ho]
    cases next with
    | advance => exact hi.rested
    | jump pc => exact hi.rested
    | leave value => exact returnFrom_leads value s hi
    | block monitor => exact blockOn_leads s hi
    | awaitInit c => exact awaitInit_leads s hi
    | runInitializer clinit => exact pushInitializer_leads s hi
    | invoke r =>
      refine invoke_leads hh s ⟨hi, fun l s' hl => ?_⟩
      have hr : t.reacquire = none := h.reacquire_eq
      have ho' : outcome (instruction host t.id) (t, m) = (.ok (.invoke r), s) :=
        (congrArg (fun u => outcome (instruction host u) (t, m)) h.id_eq).trans ho
      simpa [Thread.keepsLock, hr, ho', hl] using hk

theorem tryStep_leads (hh : host.Within LeavesLocks) : Leads
    (fun s => Steady id s ∧ s.1.keepsLock host s.2 = true)
    (tryStep host) (fun _ => Rested id) (Failing id) := by
  rintro s ⟨h, hk⟩
  unfold tryStep
  rw [outcome_bind_ok (outcome_getThread s)]
  cases hr : s.1.reacquire with
  | some p => exact tryReacquire_leads s ⟨h, hr⟩
  | none =>
    have hbusy := h.busy hr
    cases hf : s.1.frames with
    | nil => exact startEntry_leads hh s (hf ▸ hbusy)
    | cons f rest => exact runInstruction_leads hh s ⟨hf ▸ hbusy, hk⟩

/-- A step ends with the ledger balanced, whatever goes wrong in it. -/
theorem stepThread_leads (hh : host.Within LeavesLocks) : Leads
    (fun s => Steady id s ∧ s.1.keepsLock host s.2 = true)
    (stepThread host) (fun _ => Rested id) (Rested id) := by
  have rests {s : Thread × Machine} : Failing id s → Rested id s := fun ⟨_, h⟩ => h.rested
  refine .tryCatch (E := Failing id) (.tryCatch (tryStep_leads hh) fun e => ?_) fun e => ?_
  · cases e with
    | thrown e => exact unwind_leads e
    | fatal e => exact .throw _ fun _ h => h
  · cases e with
    | thrown e => exact .pure _ fun _ => rests
    | fatal e => exact (abort_leads e).failing fun _ => rests

end ThreadM

/-- **A step keeps the ledger of its thread**, and changes nobody else's holds, if the call it makes
    goes ahead with the lock it has taken. -/
theorem Thread.step_rested (hh : host.Within LeavesLocks) (h : Steady id (t, m))
    (hk : t.keepsLock host m = true) : Rested id ((t.step host).run m) := by
  rw [Thread.step, if_pos h.status_eq]
  exact (ThreadM.stepThread_leads hh).outcome_snd (s := (t, m)) ⟨h, hk⟩

end

end GreenVm
