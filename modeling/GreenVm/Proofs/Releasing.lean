/-
  How a thread loses its last hold on a monitor.

  * `Thread.GivesUp`: the ways in which a step may end the holds of its thread on a monitor: a frame
    is left that has recorded it, the instruction is one that leaves it, or the thread waits there.
  * `Thread.step_givesUp`: there is no other way.
-/
import GreenVm.Proofs.Frames

namespace GreenVm

/-- How a step may end the holds of its thread on a monitor. -/
inductive Thread.GivesUp (host : Host) (t : Thread) (m : Machine) (lock : Ref) : Prop
  /-- It leaves frames, of which one has recorded the monitor. -/
  | leaves (f : Frame) :
    f ∈ t.frames.take (t.frames.length - ((t.step host).run m).1.frames.length) →
    lock ∈ f.monitors → GivesUp host t m lock
  /-- Its instruction is one that leaves the monitor. -/
  | exits (f : Frame) (rest : List Frame) : t.frames = f :: rest →
    f.code.instructions[f.pc]? = some .monitorExit → f.stack.peek 0 = .ok (.ofRef lock) →
    GivesUp host t m lock
  /-- It asks to wait there. -/
  | waits (count : Nat) (millis : Option Nat) :
    ((t.step host).run m).2.requests.suspend = some (.wait lock count millis) →
    GivesUp host t m lock

/-! ## States in the middle of a step -/

variable {α : Type} {id : ThreadId} {lock r : Ref} {extra : List Ref} {f : Frame}
  {fs rest : List Frame} {records : List (List Ref)} {m m' : Machine} {t : Thread} {host : Host}
  {s : Thread × Machine}

/-- Thread `id` has these frames, and one more hold on a monitor than there are in `extra`. -/
structure Holding (id : ThreadId) (lock : Ref) (extra : List Ref) (fs : List Frame)
    (s : Thread × Machine) : Prop where
  id_eq : s.1.id = id
  frames_eq : s.1.frames = fs
  held : 1 + extra.count lock ≤ s.2.holds id lock

/-- Of frames with these records some have been left, and one of those had recorded a monitor. -/
def Left (lock : Ref) (records : List (List Ref)) (s : Thread × Machine) : Prop :=
  ∃ n, AtMost n s ∧ lock ∈ (records.take (records.length - n)).flatten

/-- The thread asks to wait for a monitor. -/
def Waits (lock : Ref) (s : Thread × Machine) : Prop :=
  ∃ count millis, s.2.requests.suspend = some (.wait lock count millis)

/-- The thread has a hold on a monitor still, unless it has left a frame with it. -/
def Kept (id : ThreadId) (lock : Ref) (records : List (List Ref)) (s : Thread × Machine) : Prop :=
  (∃ fs, fs.map Frame.monitors <:+ records ∧ Holding id lock [] fs s) ∨ Left lock records s

/-- The step may be over. -/
def Settled (id : ThreadId) (lock : Ref) (records : List (List Ref)) (s : Thread × Machine) :
    Prop := 1 ≤ s.2.holds id lock ∨ Left lock records s ∨ Waits lock s

/-- The thread keeps its id and its frames, and all locks are left alone. -/
def Still (s s' : Thread × Machine) : Prop := SameFrames s s' ∧ LeavesLocks s.2 s'.2

instance : Std.Refl Still := ⟨fun s => ⟨refl_of SameFrames s, .refl s.2⟩⟩

instance : IsTrans (Thread × Machine) Still :=
  ⟨fun _ _ _ h h' => ⟨trans_of SameFrames h.1 h'.1, h.2.trans h'.2⟩⟩

namespace Holding

theorem held_pos (h : Holding id lock extra fs s) : 1 ≤ s.2.holds id lock :=
  le_trans (Nat.le_add_right _ _) h.held

theorem kept (h : Holding id lock extra fs s) (hr : fs.map Frame.monitors <:+ records) :
    Kept id lock records s :=
  .inl ⟨fs, hr, h.id_eq, h.frames_eq, h.held_pos⟩

theorem settled (h : Holding id lock extra fs s) : Settled id lock records s := .inl h.held_pos

/-- Work on the machine that leaves the locks alone. -/
theorem leavesLocks (h : Holding id lock extra fs (t, m)) (hl : LeavesLocks m m') :
    Holding id lock extra fs (t, m') :=
  ⟨h.id_eq, h.frames_eq, by rw [hl.holds_eq]; exact h.held⟩

/-- Work that leaves the frames and the locks alone. -/
theorem of_still {x : ThreadM α} (h : Within Still x) :
    Leads (Holding id lock extra fs) x (fun _ => Holding id lock extra fs)
      (Holding id lock extra fs) :=
  .of_within h fun s s' hs h =>
    ⟨h.1.1.trans hs.id_eq, h.1.2.trans hs.frames_eq, by rw [h.2.holds_eq]; exact hs.held⟩

/-- The thread goes on with other frames. -/
theorem withFrames (h : Holding id lock extra fs (t, m)) (fs' : List Frame) :
    Holding id lock extra fs' ({ t with frames := fs' }, m) := ⟨h.id_eq, rfl, h.held⟩

end Holding

namespace Kept

theorem settled (h : Kept id lock records s) : Settled id lock records s := by
  rcases h with ⟨fs, -, h⟩ | h
  · exact h.settled
  · exact .inr (.inl h)

theorem of_still {x : ThreadM α} (h : Within Still x) :
    Leads (Kept id lock records) x (fun _ => Kept id lock records) (Kept id lock records) :=
  .of_within h fun s s' hs h => by
    rcases hs with ⟨fs, hr, hs⟩ | ⟨n, hn, hl⟩
    · refine .inl ⟨fs, hr, h.1.1.trans hs.id_eq, h.1.2.trans hs.frames_eq, ?_⟩
      rw [h.2.holds_eq]
      exact hs.held
    · refine .inr ⟨n, ?_, hl⟩
      rw [AtMost, h.1.2]
      exact hn

end Kept

namespace ThreadM

theorem lift_still {x : Exec α} (h : Within LeavesLocks x) :
    Within Still (liftM x : ThreadM α) := fun s => ⟨lift_same s, h s.2⟩

theorem modifyThread_still {g : Thread → Thread}
    (h : ∀ t, (g t).id = t.id ∧ (g t).frames = t.frames) :
    Within Still (modifyThe Thread g : ThreadM Unit) := fun s => ⟨h s.1, .refl s.2⟩

theorem terminate_still {c : Completion} : Within Still (terminate c) :=
  modifyThread_still fun _ => ⟨rfl, rfl⟩

theorem blockOn_still : Within Still (blockOn r) := modifyThread_still fun _ => ⟨rfl, rfl⟩

theorem awaitInit_still {c : Class} : Within Still (awaitInit c) :=
  modifyThread_still fun _ => ⟨rfl, rfl⟩

/-- Replacing the top frame. -/
theorem setTop_holding (g : Frame) : Leads (Holding id lock extra (f :: rest)) (setTop g)
    (fun _ => Holding id lock extra (g :: rest)) (fun _ => False) := by
  rintro ⟨t, m⟩ h
  rw [setTop, outcome_modifyThread]
  have hf : t.frames = f :: rest := h.frames_eq
  have := h.withFrames (g :: t.frames.tail)
  rw [hf] at this
  simpa only [hf, List.tail_cons] using this

/-! ## Leaving frames -/

theorem release_holding : Leads (Holding id lock (r :: extra) fs)
    (liftM (Exec.release id r) : ThreadM Unit) (fun _ => Holding id lock extra fs)
    (fun _ => False) := by
  rintro ⟨t, m⟩ h
  obtain ⟨m', e, -, hh, -⟩ := Exec.release_spec r id m
  rw [outcome_liftThread]
  simp only [e]
  refine ⟨h.id_eq, h.frames_eq, ?_⟩
  have held : 1 + (r :: extra).count lock ≤ m.holds id lock := h.held
  show _ ≤ m'.holds id lock
  rw [hh id lock]
  by_cases hr : r = lock
  · subst hr
    rw [List.count_cons_self] at held
    simp only [and_self, if_true]
    omega
  · rw [List.count_cons_of_ne hr] at held
    simpa [hr] using held

theorem releaseAll_holding (rs : List Ref) : Leads (Holding id lock rs fs) (releaseAll rs)
    (fun _ => Holding id lock [] fs) (fun _ => False) :=
  releaseAll_rule (P := fun rs => Holding id lock rs fs) (fun _ _ h => h.id_eq)
    (fun _ _ => release_holding) rs

/-- A frame that is left takes no hold with it that it has not recorded. -/
theorem leaveFrame_holding (hl : lock ∉ f.monitors) : Leads (Holding id lock [] (f :: rest))
    (leaveFrame f rest) (fun _ => Holding id lock [] rest) (fun _ => False) := by
  rintro ⟨t, m⟩ h
  rw [leaveFrame, outcome_bind_ok (outcome_modifyThread _ _)]
  refine releaseAll_holding f.monitors _ ⟨h.id_eq, rfl, ?_⟩
  rw [List.count_eq_zero.2 hl]
  exact h.held

/-- A frame is left, and what follows leaves at most more of them. -/
theorem leaveFrame_then {x : ThreadM Unit}
    (hr : (f :: rest).map Frame.monitors <:+ records)
    (hlow : Leads (HasFrames rest) x (fun _ => AtMost rest.length) (AtMost rest.length))
    (hx : Leads (Holding id lock [] rest) x (fun _ => Kept id lock records)
      (Kept id lock records)) :
    Leads (Holding id lock [] (f :: rest)) (leaveFrame f rest >>= fun _ => x)
      (fun _ => Kept id lock records) (Kept id lock records) := by
  by_cases hl : lock ∈ f.monitors
  · have left (s : Thread × Machine) (h : AtMost rest.length s) : Kept id lock records s := by
      obtain ⟨before, rfl⟩ := hr
      refine .inr ⟨rest.length, h, List.mem_flatten.2 ⟨f.monitors, ?_, hl⟩⟩
      have hn : (before ++ (f :: rest).map Frame.monitors).length - rest.length =
          before.length + 1 := by
        simp only [List.length_append, List.length_map, List.length_cons]
        omega
      rw [hn]
      simp [List.take_append]
    exact ((leaveFrame_hasFrames le_rfl).bind fun _ => hlow).weaken (fun s h => h.frames_eq)
      (fun _ => left) left
  · exact ((leaveFrame_holding hl).failing fun _ => False.elim).bind fun _ => hx

theorem unwindFrom_kept : ∀ {fs : List Frame} {r : Ref}, fs.map Frame.monitors <:+ records →
    Leads (Holding id lock [] fs) (unwindFrom r fs) (fun _ => Kept id lock records)
      (Kept id lock records)
  | [], r, hr => by
    have still : Within Still (unwindFrom r []) := by
      rw [unwindFrom]
      exact .bind (modifyThread_still fun _ => ⟨rfl, rfl⟩) fun _ =>
        .bind (lift_still Exec.get_within) fun _ => terminate_still
    exact (Holding.of_still still).weaken (fun _ h => h) (fun _ _ h => h.kept hr)
      fun _ h => h.kept hr
  | f :: rest, r, hr => by
    have hrest : rest.map Frame.monitors <:+ records :=
      (List.suffix_cons f.monitors _).trans hr
    rw [unwindFrom]
    refine .bind ((Holding.of_still (lift_still Exec.findHandler?_within)).failing
      fun _ h => h.kept hr) fun handler => ?_
    cases handler with
    | some handler =>
      refine .bind (.liftExcept _ (fun _ _ _ h => h) fun _ h => h.kept hr) fun stack => ?_
      exact (setTop_holding { f with stack, pc := handler }).weaken (fun _ h => h)
        (fun _ _ h => h.kept hr) fun _ => False.elim
    | none =>
      refine leaveFrame_then hr ?_ ?_
      · split
        · exact unwindFrom_atMost le_rfl
        · exact .bind (HasFrames.of_same lift_same le_rfl) fun _ =>
            .bind (HasFrames.of_same lift_same le_rfl) fun _ => unwindFrom_atMost le_rfl
      · split
        · exact unwindFrom_kept hrest
        · exact .bind ((Holding.of_still (lift_still Exec.setInit_within)).failing
            fun _ h => h.kept hrest) fun _ =>
              .bind ((Holding.of_still (lift_still Exec.initializerFailure_within)).failing
                fun _ h => h.kept hrest) fun _ => unwindFrom_kept hrest

theorem unwind_kept (e : Throwable) : Leads (Kept id lock records) (unwind e)
    (fun _ => Kept id lock records) (Kept id lock records) := by
  refine .bind (Kept.of_still (lift_still Exec.materialize_within)) fun r => ?_
  intro s h
  rw [outcome_bind_ok (outcome_getThread s)]
  rcases h with ⟨fs, hr, h⟩ | ⟨n, hn, hl⟩
  · rw [h.frames_eq]
    exact unwindFrom_kept hr s h
  · have left (s : Thread × Machine) (h : AtMost n s) : Kept id lock records s := .inr ⟨n, h, hl⟩
    exact ((unwindFrom_atMost hn).weaken (fun _ h => h) (fun _ => left) left) s rfl

theorem leaveAll_kept : ∀ {fs : List Frame}, fs.map Frame.monitors <:+ records →
    Leads (Holding id lock [] fs) (leaveAll fs) (fun _ => Kept id lock records)
      (Kept id lock records)
  | [], hr => .pure _ fun _ h => h.kept hr
  | f :: rest, hr => by
    have hrest : rest.map Frame.monitors <:+ records :=
      (List.suffix_cons f.monitors _).trans hr
    rw [leaveAll]
    refine leaveFrame_then hr ?_ ?_
    · split
      · exact .bind (HasFrames.of_same lift_same le_rfl) fun _ => leaveAll_atMost le_rfl
      · exact leaveAll_atMost le_rfl
    · split
      · exact .bind ((Holding.of_still (lift_still Exec.setInit_within)).failing
          fun _ h => h.kept hrest) fun _ => leaveAll_kept hrest
      · exact leaveAll_kept hrest

theorem abort_kept (e : EngineError) : Leads (Kept id lock records) (abort e)
    (fun _ => Kept id lock records) (Kept id lock records) := by
  intro s h
  rw [abort, outcome_bind_ok (outcome_getThread s)]
  have left : Leads (· = s) (leaveAll s.1.frames) (fun _ => Kept id lock records)
      (Kept id lock records) := by
    rcases h with ⟨fs, hr, h⟩ | ⟨n, hn, hl⟩
    · rw [h.frames_eq]
      exact (leaveAll_kept hr).weaken (fun _ e => e ▸ h) (fun _ _ h => h) fun _ h => h
    · have left (s : Thread × Machine) (h : AtMost n s) : Kept id lock records s :=
        .inr ⟨n, h, hl⟩
      exact (leaveAll_atMost hn).weaken (fun _ e => e ▸ rfl) (fun _ => left) left
  refine left.bind (fun _ => ?_) s rfl
  exact .bind (Kept.of_still (modifyThread_still fun _ => ⟨rfl, rfl⟩)) fun _ =>
    Kept.of_still terminate_still

/-! ## Calls and returns -/

/-- A frame is pushed. -/
theorem pushFrame_settled (g : Frame) : Leads (Holding id lock extra fs) (pushFrame g)
    (fun _ => Settled id lock records) (Kept id lock records) := by
  rintro ⟨t, m⟩ h
  rw [pushFrame, outcome_modifyThread]
  exact .inl h.held_pos

theorem resume_kept {kind : FrameKind} {value : Option Value}
    (hr : rest.map Frame.monitors <:+ records) :
    Leads (Holding id lock [] rest) (resume kind rest value) (fun _ => Kept id lock records)
      (Kept id lock records) := by
  have done (x : ThreadM Unit) (hx : Within Still x) :
      Leads (Holding id lock [] rest) x (fun _ => Kept id lock records) (Kept id lock records) :=
    (Holding.of_still hx).weaken (fun _ h => h) (fun _ _ h => h.kept hr) fun _ h => h.kept hr
  cases rest with
  | nil =>
    refine done _ (.bind (fun _ => refl_of Still _) fun _ => ?_)
    split
    · exact terminate_still
    · exact .pure _
  | cons caller rest =>
    cases kind with
    | classInit => exact .pure _ fun _ h => h.kept hr
    | method =>
      have returned (stack : OperandStack) : Leads (Holding id lock [] (caller :: rest))
          (setTop { caller with stack, pc := caller.pc + 1 }) (fun _ => Kept id lock records)
          (Kept id lock records) :=
        (setTop_holding { caller with stack, pc := caller.pc + 1 }).weaken (fun _ h => h)
          (fun _ _ h => h.kept hr) fun _ => False.elim
      cases value with
      | none => exact .bind (.pure _ fun _ h => h) returned
      | some v => exact .bind (.liftExcept _ (fun _ _ _ h => h) fun _ h => h.kept hr) returned

theorem returnFrom_kept {value : Option Value} (hr : (f :: rest).map Frame.monitors <:+ records) :
    Leads (Holding id lock [] (f :: rest)) (returnFrom value) (fun _ => Kept id lock records)
      (Kept id lock records) := by
  have hrest : rest.map Frame.monitors <:+ records := (List.suffix_cons f.monitors _).trans hr
  rintro ⟨t, m⟩ h
  have hf : t.frames = f :: rest := h.frames_eq
  unfold returnFrom
  rw [outcome_bind_ok (outcome_topFrame hf m), outcome_bind_ok (outcome_getThread _), hf,
    List.tail_cons]
  refine leaveFrame_then hr ?_ ?_ (t, m) h
  · dsimp only
    split
    · exact .bind (HasFrames.of_same lift_same le_rfl) fun _ => resume_atMost le_rfl
    · exact resume_atMost le_rfl
  · dsimp only
    split
    · exact .bind ((Holding.of_still (lift_still Exec.setInit_within)).failing
        fun _ h => h.kept hrest) fun _ => resume_kept hrest
    · exact resume_kept hrest

variable {l : Option Ref} {args : List Value} {method : MethodRef}

/-- What remains of a native call that leaves the thread its hold. -/
theorem finishNative_holding {result : Except Fault (Option Value)}
    (hr : (f :: rest).map Frame.monitors <:+ records) :
    Leads (Holding id lock l.toList (f :: rest)) (do
      releaseAll l.toList
      let value ← result
      let f ← topFrame
      let stack ← match value, method.method.type.returnType with
        | some v, some _ => f.stack.push v
        | _, _ => pure f.stack
      setTop { f with stack, pc := f.pc + 1 } : ThreadM Unit)
      (fun _ => Settled id lock records) (Kept id lock records) := by
  refine .bind ((releaseAll_holding _).failing fun _ => False.elim) fun _ =>
    .bind (.liftExcept _ (fun _ _ _ h => h) fun _ h => h.kept hr) fun value => ?_
  rintro ⟨t, m⟩ h
  rw [outcome_bind_ok (outcome_topFrame h.frames_eq m)]
  have done (stack : OperandStack) : Leads (Holding id lock [] (f :: rest))
      (setTop { f with stack, pc := f.pc + 1 }) (fun _ => Settled id lock records)
      (Kept id lock records) :=
    (setTop_holding { f with stack, pc := f.pc + 1 }).weaken (fun _ h => h)
      (fun _ _ h => h.settled) fun _ => False.elim
  rcases value with _ | v
  · exact Leads.bind (.pure _ fun _ h => h) done (t, m) h
  · cases method.method.type.returnType with
    | none => exact Leads.bind (.pure _ fun _ h => h) done (t, m) h
    | some _ =>
      exact Leads.bind (.liftExcept _ (fun _ _ _ h => h) fun _ h => h.kept hr) done (t, m) h

/-- Releasing monitors does not put an end to the wish to wait. -/
theorem releaseAll_waits (rs : List Ref) :
    Leads (fun s => s.1.frames = fs ∧ Waits lock s) (releaseAll rs)
      (fun _ s => s.1.frames = fs ∧ Waits lock s) (fun _ => False) := by
  rintro ⟨t, m⟩ h
  refine releaseAll_rule (P := fun _ s => s.1.id = t.id ∧ s.1.frames = fs ∧ Waits lock s)
    (fun _ _ h => h.1) (fun r _ => ?_) rs |>.weaken (fun _ h => h) (fun _ _ h => h.2)
      (fun _ h => h) (t, m) ⟨rfl, h⟩
  rintro ⟨u, m⟩ ⟨hid, hf, count, millis, hs⟩
  obtain ⟨m', e, -, -, ts, hq⟩ := Exec.release_spec r t.id m
  rw [outcome_liftThread]
  simp only [e]
  exact ⟨hid, hf, count, millis, by rw [hq]; exact hs⟩

theorem callNative_settled (hh : host.Within LeavesLocks) {native : Native}
    (hr : (f :: rest).map Frame.monitors <:+ records) :
    Leads (Holding id lock l.toList (f :: rest)) (callNative host method native args l)
      (fun _ => Settled id lock records) (Kept id lock records) := by
  refine .bind (.liftExcept _ (fun _ _ _ h => h) fun _ h => h.kept hr) fun p => ?_
  rintro ⟨t, m⟩ h
  obtain ⟨receiver, args⟩ := p
  dsimp only
  rw [outcome_bind_ok (outcome_threadId _), show t.id = id from h.id_eq,
    outcome_bind_ok (by rw [outcome_liftThread, outcome_attempt])]
  let call : NativeCall := { owner := method.owner, receiver, args, thread := id }
  have hrun : LeavesLocks m (outcome (native.run host call) m).2 ∨ _ := Native.run_cases hh m
  rcases hrun with hl | ⟨o, c, m', -, -, hout, hgave⟩
  · exact finishNative_holding hr _ (h.leavesLocks hl)
  · rw [hout]
    dsimp only
    by_cases ho : o = lock
    · subst ho
      obtain ⟨millis, hs⟩ := hgave.suspend
      have finish : Leads (fun s => s.1.frames = f :: rest ∧ Waits o s) (do
          releaseAll l.toList
          let value ← (.ok none : Except Fault (Option Value))
          let f ← topFrame
          let stack ← match value, method.method.type.returnType with
            | some v, some _ => f.stack.push v
            | _, _ => pure f.stack
          setTop { f with stack, pc := f.pc + 1 } : ThreadM Unit)
          (fun _ => Settled id o records) (Kept id o records) := by
        refine .bind ((releaseAll_waits _).failing fun _ => False.elim) fun _ => ?_
        rintro ⟨t, m⟩ ⟨hf, hw⟩
        rw [outcome_bind_ok (outcome_liftExcept _ _), outcome_bind_ok (outcome_topFrame hf m)]
        exact .inr (.inr hw)
      exact finish _ ⟨h.frames_eq, c, millis, hs⟩
    · refine finishNative_holding hr _ ⟨h.id_eq, h.frames_eq, ?_⟩
      show _ ≤ m'.holds id lock
      rw [hgave.holds_eq, if_neg fun e => ho e.2]
      exact h.held

theorem callBytecode_settled (hr : fs.map Frame.monitors <:+ records) :
    Leads (Holding id lock l.toList fs) (callBytecode method args l)
      (fun _ => Settled id lock records) (Kept id lock records) := by
  rintro ⟨t, m⟩ h
  unfold callBytecode
  rw [outcome_bind_ok (by rw [outcome_liftThread, outcome_get]),
    outcome_bind_ok (outcome_getThread _)]
  dsimp only
  cases callFailure? method t.depth m.config.maxCallDepth with
  | some fault =>
    exact Leads.bind ((releaseAll_holding _).failing fun _ => False.elim)
      (fun _ => .throw _ fun _ h => h.kept hr) (t, m) h
  | none =>
    dsimp only
    cases Frame.enter method args .method with
    | error e =>
      rw [outcome_engine_bind_error]
      exact h.kept hr
    | ok callee =>
      rw [outcome_engine_bind_ok]
      exact pushFrame_settled _ (t, m) h

theorem call_settled (hh : host.Within LeavesLocks)
    (hr : (f :: rest).map Frame.monitors <:+ records) :
    Leads (Holding id lock l.toList (f :: rest)) (call host method l)
      (fun _ => Settled id lock records) (Kept id lock records) := by
  rintro ⟨t, m⟩ h
  unfold call
  rw [outcome_bind_ok (outcome_topFrame h.frames_eq m)]
  cases f.stack.popArgs method.method.argumentCount with
  | error e =>
    rw [outcome_engine_bind_error]
    exact h.kept hr
  | ok a =>
    obtain ⟨args, stack⟩ := a
    rw [outcome_engine_bind_ok]
    have hr' : ({ f with stack } :: rest).map Frame.monitors <:+ records := hr
    refine Leads.bind ((setTop_holding { f with stack }).failing fun _ => False.elim)
      (fun _ => ?_) (t, m) h
    rintro ⟨t, m⟩ h
    rw [outcome_bind_ok (outcome_nativeFor? method _ m)]
    cases m.natives.lookup? method.owner.name method.method.name method.method.descriptor with
    | some native => exact callNative_settled hh hr' (t, m) h
    | none => exact callBytecode_settled hr' (t, m) h

theorem invoke_settled (hh : host.Within LeavesLocks)
    (hr : (f :: rest).map Frame.monitors <:+ records) :
    Leads (Holding id lock [] (f :: rest)) (invoke host method)
      (fun _ => Settled id lock records) (Kept id lock records) := by
  rintro ⟨t, m⟩ h
  have hl := takeLock_spec method h.frames_eq m
  unfold invoke
  generalize ho : outcome (takeLock method) (t, m) = x at hl
  cases hl with
  | failed hl =>
    rw [outcome_bind_error ho]
    exact (h.leavesLocks hl).kept hr
  | unneeded =>
    rw [outcome_bind_ok ho]
    exact call_settled (l := none) hh hr (t, m) h
  | busy hl =>
    rw [outcome_bind_ok ho]
    exact ((Holding.of_still blockOn_still).weaken (fun _ h => h) (fun _ _ h => h.settled)
      fun _ h => h.kept hr) _ (h.leavesLocks hl)
  | @held l m₁ m' hl he _ =>
    rw [outcome_bind_ok ho]
    refine call_settled (l := some l) hh hr (t, m') ⟨h.id_eq, h.frames_eq, ?_⟩
    have held : 1 ≤ m₁.holds id lock := (h.leavesLocks hl).held_pos
    show 1 + [l].count lock ≤ m'.holds id lock
    rw [Exec.tryEnter_holds he, show t.id = id from h.id_eq]
    by_cases e : l = lock
    · simp [e]
      omega
    · simpa [e] using held

end ThreadM

/-! ## Instructions -/

/-- What an instruction has left of the hold of its thread, and of the records of its frame. -/
def HeldAfter (id : ThreadId) (lock : Ref) (records : List Ref) (next : Next)
    (s : Frame × Machine) : Prop :=
  1 ≤ s.2.holds id lock ∧ (s.1.monitors = records ∨ next = .advance)

/-- The hold of the thread, and the records of its frame, before an instruction. -/
def HeldBefore (id : ThreadId) (lock : Ref) (records : List Ref) (s : Frame × Machine) : Prop :=
  1 ≤ s.2.holds id lock ∧ s.1.monitors = records

namespace FrameM

variable {monitors : List Ref}

/-- Quiet work on the frame. -/
theorem heldBefore_of_within {x : FrameM α} (hx : Within (OnFrame LeavesLocks) x) :
    Leads (HeldBefore id lock monitors) x (fun _ => HeldBefore id lock monitors)
      (HeldBefore id lock monitors) := by
  refine .of_within hx fun s s' hs h => ?_
  obtain ⟨⟨pc, locals, stack, e⟩, hl⟩ := h
  exact ⟨by rw [hl.holds_eq]; exact hs.1, by rw [e]; exact hs.2⟩

theorem monitorEnter_held : Leads (HeldBefore id lock monitors) (monitorEnter id)
    (HeldAfter id lock monitors) (HeldBefore id lock monitors) := by
  rintro ⟨f, m⟩ h
  have hs := monitorEnter_spec id f m
  generalize outcome (monitorEnter id) (f, m) = x at hs
  cases hs with
  | failed => exact h
  | @busy r m' _ he =>
    refine ⟨?_, .inl h.2⟩
    rw [(Exec.tryEnter_refused he).holds_eq]
    exact h.1
  | @entered r stack m' _ he =>
    refine ⟨?_, .inr rfl⟩
    rw [Exec.tryEnter_holds he]
    exact le_trans h.1 (Nat.le_add_right _ _)

/-- Leaving another monitor than the one on top of the stack. -/
theorem monitorExit_held (hl : f.stack.peek 0 ≠ .ok (.ofRef lock)) :
    Leads (fun s => s.1 = f ∧ HeldBefore id lock monitors s) (monitorExit id)
      (fun _ s => 1 ≤ s.2.holds id lock) (HeldBefore id lock monitors) := by
  rintro ⟨f, m⟩ ⟨rfl, h⟩
  have hs := monitorExit_spec id f m
  generalize outcome (monitorExit id) (f, m) = x at hs
  cases hs with
  | failed => exact h
  | @exited r stack m' hp _ hh _ =>
    have hr : r ≠ lock := fun e => hl (e ▸ hp)
    show 1 ≤ m'.holds id lock
    rw [hh, if_neg fun e => hr e.2]
    exact h.1

theorem execute_held (hh : host.Within LeavesLocks) {i : Instruction}
    (hi : i = .monitorExit → f.stack.peek 0 ≠ .ok (.ofRef lock)) :
    Leads (fun s => s.1 = f ∧ HeldBefore id lock monitors s) (execute host id i)
      (HeldAfter id lock monitors) (HeldBefore id lock monitors) := by
  by_cases he : i = .monitorEnter
  · subst he
    exact monitorEnter_held.weaken (fun _ h => h.2) (fun _ _ h => h) fun _ h => h
  · by_cases hx : i = .monitorExit
    · subst hx
      exact .bind (monitorExit_held (hi rfl)) fun _ => .pure _ fun _ h => ⟨h, .inr rfl⟩
    · exact (heldBefore_of_within (execute_quiet (initializesWithin_leavesLocks hh id) he hx
        fun _ => inferInstance)).weaken
        (fun _ h => h.2) (fun _ _ h => ⟨h.1, .inl h.2⟩) fun _ h => h

end FrameM

namespace ThreadM

/-- An instruction that is none to leave the monitor keeps the hold.  Only entering a monitor
    changes the records of the frame, and then nothing else happens in the step. -/
theorem instruction_holding (hh : host.Within LeavesLocks)
    (hx : f.code.instructions[f.pc]? = some .monitorExit →
      f.stack.peek 0 ≠ .ok (.ofRef lock)) :
    Leads (Holding id lock [] (f :: rest)) (instruction host id)
      (fun next s => ∃ f', Holding id lock [] (f' :: rest) s ∧
        (f'.monitors = f.monitors ∨ next = .advance))
      (fun s => ∃ f', Holding id lock [] (f' :: rest) s ∧ f'.monitors = f.monitors) := by
  rintro ⟨t, m⟩ h
  have execute : Leads (fun s => s.1 = f ∧ HeldBefore id lock f.monitors s)
      (Frame.execute host id) (HeldAfter id lock f.monitors) (HeldBefore id lock f.monitors) := by
    rintro ⟨g, m⟩ ⟨rfl, h⟩
    rw [Frame.execute, outcome_bind_ok (outcome_getFrame _)]
    cases hi : g.code.instructions[g.pc]? with
    | some i => exact FrameM.execute_held hh (fun e => hx (e ▸ hi)) _ ⟨rfl, h⟩
    | none => exact h
  have work : Leads (fun s => s.1 = f ∧ HeldBefore id lock f.monitors s) (do
      let next ← Frame.execute host id
      modifyThe Frame (·.moved next)
      return next : FrameM Next) (HeldAfter id lock f.monitors)
        (HeldBefore id lock f.monitors) := by
    refine .bind execute fun next => ?_
    rintro ⟨g, m⟩ ⟨hm, hr⟩
    rw [outcome_bind_ok (outcome_modifyFrame _ _)]
    obtain ⟨pc, locals, stack, e⟩ := g.moved_moves next
    exact ⟨hm, hr.imp_left fun hr => by rw [← hr, e]⟩
  have held : 1 ≤ m.holds id lock := h.held_pos
  have := work (f, m) ⟨rfl, held, rfl⟩
  rw [instruction, outcome_onTop _ h.frames_eq]
  split at this <;> next e =>
    simp only [e]
    exact ⟨_, ⟨h.id_eq, rfl, this.1⟩, this.2⟩

variable {l : Option Ref} {args : List Value} {method : MethodRef}

theorem pushInitializer_settled (hr : fs.map Frame.monitors <:+ records) :
    Leads (Holding id lock [] fs) (pushInitializer method) (fun _ => Settled id lock records)
      (Kept id lock records) := by
  rintro ⟨t, m⟩ h
  unfold pushInitializer
  cases Frame.enter method [] .classInit with
  | error e =>
    rw [outcome_engine_bind_error]
    exact h.kept hr
  | ok g =>
    rw [outcome_engine_bind_ok]
    exact pushFrame_settled g (t, m) h

/-- Work that leaves the frames and the locks alone may end the step. -/
theorem still_settled {x : ThreadM Unit} (hx : Within Still x)
    (hr : fs.map Frame.monitors <:+ records) :
    Leads (Holding id lock [] fs) x (fun _ => Settled id lock records) (Kept id lock records) :=
  (Holding.of_still hx).weaken (fun _ h => h) (fun _ _ h => h.settled) fun _ h => h.kept hr

theorem runInstruction_settled (hh : host.Within LeavesLocks)
    (hx : f.code.instructions[f.pc]? = some .monitorExit →
      f.stack.peek 0 ≠ .ok (.ofRef lock))
    (hr : (f :: rest).map Frame.monitors <:+ records) :
    Leads (Holding id lock [] (f :: rest)) (runInstruction host)
      (fun _ => Settled id lock records) (Kept id lock records) := by
  have top {g : Frame} (hg : g.monitors = f.monitors) :
      (g :: rest).map Frame.monitors <:+ records := by
    rw [List.map_cons, hg]
    exact hr
  rintro ⟨t, m⟩ h
  unfold runInstruction
  rw [outcome_bind_ok (outcome_threadId _), show t.id = id from h.id_eq]
  refine Leads.bind ((instruction_holding hh hx).failing fun s ⟨g, h, hg⟩ => h.kept (top hg))
    (fun next => ?_) (t, m) h
  rintro s ⟨g, h, hg⟩
  cases next with
  | advance => exact h.settled
  | jump pc => exact h.settled
  | invoke method => exact invoke_settled hh (top (hg.resolve_right nofun)) s h
  | leave value =>
    exact ((returnFrom_kept (top (hg.resolve_right nofun))).weaken (fun _ h => h)
      (fun _ _ h => h.settled) fun _ h => h) s h
  | block monitor => exact still_settled blockOn_still (top (hg.resolve_right nofun)) s h
  | awaitInit c => exact still_settled awaitInit_still (top (hg.resolve_right nofun)) s h
  | runInitializer clinit => exact pushInitializer_settled (top (hg.resolve_right nofun)) s h

theorem startEntry_settled (hh : host.Within LeavesLocks) :
    Leads (Holding id lock [] []) (startEntry host) (fun _ => Settled id lock records)
      (Kept id lock records) := by
  have hr : ([] : List Frame).map Frame.monitors <:+ records := List.nil_suffix
  intro s h
  unfold startEntry
  rw [outcome_bind_ok (outcome_getThread s), h.id_eq]
  cases s.1.entry with
  | none => exact h.kept hr
  | some entry =>
    obtain ⟨method, args⟩ := entry
    dsimp only
    refine Leads.bind ((Holding.of_still (lift_still (Exec.readyClass_within
      (initializesWithin_leavesLocks hh _)))).failing fun _ h => h.kept hr)
      (fun readiness => ?_) s h
    cases readiness with
    | runInitializer clinit => exact pushInitializer_settled hr
    | await c => exact still_settled awaitInit_still hr
    | ready =>
      rintro ⟨t, m⟩ h
      rw [outcome_bind_ok (outcome_modifyThread _ _)]
      replace h : Holding id lock [] [] ({ t with entry := none }, m) :=
        ⟨h.id_eq, h.frames_eq, h.held⟩
      rw [outcome_bind_ok (outcome_nativeFor? method _ m)]
      cases m.natives.lookup? method.owner.name method.method.name method.method.descriptor with
      | none =>
        dsimp only
        cases Frame.enter method args .method with
        | error e =>
          rw [outcome_engine_bind_error]
          exact h.kept hr
        | ok g =>
          rw [outcome_engine_bind_ok]
          exact pushFrame_settled g _ h
      | some native =>
        refine Leads.bind (.liftExcept _ (fun _ _ _ h => h) fun _ h => h.kept hr) (fun p => ?_)
          _ h
        rintro ⟨t, m⟩ h
        let call : NativeCall := { owner := method.owner, receiver := p.1, args := p.2, thread := id }
        have hrun : LeavesLocks m (outcome (native.run host call) m).2 ∨ _ :=
          Native.run_cases hh m
        rcases hrun with hl | ⟨o, c, m', -, -, hout, hgave⟩
        · have quiet := h.leavesLocks hl
          rcases ho : outcome (native.run host call) m with ⟨e | v, m'⟩ <;> rw [ho] at quiet
          · rw [outcome_thread_bind_error ho]
            exact quiet.kept hr
          · rw [outcome_thread_bind_ok ho]
            exact quiet.settled
        · rw [outcome_thread_bind_ok hout]
          by_cases ho : o = lock
          · subst ho
            obtain ⟨millis, hs⟩ := hgave.suspend
            exact .inr (.inr ⟨c, millis, hs⟩)
          · refine .inl ?_
            show 1 ≤ m'.holds id lock
            rw [hgave.holds_eq, if_neg fun e => ho e.2]
            exact h.held_pos

theorem tryReacquire_settled {monitor : Ref} {count : Nat}
    (hr : fs.map Frame.monitors <:+ records) :
    Leads (Holding id lock [] fs) (tryReacquire monitor count)
      (fun _ => Settled id lock records) (Kept id lock records) := by
  rintro ⟨t, m⟩ h
  have h' : Holding id lock [] fs ({ t with reacquire := none }, m) :=
    ⟨h.id_eq, h.frames_eq, h.held⟩
  unfold tryReacquire
  rw [outcome_bind_ok (outcome_modifyThread _ _), outcome_bind_ok (outcome_threadId _)]
  rcases he : outcome (Exec.tryEnter monitor t.id count) m with ⟨e | b, m'⟩
  · cases (Exec.tryEnter_requests monitor t.id count m).2 e m' he
    rw [outcome_thread_bind_error he]
    exact h'.kept hr
  · have held : 1 ≤ m'.holds id lock := by
      rw [Exec.tryEnter_holds he]
      exact le_trans h.held_pos (Nat.le_add_right _ _)
    rw [outcome_thread_bind_ok he]
    cases b with
    | true => exact .inl held
    | false => exact .inl held

/-! ## Steps -/

/-- The instruction under way leaves a monitor. -/
def Exits (lock : Ref) (fs : List Frame) : Prop :=
  ∃ f rest, fs = f :: rest ∧ f.code.instructions[f.pc]? = some .monitorExit ∧
    f.stack.peek 0 = .ok (.ofRef lock)

theorem tryStep_settled (hh : host.Within LeavesLocks) (hx : ¬ Exits lock fs) :
    Leads (Holding id lock [] fs) (tryStep host)
      (fun _ => Settled id lock (fs.map Frame.monitors)) (Kept id lock (fs.map Frame.monitors)) := by
  intro s h
  unfold tryStep
  rw [outcome_bind_ok (outcome_getThread s), h.frames_eq]
  cases s.1.reacquire with
  | some p => exact tryReacquire_settled List.suffix_rfl s h
  | none =>
    cases fs with
    | nil => exact startEntry_settled hh s h
    | cons f rest =>
      exact runInstruction_settled hh (fun hi hp => hx ⟨f, rest, rfl, hi, hp⟩) List.suffix_rfl s h

theorem stepThread_settled (hh : host.Within LeavesLocks) (hx : ¬ Exits lock fs) :
    Leads (Holding id lock [] fs) (stepThread host)
      (fun _ => Settled id lock (fs.map Frame.monitors))
      (Settled id lock (fs.map Frame.monitors)) := by
  refine .tryCatch (E := Kept id lock (fs.map Frame.monitors))
    (.tryCatch (tryStep_settled hh hx) fun e => ?_) fun e => ?_
  · cases e with
    | thrown e => exact (unwind_kept e).weaken (fun _ h => h) (fun _ _ h => h.settled) fun _ h => h
    | fatal e => exact .throw _ fun _ h => h
  · cases e with
    | thrown e => exact .pure _ fun _ h => h.settled
    | fatal e =>
      exact (abort_kept e).weaken (fun _ h => h) (fun _ _ h => h.settled) fun _ h => h.settled

end ThreadM

/-- **A step ends the holds of its thread on a monitor in three ways only.** -/
theorem Thread.step_givesUp (hh : host.Within LeavesLocks) (h : 1 ≤ m.holds t.id lock)
    (h' : ((t.step host).run m).2.holds t.id lock = 0) : t.GivesUp host m lock := by
  by_cases hx : ThreadM.Exits lock t.frames
  · obtain ⟨f, rest, hf, hi, hp⟩ := hx
    exact .exits f rest hf hi hp
  have settled : Settled t.id lock (t.frames.map Frame.monitors) ((t.step host).run m) := by
    unfold Thread.step
    split
    · exact Leads.outcome_snd (ThreadM.stepThread_settled hh hx) (s := (t, m)) ⟨rfl, rfl, h⟩
    · exact .inl h
  rcases settled with hs | ⟨n, hn, hl⟩ | ⟨count, millis, hs⟩
  · omega
  · obtain ⟨rs, hrs, hl⟩ := List.mem_flatten.1 hl
    rw [List.length_map, ← List.map_take] at hrs
    obtain ⟨f, hf, rfl⟩ := List.mem_map.1 hrs
    exact .leaves f (List.take_subset_take_left _ (Nat.sub_le_sub_left hn _) hf) hl
  · exact .waits count millis hs

end GreenVm
