/-
  Where a step leaves the thread that makes it.

  * `Thread.Stands t queue wait`: by its status the thread is in this queue and in this wait set.
  * `Machine.Lists m id queue wait`: it is, once, and in no others.
  * `Puts id queue wait`: a relation between machines, of work that puts the thread there.
  * `Lands`: what comes of a step for its thread, in terms of both.
  * `Thread.step_lands`: every step comes to that.
-/
import GreenVm.Proofs.Endings
import GreenVm.Proofs.Queues
import GreenVm.Proofs.Queues.Retries

namespace GreenVm

/-! ## How threads stand -/

/-- Waiting for something that has nothing to do with monitors. -/
def Blocker.IsPause : Blocker → Prop
  | .join _ | .sleep _ | .classInit _ => True
  | _ => False

/-- A method at which threads may start: it is static, or a `run`. -/
def MethodRef.Starts (r : MethodRef) : Prop := r.method.isStatic = true ∨ r.method.key = "run()V"

/-- The method at which the thread is still to start is one of those. -/
def Thread.Enters (t : Thread) : Prop := ∀ p ∈ t.entry, p.1.Starts

/-- The thread can run. -/
structure Thread.Running (t : Thread) : Prop where
  status_eq : t.status = .runnable
  blocker_eq : t.blocker = none
  completion_eq : t.completion = none
  enters : t.Enters

/-- How a thread stands: the object whose queue it should be in, and the one whose wait set. -/
inductive Thread.Stands (t : Thread) : Option Ref → Option Ref → Prop
  | running (h : t.Running) : Stands t none none
  | queued {r : Ref} (hs : t.status = .blocked) (hb : t.blocker = some (.monitor r))
      (hc : t.completion = none) (he : t.Enters) : Stands t (some r) none
  | parked {r : Ref} {count : Nat} {deadline : Option Nat} (hs : t.status = .waiting)
      (hb : t.blocker = some (.wait r count deadline)) (hc : t.completion = none)
      (he : t.Enters) : Stands t none (some r)
  | paused {b : Blocker} (hs : t.status = .waiting) (hb : t.blocker = some b) (hp : b.IsPause)
      (hc : t.completion = none) (he : t.Enters) : Stands t none none
  | ended (hs : t.status = .terminated) (hb : t.blocker = none) (hc : t.completion.isSome) :
    Stands t none none

/-- The thread is in one queue and in one wait set, if they are given, once, and in no others. -/
structure Machine.Lists (m : Machine) (id : ThreadId) (queue wait : Option Ref) : Prop where
  queue : ∀ r, (m.monitorAt r).queue.count id = if queue = some r then 1 else 0
  waiting : ∀ r, (m.monitorAt r).waiting.count id = if wait = some r then 1 else 0

/-- In the middle of its step, the thread is in one queue and in one wait set, if they are given, and
    in no others; it has asked to wait there, and nothing has been reported of it. -/
structure Machine.Finds (m : Machine) (id : ThreadId) (queue wait : Option Ref) : Prop
    extends m.Lists id queue wait where
  woken : id ∉ m.requests.woken
  notified : id ∉ m.requests.notified
  suspend : ∀ r, (∃ count millis, m.requests.suspend = some (.wait r count millis)) ↔ wait = some r

/-- Work on monitors by a thread that is in no queue and no wait set puts it into those that are
    given, and makes it the successor of no monitor. -/
structure Puts (id : ThreadId) (queue wait : Option Ref) (m m' : Machine) : Prop where
  finds : m.Finds id none none → m'.Finds id queue wait
  successor : m.Finds id none none → ∀ r, (m'.monitorAt r).successor = some id →
    (m.monitorAt r).successor = some id
  builtins : ∀ key op, m'.natives.table.get? key = some (.builtin op) →
    m.natives.table.get? key = some (.builtin op)

/-- Work that puts a thread nowhere. -/
abbrev Aloof (id : ThreadId) : Machine → Machine → Prop := Puts id none none

variable {host : Host} {id : ThreadId} {m m₁ m₂ m' m'' : Machine} {queue wait : Option Ref} {r r' : Ref}
  {t u : Thread} {f f' : Frame} {fs rest : List Frame} {method : MethodRef}

theorem Machine.Lists.not_mem_queue (h : m.Lists id none wait) (r : Ref) :
    id ∉ (m.monitorAt r).queue := List.count_eq_zero.1 (h.queue r)

theorem Machine.Lists.not_mem_waiting (h : m.Lists id queue none) (r : Ref) :
    id ∉ (m.monitorAt r).waiting := List.count_eq_zero.1 (h.waiting r)

theorem LeavesMonitors.puts (h : LeavesMonitors m m') : Aloof id m m' where
  finds hf :=
    { queue := fun r => by rw [h.monitorAt_eq]; exact hf.queue r
      waiting := fun r => by rw [h.monitorAt_eq]; exact hf.waiting r
      woken := by rw [h.woken_eq]; exact hf.woken
      notified := by rw [h.notified_eq]; exact hf.notified
      suspend := fun r => by
        refine ⟨fun ⟨count, millis, e⟩ => ?_, nofun⟩
        exact (hf.suspend r).1 ⟨count, millis, h.suspend _ e trivial⟩ }
  successor _ r hs := h.monitorAt_eq r ▸ hs
  builtins := h.builtins

namespace Puts

theorem trans (h : Aloof id m m') (h' : Puts id queue wait m' m'') : Puts id queue wait m m'' where
  finds hf := h'.finds (h.finds hf)
  successor hf r hs := h.successor hf r (h'.successor (h.finds hf) r hs)
  builtins key op e := h.builtins key op (h'.builtins key op e)

instance : Std.Refl (Aloof id) := ⟨fun m => (LeavesMonitors.refl m).puts⟩

instance : IsTrans Machine (Aloof id) := ⟨fun _ _ _ => trans⟩

instance : Quiet (Aloof id) := .mono fun _ _ => LeavesMonitors.puts

instance : StoresBytes (Aloof id) := .mono fun _ _ => LeavesMonitors.puts

instance : Initializes (Aloof id) where
  setInit m c init := (Initializes.setInit (R := LeavesMonitors) m c init).puts

end Puts

/-! ## Operations on monitors -/

/-- What a change of one monitor means to where a thread is. -/
theorem Machine.Lists.withNewMonitor {o : Object} {monitor : Monitor} (h : m.Lists id none none)
    (ho : m.heap.get? r = some o)
    (hq : monitor.queue.count id = if queue = some r then 1 else 0)
    (hw : monitor.waiting.count id = if wait = some r then 1 else 0)
    (hqr : ∀ r', queue = some r' → r' = r) (hwr : ∀ r', wait = some r' → r' = r) :
    (Exec.withNewMonitor m r o monitor).Lists id queue wait := by
  constructor
  · intro r'
    rw [Machine.monitorAt_withNewMonitor ho]
    split
    · next e => exact e ▸ hq
    · next e =>
      rw [h.queue r', if_neg fun e' => e (hqr r' e').symm]
      rfl
  · intro r'
    rw [Machine.monitorAt_withNewMonitor ho]
    split
    · next e => exact e ▸ hw
    · next e =>
      rw [h.waiting r', if_neg fun e' => e (hwr r' e').symm]
      rfl

namespace Exec

/-- A thread that has entered a monitor is in no queue, and one that was reserved for it no more is. -/
theorem tryEnter_puts {n : Nat} (h : outcome (tryEnter r id n) m = (.ok true, m')) :
    Aloof id m m' ∧ ((m.monitorAt r).owner = none → (m'.monitorAt r).successor = none) := by
  rcases withMonitor_cases r (fun m => .ok (m.tryEnter id n)) m with ⟨e, he⟩ | ⟨o, a, monitor, ho,
    hf, he⟩
  · cases h.symm.trans he
  cases h.symm.trans he
  have hmo := Machine.monitorAt_eq ho
  have entered : (monitor.successor = some id → o.monitor.successor = some id) ∧
      (o.monitor.owner = none → monitor.successor = none) ∧
      monitor.waiting = o.monitor.waiting ∧ (id ∉ o.monitor.queue → id ∉ monitor.queue) := by
    rcases Monitor.tryEnter_cases o.monitor id n with ⟨hown, e⟩ | ⟨-, -, e⟩ | ⟨-, -, e⟩
    · cases e.symm.trans (Except.ok.inj hf)
      exact ⟨fun h => h, fun h => absurd (h.symm.trans hown) nofun, rfl, fun h => h⟩
    · cases e.symm.trans (Except.ok.inj hf)
      exact ⟨nofun, fun _ => rfl, rfl, fun h => by simp⟩
    · cases e.symm.trans (Except.ok.inj hf)
  refine ⟨⟨fun hfind => ?_, fun _ r' hs' => ?_, fun _ _ e => e⟩, fun hown => ?_⟩
  · have hq := hfind.not_mem_queue r
    have hw := hfind.not_mem_waiting r
    rw [hmo] at hq hw
    refine ⟨hfind.withNewMonitor ho ?_ ?_ nofun nofun, hfind.woken, hfind.notified, hfind.suspend⟩
    · exact List.count_eq_zero.2 (entered.2.2.2 hq)
    · exact List.count_eq_zero.2 (entered.2.2.1 ▸ hw)
  · rw [Machine.monitorAt_withNewMonitor ho] at hs'
    split at hs'
    · next e =>
      rw [← e, hmo]
      exact entered.1 hs'
    · exact hs'
  · rw [Machine.monitorAt_withNewMonitor ho, if_pos rfl]
    exact entered.2.1 (hmo ▸ hown)

/-- A thread that was refused a monitor is in its queue. -/
theorem tryEnter_queues {n : Nat} (h : outcome (tryEnter r id n) m = (.ok false, m')) :
    Puts id (some r) none m m' := by
  rcases withMonitor_cases r (fun m => .ok (m.tryEnter id n)) m with ⟨e, he⟩ | ⟨o, a, monitor, ho,
    hf, he⟩
  · cases h.symm.trans he
  cases h.symm.trans he
  have refused : monitor = o.monitor.enqueue id := by
    rcases Monitor.tryEnter_cases o.monitor id n with ⟨-, e⟩ | ⟨-, -, e⟩ | ⟨-, -, e⟩ <;>
      cases e.symm.trans (Except.ok.inj hf)
    rfl
  subst refused
  refine ⟨fun hfind => ?_, fun _ r' hs' => ?_, fun _ _ e => e⟩
  · have hmo := Machine.monitorAt_eq ho
    have hq := hfind.not_mem_queue r
    have hw := hfind.not_mem_waiting r
    rw [hmo] at hq hw
    refine ⟨hfind.withNewMonitor ho ?_ ?_ (fun r' e => (Option.some.inj e).symm) nofun, hfind.woken,
      hfind.notified, hfind.suspend⟩
    · simp [Monitor.enqueue, hq, List.count_eq_zero_of_not_mem hq]
    · simp [Monitor.enqueue, hq, List.count_eq_zero.2 hw]
  · rw [Machine.monitorAt_withNewMonitor ho] at hs'
    split at hs'
    · next e =>
      rw [← e, Machine.monitorAt_eq ho]
      unfold Monitor.enqueue at hs'
      split at hs' <;> exact hs'
    · exact hs'

/-- Leaving a monitor promotes another thread, if any. -/
theorem leaveMonitor_puts (h : Puts id none wait m m') :
    Puts id none wait m (outcome (leaveMonitor r id) m').2 := by
  rcases withMonitor_cases r (·.exit id) m' with ⟨e, he⟩ | ⟨o, p, monitor, ho, hf, he⟩
  · rw [leaveMonitor, outcome_bind_error he]
    exact h
  rw [leaveMonitor, outcome_bind_ok he]
  have hmo := Machine.monitorAt_eq ho
  -- whoever is promoted was in the queue, and the thread was not
  have left : monitor.waiting = o.monitor.waiting ∧ (id ∉ o.monitor.queue →
      id ∉ monitor.queue ∧ id ∉ p.toList ∧
        (monitor.successor = some id → o.monitor.successor = some id)) := by
    obtain ⟨-, ⟨-, rfl, rfl⟩ | ⟨-, rfl, rfl⟩⟩ := Monitor.exit_ok hf
    · exact ⟨rfl, fun hq => ⟨hq, by simp, fun h => h⟩⟩
    · refine ⟨rfl, fun hq => ?_⟩
      cases hqueue : o.monitor.queue with
      | nil => simp [Monitor.freed, Monitor.promote, hqueue]
      | cons u us =>
        rw [hqueue] at hq
        simp only [List.mem_cons, not_or] at hq
        simp [Monitor.freed, Monitor.promote, hqueue, hq.2, Ne.symm hq.1, hq.1]
  refine ⟨fun hfind => ?_, fun hfind r' hs' => ?_, h.builtins⟩
  · have hfind := h.finds hfind
    have hq := hfind.not_mem_queue r
    rw [hmo] at hq
    obtain ⟨hq', hp, -⟩ := left.2 hq
    refine ⟨⟨fun r' => ?_, fun r' => ?_⟩, ?_, hfind.notified, hfind.suspend⟩
    · show ((withNewMonitor m' r o monitor).monitorAt r').queue.count id = _
      rw [Machine.monitorAt_withNewMonitor ho]
      split
      · exact List.count_eq_zero.2 hq'
      · exact hfind.queue r'
    · show ((withNewMonitor m' r o monitor).monitorAt r').waiting.count id = _
      rw [Machine.monitorAt_withNewMonitor ho]
      split
      · next e => rw [left.1, ← e, ← hmo, hfind.waiting r]
      · exact hfind.waiting r'
    · show id ∉ m'.requests.woken ++ p.toList
      simp only [List.mem_append, not_or]
      exact ⟨hfind.woken, hp⟩
  · have hq := (h.finds hfind).not_mem_queue r
    rw [hmo] at hq
    refine h.successor hfind r' ?_
    replace hs' : ((withNewMonitor m' r o monitor).monitorAt r').successor = some id := hs'
    rw [Machine.monitorAt_withNewMonitor ho] at hs'
    split at hs'
    · next e =>
      rw [← e, hmo]
      exact (left.2 hq).2.2 hs'
    · exact hs'

end Exec

theorem Puts.released (rs : List Ref) (h : Puts id none wait m m') :
    Puts id none wait m (m'.released id rs) := by
  induction rs generalizing m' with
  | nil => exact h
  | cons r rs ih =>
    refine ih ?_
    rcases Exec.release_cases r id m' with e | e <;> rw [e]
    · exact h
    · exact Exec.leaveMonitor_puts h

/-! ## Native methods -/

section Natives

variable {native : Native} {call : NativeCall} {x : Except Fault (Option Value)}

/-- A wait puts its thread into the wait set. -/
theorem Machine.parked_puts {o : Object} (millis : Option Nat) (ho : m.heap.get? r = some o) :
    Puts id none (some r) m (m.parked id r o millis) := by
  have hmo := Machine.monitorAt_eq ho
  refine ⟨fun hfind => ?_, fun hfind r' hs' => ?_, fun _ _ e => e⟩
  · have hq := hfind.not_mem_queue r
    have hw := hfind.not_mem_waiting r
    rw [hmo] at hq hw
    obtain ⟨hq', hp⟩ : id ∉ o.monitor.freed.queue ∧ id ∉ o.monitor.freed.successor.toList := by
      cases hqueue : o.monitor.queue with
      | nil => simp [Monitor.freed, Monitor.promote, hqueue]
      | cons u us =>
        rw [hqueue] at hq
        simp only [List.mem_cons, not_or] at hq
        simp [Monitor.freed, Monitor.promote, hqueue, hq.2, hq.1]
    have lists : (Exec.withNewMonitor m r o { o.monitor.freed with
        waiting := o.monitor.waiting ++ [id] }).Lists id none (some r) := by
      refine hfind.withNewMonitor ho (List.count_eq_zero.2 hq') ?_ (by simp)
        fun r' e => (Option.some.inj e).symm
      simp [List.count_eq_zero.2 hw]
    refine ⟨⟨lists.queue, lists.waiting⟩, ?_, hfind.notified, fun r' => ?_⟩
    · show id ∉ m.requests.woken ++ o.monitor.freed.successor.toList
      simp only [List.mem_append, not_or]
      exact ⟨hfind.woken, hp⟩
    · show (∃ count millis', some (Suspend.wait r o.monitor.count millis) =
        some (.wait r' count millis')) ↔ _
      constructor
      · rintro ⟨_, _, e⟩
        cases e
        rfl
      · rintro e
        cases e
        exact ⟨_, _, rfl⟩
  · have hq := hfind.not_mem_queue r
    rw [hmo] at hq
    replace hs' : ((Exec.withNewMonitor m r o { o.monitor.freed with
        waiting := o.monitor.waiting ++ [id] }).monitorAt r').successor = some id := hs'
    rw [Machine.monitorAt_withNewMonitor ho] at hs'
    split at hs'
    · exact absurd (List.mem_of_mem_head? hs') hq
    · exact hs'

/-- A notification puts its own thread nowhere. -/
theorem Machine.stirred_puts {o : Object} (n : Nat) (ho : m.heap.get? r = some o) :
    Aloof id m (m.stirred r o n) := by
  have hmo := Machine.monitorAt_eq ho
  refine ⟨fun hfind => ?_, fun hfind r' hs' => ?_, fun _ _ e => e⟩
  · have hq := hfind.not_mem_queue r
    have hw := hfind.not_mem_waiting r
    rw [hmo] at hq hw
    have lists : (Exec.withNewMonitor m r o { o.monitor with
        waiting := o.monitor.waiting.drop n }).Lists id none none :=
      hfind.withNewMonitor ho (List.count_eq_zero.2 hq)
        (List.count_eq_zero.2 fun h => hw (List.mem_of_mem_drop h)) nofun nofun
    refine ⟨⟨lists.queue, lists.waiting⟩, hfind.woken, ?_, hfind.suspend⟩
    · show id ∉ m.requests.notified ++ o.monitor.waiting.take n
      simp only [List.mem_append, not_or]
      exact ⟨hfind.notified, fun h => hw (List.mem_of_mem_take h)⟩
  · replace hs' : ((Exec.withNewMonitor m r o { o.monitor with
        waiting := o.monitor.waiting.drop n }).monitorAt r').successor = some id := hs'
    rw [Machine.monitorAt_withNewMonitor ho] at hs'
    split at hs'
    · next e =>
      rw [← e, hmo]
      exact hs'
    · exact hs'

/-- A native method puts its thread nowhere, or it is a wait. -/
theorem Native.run_puts (hh : host.Within LeavesMonitors) (hid : call.thread = id)
    (h : outcome (native.run host call) m = (x, m')) : Aloof id m m' ∨
      ∃ r, native.isWait = true ∧ call.receiver = some r ∧ x = .ok none ∧
        Puts id none (some r) m m' := by
  subst hid
  cases hm : native.usesMonitor with
  | false => exact .inl ((Native.run_threaded hh hm).of_eq h).puts
  | true =>
    have hu := Native.run_uses host call hm m
    rw [h] at hu
    cases hu with
    | refused => exact .inl (refl_of (Aloof call.thread) m)
    | @waits r o millis hr ho hown =>
      refine .inr ⟨r, ?_, hr, rfl, Machine.parked_puts millis ho⟩
      -- any other native would have left its thread the owner
      by_contra hn
      have hl := (Native.run_leavesLocks (Host.within_leavesLocks hh) (Bool.not_eq_true _ ▸ hn)).of_eq h
      have kept : ((m.parked call.thread r o millis).monitorAt r).owner = some call.thread := by
        rw [hl.owner_eq, Machine.monitorAt_eq ho, hown]
      replace kept : ((Exec.withNewMonitor m r o { o.monitor.freed with
        waiting := o.monitor.waiting ++ [call.thread] }).monitorAt r).owner = some call.thread := kept
      rw [Machine.monitorAt_withNewMonitor ho, if_pos rfl] at kept
      cases kept
    | notifies _ ho => exact .inl (Machine.stirred_puts _ ho)

/-- The natives that stand for class initializers have no receiver that they could wait for. -/
theorem initializesWithin_aloof (hh : host.Within LeavesMonitors) (id : ThreadId) :
    InitializesWithin (Aloof id) host id := by
  intro native owner m
  rcases hx : outcome (native.run host { owner, receiver := none, args := [], thread := id }) m with
    ⟨x, m'⟩
  rcases Native.run_puts hh rfl hx with h | ⟨r, -, hr, -⟩
  · exact h
  · cases hr

end Natives

/-! ## Instructions and frames -/

/-- An instruction puts its thread nowhere, or it is one that enters a monitor and is refused. -/
theorem Frame.execute_puts (hh : host.Within LeavesMonitors) {x : Except Fault Next}
    (h : outcome (Frame.execute host id) (f, m) = (x, f', m')) :
    (Aloof id m m' ∧ ∀ r, x ≠ .ok (.block r)) ∨
      ∃ r, x = .ok (.block r) ∧ f' = f ∧ f.code.instructions[f.pc]? = some .monitorEnter ∧
        f.stack.peek 0 = .ok (.ofRef r) ∧ outcome (Exec.tryEnter r id 1) m = (.ok false, m') := by
  unfold Frame.execute at h
  rw [outcome_bind_ok (outcome_getFrame _)] at h
  cases hi : f.code.instructions[f.pc]? with
  | none =>
    simp only [hi] at h
    cases (outcome_throw _ _).symm.trans h
    exact .inl ⟨refl_of (Aloof id) m, nofun⟩
  | some i =>
    simp only [hi] at h
    by_cases he : i = .monitorEnter
    · subst he
      have hs := FrameM.monitorEnter_spec id f m
      rw [show outcome (FrameM.monitorEnter id) (f, m) = _ from h] at hs
      cases hs with
      | failed => exact .inl ⟨refl_of (Aloof id) m, nofun⟩
      | busy hp he => exact .inr ⟨_, rfl, rfl, rfl, hp, he⟩
      | entered _ he => exact .inl ⟨(Exec.tryEnter_puts he).1, nofun⟩
    · refine .inl ⟨?_, fun r e => ?_⟩
      · by_cases hx : i = .monitorExit
        · subst hx
          have hleave : Within (OffFrame (Aloof id)) (FrameM.andAdvance (FrameM.monitorExit id)) :=
            .bind (FrameM.monitorExit_offFrame fun r m => Exec.leaveMonitor_puts (refl_of (Aloof id) m))
              fun _ => .pure _
          exact hleave.of_eq h
        · have hquiet := FrameM.execute_quiet (initializesWithin_aloof hh id) he hx
            (fun _ => inferInstance) (f, m)
          rw [h] at hquiet
          exact hquiet.2
      · subst e
        exact FrameM.execute_unblocked he _ _ _ h r rfl

/-! ## Threads that are changed -/

namespace Thread

theorem Running.of_same (h : t.Running) (hs : u.status = t.status) (hb : u.blocker = t.blocker)
    (hc : u.completion = t.completion) (he : u.entry = t.entry) : u.Running :=
  ⟨hs.trans h.status_eq, hb.trans h.blocker_eq, hc.trans h.completion_eq, fun p hp =>
    h.enters p (he ▸ hp)⟩

/-- The thread has started. -/
theorem Running.started (h : t.Running) : { t with entry := none }.Running :=
  ⟨h.status_eq, h.blocker_eq, h.completion_eq, nofun⟩

theorem Running.blockedOn (h : t.Running) (r : Ref) : (t.blockedOn r).Stands (some r) none :=
  .queued rfl rfl h.completion_eq h.enters

theorem Running.awaiting (h : t.Running) (c : Class) : (t.awaiting c).Stands none none :=
  .paused rfl rfl trivial h.completion_eq h.enters

theorem stands_ended (t : Thread) (c : Completion) : (t.ended c).Stands none none :=
  .ended rfl rfl rfl

theorem stands_aborted (t : Thread) (e : EngineError) : (t.aborted e).Stands none none :=
  .ended rfl rfl rfl

end Thread

/-! ## One unit of work -/

/-- What comes of a unit of work, or of a part of it, for thread `id`.  After a failure it can run.
    Else it stands where the work has put it; but if it has begun a wait it can still run, and has
    asked for the pause. -/
inductive Lands (host : Host) (id : ThreadId) (m : Machine) :
    Except Fault Unit × Thread × Machine → Prop
  | fails {e : Fault} {u : Thread} {m' : Machine} (hid : u.id = id) (hu : u.Running)
      (hm : Aloof id m m') : Lands host id m (.error e, u, m')
  | goes {u : Thread} {m' : Machine} (hid : u.id = id) (hu : u.Stands none none)
      (hm : Aloof id m m') : Lands host id m (.ok (), u, m')
  | blocks {u : Thread} {m' : Machine} {r : Ref} (hid : u.id = id) (hu : u.Stands (some r) none)
      (ht : u.Tries host m' r) (hm : Puts id (some r) none m m') : Lands host id m (.ok (), u, m')
  | waits {u : Thread} {m' : Machine} {r : Ref} (hid : u.id = id) (hu : u.Running)
      (hm : Puts id none (some r) m m') : Lands host id m (.ok (), u, m')

namespace Lands

variable {x : Except Fault Unit × Thread × Machine}

theorem of_aloof (hm : Aloof id m m₁) (h : Lands host id m₁ x) : Lands host id m x := by
  cases h with
  | fails hid hu h => exact .fails hid hu (hm.trans h)
  | goes hid hu h => exact .goes hid hu (hm.trans h)
  | blocks hid hu ht h => exact .blocks hid hu ht (hm.trans h)
  | waits hid hu h => exact .waits hid hu (hm.trans h)

/-- Work that leaves the thread as it can run. -/
theorem of_running (hid : u.id = id) (hu : u.Running) (hm : Aloof id m m') (y : Except Fault Unit) :
    Lands host id m (y, u, m') := by
  cases y with
  | error e => exact .fails hid hu hm
  | ok _ => exact .goes hid (.running hu) hm

end Lands

namespace Thread

variable {x : Except Fault Unit × Thread × Machine} {lock : Option Ref}

theorem Calls.lands (hh : host.Within LeavesMonitors) (ht : t.Running)
    (hc : t.Calls host f m method lock x) : Lands host t.id m x := by
  have same (f' : Frame) : (t.withTop f').Running := ht.of_same rfl rfl rfl rfl
  have pushed (f' g : Frame) : ((t.withTop f').pushed g).Running := ht.of_same rfl rfl rfl rfl
  -- what is left of the lock is released whatever the native method has done
  have ran {native : Native} {receiver : Option Ref} {args : List Value}
      {y : Except Fault (Option Value)} {m₁ : Machine}
      (hr : outcome (native.run host { owner := method.owner, receiver, args, thread := t.id }) m =
        (y, m₁)) : Aloof t.id m (m₁.released t.id lock.toList) ∨ ∃ r, y = .ok none ∧
          Puts t.id none (some r) m (m₁.released t.id lock.toList) := by
    rcases Native.run_puts hh rfl hr with h | ⟨r, -, -, hy, h⟩
    · exact .inl (h.released _)
    · exact .inr ⟨r, hy, h.released _⟩
  have still := refl_of (Aloof t.id) m
  cases hc with
  | starved => exact .of_running rfl ht still _
  | refused => exact .of_running rfl (same _) (still.released _) _
  | unentered => exact .of_running rfl (same _) still _
  | entered => exact .of_running rfl (pushed _ _) still _
  | unsplit => exact .of_running rfl (same _) still _
  | failed _ _ _ hr =>
    rcases ran hr with h | ⟨_, hy, -⟩
    · exact .of_running rfl (same _) h _
    · cases hy
  | overflowed _ _ _ hr =>
    rcases ran hr with h | ⟨_, hy, -⟩
    · exact .of_running rfl (same _) h _
    · cases hy
  | returned _ _ _ hr =>
    rcases ran hr with h | ⟨_, -, h⟩
    · exact .of_running rfl (same _) h _
    · exact .waits rfl (same _) h

/-- A lock that is not taken leaves its thread where it is. -/
theorem Locks.puts {y : Except Fault Locking} (h : t.Locks f m method (y, u, m₁))
    (hy : ∀ l, y ≠ .ok (.busy l)) : Aloof t.id m m₁ := by
  have found {z : Except Fault Ref} {m₁ : Machine} (hl : outcome (method.lock f) m = (z, m₁)) :
      Aloof t.id m m₁ := MethodRef.lock_within.of_eq hl
  cases h with
  | unneeded => exact refl_of (Aloof t.id) m
  | lockless _ hl => exact found hl
  | dangling _ hl => exact found hl
  | busy => exact absurd rfl (hy _)
  | held _ hl he => exact (found hl).trans (Exec.tryEnter_puts he).1

theorem Invokes.lands (hh : host.Within LeavesMonitors) (ht : t.Running)
    (hq : ∀ l m₁, t.Locks f m method (.ok (.busy l), t, m₁) → (t.blockedOn l).Tries host m₁ l)
    (hi : t.Invokes host f m method x) : Lands host t.id m x := by
  cases hi with
  | unlocked hl => exact .fails rfl ht (hl.puts nofun)
  | busy hl =>
    have htries := hq _ _ hl
    cases hl with
    | busy _ hfound he =>
      have found : Aloof t.id m _ := MethodRef.lock_within.of_eq hfound
      exact .blocks rfl (ht.blockedOn _) htries (found.trans (Exec.tryEnter_queues he))
  | unguarded _ hc => exact hc.lands hh ht
  | guarded hl hc => exact .of_aloof (hl.puts nofun) (hc.lands hh ht)

theorem Returns.lands {value : Option Value} (ht : t.Running) (hr : t.Returns f m value rest x) :
    Lands host t.id m x := by
  have left : Aloof t.id m (m.left t.id f) := by
    have released := (refl_of (Aloof t.id) m).released f.monitors
    unfold Machine.left
    split
    · exact released.trans (Initializes.setInit _ _ _)
    · exact released
  have rested (fs : List Frame) : (t.left fs).Running := ht.of_same rfl rfl rfl rfl
  have resumed (fs : List Frame) (g : Frame) : ((t.left fs).withTop g).Running :=
    ht.of_same rfl rfl rfl rfl
  cases hr with
  | initialized => exact .of_running rfl (rested _) left _
  | overflowed => exact .of_running rfl (rested _) left _
  | returned => exact .of_running rfl (resumed _ _) left _
  | started => exact .of_running rfl (rested _) left _
  | ended => exact .goes rfl (stands_ended _ _) left

theorem BeginsInitializer.lands (ht : t.Running) (hb : t.BeginsInitializer m method x) :
    Lands host t.id m x := by
  have still := refl_of (Aloof t.id) m
  have pushed (g : Frame) : (t.pushed g).Running := ht.of_same rfl rfl rfl rfl
  cases hb with
  | pushed => exact .of_running rfl (pushed _) still _
  | unentered => exact .of_running rfl ht still _

theorem Executes.lands (hh : host.Within LeavesMonitors) (hk : host.Within KeepsInit)
    (hg : m.Grounded) (ht : t.Running) (hr : t.reacquire = none) (hx : t.Executes host f m rest x) :
    Lands host t.id m x := by
  have moved (f' : Frame) : { t with frames := f' :: rest }.Running := ht.of_same rfl rfl rfl rfl
  have acts {y : Except Fault Next} {f' : Frame} {m₁ : Machine}
      (hx : outcome (Frame.execute host t.id) (f, m) = (y, f', m₁))
      (hy : ∀ r, y ≠ .ok (.block r)) : Aloof t.id m m₁ := by
    rcases Frame.execute_puts hh hx with h | ⟨r, e, -⟩
    · exact h.1
    · exact absurd e (hy r)
  cases hx with
  | failed hx => exact .of_running rfl (moved _) (acts hx nofun) _
  | advances hx => exact .of_running rfl (moved _) (acts hx nofun) _
  | jumps hx => exact .of_running rfl (moved _) (acts hx nofun) _
  | blocks hx =>
    rcases Frame.execute_puts hh hx with ⟨-, h⟩ | ⟨r, e, rfl, hi, hp, he⟩
    · exact absurd rfl (h _)
    · cases e
      exact .blocks rfl ((moved _).blockedOn _) (.enters hr rfl hi hp) (Exec.tryEnter_queues he)
  | awaits hx => exact .goes rfl ((moved _).awaiting _) (acts hx nofun)
  | initializes hx hb =>
    have begun : Lands host _ _ x := hb.lands (moved _)
    exact .of_aloof (acts hx nofun) begun
  | @invokes f' method m₁ _ hx hi =>
    suffices hq : _ from
      have invoked := hi.lands hh (moved _) hq
      .of_aloof (acts hx nofun) invoked
    intro l m₃ hl
    -- the call that was refused comes to the same lock again
    have hm₁ : Retains m m₁ := Frame.execute_retains hk hx
    obtain ⟨rfl, -⟩ := Frame.execute_again hg hx hm₁ fun _ h => h
    cases hl with
    | @busy _ m₂ _ hs hl he =>
      have hm₂ : KeepsInit m₁ m₂ := MethodRef.lock_within.of_eq hl
      have hm₃ : KeepsInit m₂ m₃ := Exec.tryEnter_within.of_eq he
      exact .calls hr rfl hs hg (hm₁.grounded hg) hx hl
        (hm₁.trans (hm₂.toRetains.trans hm₃.toRetains)) (.of_keeps (trans_of KeepsInit hm₂ hm₃))
        hm₃.toRetains
  | returns hx hr' =>
    have returned : Lands host _ _ x := hr'.lands (moved _)
    exact .of_aloof (acts hx nofun) returned

end Thread

/-! ### Entry methods -/

/-- Built-in native methods stand where the built-in classes have put them, and nowhere else. -/
def Machine.Original (m : Machine) : Prop := ∀ key op,
  m.natives.table.get? key = some (.builtin op) → Library.natives.table.get? key = some (.builtin op)

/-- No built-in class waits in a `run`. -/
theorem Library.run_isWait : ∀ e ∈ Library.natives.table.entries, e.2.isWait = true →
    "run()V".toList.isSuffixOf e.1.toList = false := by
  decide +kernel

theorem Machine.Original.isWait {native : Native} (h : m.Original) (hr : method.method.key = "run()V")
    (hn : m.natives.lookup? method.owner.name method.method.name method.method.descriptor =
      some native) : native.isWait = false := by
  cases native with
  | host => rfl
  | builtin op =>
    have hlib := h _ op hn
    obtain ⟨e, he, hv⟩ := Option.map_eq_some_iff.1 hlib
    have hfound := List.find?_some he
    have hkey := of_decide_eq_true hfound
    have hsuffix : "run()V".toList.isSuffixOf e.1.toList = true := by
      rw [hkey, ← hr, List.isSuffixOf_iff_suffix]
      refine ⟨(method.owner.name ++ "/").toList, ?_⟩
      simp only [nativeKey, Method.key, String.toList_append, List.append_assoc]
    cases hw : (Native.builtin op).isWait with
    | false => rfl
    | true =>
      have hrun := Library.run_isWait e (List.mem_of_find?_eq_some he) (hv ▸ hw)
      cases hrun.symm.trans hsuffix

namespace Thread

variable {x : Except Fault Unit × Thread × Machine}

/-- An entry method that is native is no wait. -/
theorem Enters.run_puts {native : Native} {args others : List Value} {receiver : Option Ref}
    {y : Except Fault (Option Value)} (hh : host.Within LeavesMonitors) (ho : m.Original)
    (he : t.Enters) (hentry : t.entry = some (method, args))
    (hn : m.natives.lookup? method.owner.name method.method.name method.method.descriptor =
      some native) (hs : method.splitReceiver args = .ok (receiver, others))
    (hr : outcome (native.run host { owner := method.owner, receiver, args := others, thread := t.id })
      m = (y, m')) : Aloof t.id m m' := by
  rcases Native.run_puts hh rfl hr with h | ⟨r, hwait, hreceiver, -, -⟩
  · exact h
  rcases he (method, args) hentry with hstatic | hrun
  · simp only [MethodRef.splitReceiver, hstatic, if_true] at hs
    cases hs
    cases hreceiver
  · cases (ho.isWait hrun hn).symm.trans hwait

theorem Starts.lands (hh : host.Within LeavesMonitors) (ho : m.Original) (ht : t.Running)
    (hs : t.Starts host m method x) : Lands host t.id m x := by
  have entered := ht.started
  have pushed (g : Frame) : ({ t with entry := none }.pushed g).Running :=
    entered.of_same rfl rfl rfl rfl
  have readied {c : Class} {y : Except Fault Readiness} {m₁ : Machine}
      (h : outcome (Exec.readyClass host t.id c) m = (y, m₁)) : Aloof t.id m m₁ :=
    (Exec.readyClass_within (initializesWithin_aloof hh t.id)).of_eq h
  have original {m₁ : Machine} (h : Aloof t.id m m₁) : m₁.Original :=
    fun key op e => ho key op (h.builtins key op e)
  cases hs with
  | nothing => exact .fails rfl ht (refl_of (Aloof t.id) m)
  | unready _ hr => exact .fails rfl ht (readied hr)
  | awaits _ hr => exact .goes rfl (ht.awaiting _) (readied hr)
  | initializes _ hr hb =>
    have begun := (hb.lands ht : Lands host _ _ x)
    exact .of_aloof (readied hr) begun
  | entered _ hr => exact .of_running rfl (pushed _) (readied hr) _
  | unentered _ hr => exact .of_running rfl entered (readied hr) _
  | unsplit _ hr => exact .of_running rfl entered (readied hr) _
  | failed hentry hr hn hsplit hc =>
    have hm := readied hr
    exact .of_running rfl entered (hm.trans (ht.enters.run_puts hh (original hm) hentry hn hsplit hc)) _
  | returned hentry hr hn hsplit hc =>
    have hm := readied hr
    exact .goes rfl (stands_ended _ _)
      (hm.trans (ht.enters.run_puts hh (original hm) hentry hn hsplit hc))

theorem Attempts.lands (hh : host.Within LeavesMonitors) (hk : host.Within KeepsInit)
    (hg : m.Grounded) (ho : m.Original) (ht : t.Running) (ha : t.Attempts host m x) :
    Lands host t.id m x := by
  have taken : { t with reacquire := none }.Running := ht.of_same rfl rfl rfl rfl
  cases ha with
  | reacquires _ htry => exact .of_running rfl taken (Exec.tryEnter_puts htry).1 _
  | blocksAgain hr htry =>
    exact .blocks rfl (ht.blockedOn _) (.takesBack hr) (Exec.tryEnter_queues htry)
  | dangling => exact .fails rfl taken (refl_of (Aloof t.id) m)
  | starts _ _ hs => exact hs.lands hh ho ht
  | executes hr _ hx => exact hx.lands hh hk hg ht hr

theorem Executes.advance_eq (hx : outcome (Frame.execute host t.id) (f, m) = (.ok .advance, f', m'))
    (h : t.Executes host f m rest x) :
    x = (.ok (), { t with frames := f'.moved .advance :: rest }, m') := by
  cases h with
  | advances hx' => cases hx.symm.trans hx'; rfl
  | failed hx' => cases hx.symm.trans hx'
  | jumps hx' => cases hx.symm.trans hx'
  | blocks hx' => cases hx.symm.trans hx'
  | awaits hx' => cases hx.symm.trans hx'
  | initializes hx' => cases hx.symm.trans hx'
  | invokes hx' => cases hx.symm.trans hx'
  | returns hx' => cases hx.symm.trans hx'

theorem Executes.invokes_of
    (hx : outcome (Frame.execute host t.id) (f, m) = (.ok (.invoke method), f', m'))
    (h : t.Executes host f m rest x) :
    { t with frames := f' :: rest }.Invokes host f' m' method x := by
  cases h with
  | invokes hx' hi => cases hx.symm.trans hx'; exact hi
  | failed hx' => cases hx.symm.trans hx'
  | advances hx' => cases hx.symm.trans hx'
  | jumps hx' => cases hx.symm.trans hx'
  | blocks hx' => cases hx.symm.trans hx'
  | awaits hx' => cases hx.symm.trans hx'
  | initializes hx' => cases hx.symm.trans hx'
  | returns hx' => cases hx.symm.trans hx'

/-- A thread that tries to enter a monitor which is reserved for it has taken the reservation before
    it does anything else. -/
theorem Tries.attempts (hh : host.Within LeavesMonitors) (ht : t.Running) (htries : t.Tries host m r)
    (hs : (m.monitorAt r).successor = some t.id) (ho : (m.monitorAt r).owner = none)
    (ha : t.Attempts host m x) :
    ∃ m₁, (Aloof t.id m m₁ ∧ (m₁.monitorAt r).successor = none) ∧ Lands host t.id m₁ x := by
  cases htries with
  | @takesBack count hr =>
    obtain ⟨m₁, htry⟩ : ∃ m₁, outcome (Exec.tryEnter r t.id count) m = (.ok true, m₁) :=
      Exec.tryEnter_successor hs ho
    have entered := Exec.tryEnter_puts htry
    have taken : { t with reacquire := none }.Running := ht.of_same rfl rfl rfl rfl
    cases ha.reacquires_of hr htry
    exact ⟨m₁, ⟨entered.1, entered.2 ho⟩, .of_running rfl taken (refl_of (Aloof t.id) m₁) _⟩
  | @enters f rest hr hf hi hp =>
    obtain ⟨m₁, htry⟩ : ∃ m₁, outcome (Exec.tryEnter r t.id 1) m = (.ok true, m₁) :=
      Exec.tryEnter_successor hs ho
    have entered := Exec.tryEnter_puts htry
    obtain ⟨f', hx⟩ := FrameM.monitorEnter_entered hp htry
    replace hx : outcome (Frame.execute host t.id) (f, m) = (.ok .advance, f', m₁) :=
      (Frame.Uses.outcome_execute hi m).trans hx
    have moved : { t with frames := f'.moved .advance :: rest }.Running := ht.of_same rfl rfl rfl rfl
    cases (ha.executes_of hr hf).advance_eq hx
    exact ⟨m₁, ⟨entered.1, entered.2 ho⟩, .of_running rfl moved (refl_of (Aloof t.id) m₁) _⟩
  | @calls f rest method _ _ _ hr hf hsync hg hg₁ hx hl hr₀ hm₁ hm₂ =>
    obtain ⟨m₁, m₂, hx, hl, hloads⟩ := calls_again hg hg₁ hx hl hr₀ hm₁ hm₂
    obtain ⟨-, loaded, rfl⟩ := hloads
    have before : Aloof t.id m { m with loaded } :=
      ⟨fun h => ⟨⟨h.queue, h.waiting⟩, h.woken, h.notified, h.suspend⟩, fun _ _ e => e, fun _ _ e => e⟩
    obtain ⟨m₃, htry⟩ : ∃ m₃, outcome (Exec.tryEnter r t.id 1) { m with loaded } = (.ok true, m₃) :=
      Exec.tryEnter_successor hs ho
    have entered := Exec.tryEnter_puts htry
    have moved : { t with frames := f :: rest }.Running := ht.of_same rfl rfl rfl rfl
    have calls := ((ha.executes_of hr hf).invokes_of hx).guarded_of hsync hl htry
    have called : Lands host _ _ x := calls.lands hh moved
    exact ⟨m₃, ⟨before.trans entered.1, entered.2 ho⟩, called⟩

end Thread

/-! ## Steps -/

theorem Machine.abandoned_puts (id : ThreadId) (fs : List Frame) (m : Machine) :
    Aloof id m (m.abandoned id fs) := by
  induction fs generalizing m with
  | nil => exact refl_of (Aloof id) m
  | cons f rest ih =>
    have released := (refl_of (Aloof id) m).released f.monitors
    unfold Machine.abandoned
    dsimp only
    split
    · exact (released.trans (Initializes.setInit _ _ _)).trans (ih _)
    · exact released.trans (ih _)

namespace Thread

variable {x : Except Fault Unit × Thread × Machine} {s : Thread × Machine}

theorem Unwinds.lands (ht : t.Running) (hu : t.Unwinds m r fs x) : Lands host t.id m x := by
  have found {t : Thread} {m m₁ : Machine} {r : Ref} {f : Frame} {y : Except Fault (Option Nat)}
      (h : outcome (Exec.findHandler? f r) m = (y, m₁)) : Aloof t.id m m₁ :=
    Exec.findHandler?_within.of_eq h
  have failed {t : Thread} {m m₁ m₂ : Machine} {r : Ref} {f : Frame} {y : Except Fault Ref}
      (h : outcome (Exec.findHandler? f r) m = (.ok none, m₁))
      (hr : outcome (Exec.initializerFailure r)
        ((m₁.released t.id f.monitors).withInit f.owner .failed) = (y, m₂)) : Aloof t.id m m₂ :=
    (((found h).released f.monitors).trans (Initializes.setInit _ _ _)).trans
      (Exec.initializerFailure_within.of_eq hr)
  induction hu with
  | unhandled => exact .goes rfl (stands_ended _ _) (refl_of (Aloof _) _)
  | lost hh => exact .of_running rfl ht (found hh) _
  | @caught t _ _ _ _ _ _ _ hh =>
    have caught (g : Frame) : (t.withTop g).Running := ht.of_same rfl rfl rfl rfl
    exact .of_running rfl (caught _) (found hh) _
  | overflowed hh => exact .of_running rfl ht (found hh) _
  | passes hh _ _ ih =>
    have rest := ih (ht.of_same rfl rfl rfl rfl)
    exact .of_aloof ((found hh).released _) rest
  | fails hh _ hr _ ih =>
    have rest := ih (ht.of_same rfl rfl rfl rfl)
    exact .of_aloof (failed hh hr) rest
  | @unmade t _ _ _ _ _ rest _ hh _ hr =>
    have left : (t.left rest).Running := ht.of_same rfl rfl rfl rfl
    exact .of_running rfl left (failed hh hr) _

/-- Where a unit of work leaves the thread, the step does. -/
theorem Steps.lands {P : Machine → Prop}
    (h : ∀ x, t.Attempts host m x → ∃ m₁, P m₁ ∧ Lands host t.id m₁ x) (hs : t.Steps host m s) :
    ∃ m₁, P m₁ ∧ Lands host t.id m₁ (.ok (), s) := by
  have aborted {e : EngineError} {t₁ : Thread} {m₁ m₂ : Machine} (hid : t₁.id = t.id)
      (hm : Aloof t.id m₁ m₂) :
      Lands host t.id m₁ (.ok (), t₁.aborted e, m₂.abandoned t₁.id t₁.frames) :=
    .goes hid (stands_aborted _ _) (hm.trans (hid ▸ Machine.abandoned_puts t₁.id t₁.frames m₂))
  cases hs with
  | works ha => exact h _ ha
  | throws ha hm hu =>
    obtain ⟨m₁, hp, ⟨hid, ht, ha⟩⟩ := h _ ha
    have thrown : Lands host _ _ _ := hu.lands ht
    rw [hid] at thrown
    exact ⟨m₁, hp, .of_aloof (ha.trans (Exec.materialize_within.of_eq hm)) thrown⟩
  | aborts ha =>
    obtain ⟨m₁, hp, ⟨hid, -, ha⟩⟩ := h _ ha
    exact ⟨m₁, hp, aborted hid ha⟩
  | unmade ha hm =>
    obtain ⟨m₁, hp, ⟨hid, -, ha⟩⟩ := h _ ha
    exact ⟨m₁, hp, aborted hid (ha.trans (Exec.materialize_within.of_eq hm))⟩
  | stuck ha hm hu =>
    obtain ⟨m₁, hp, ⟨hid, ht, ha⟩⟩ := h _ ha
    have thrown : Lands host _ _ _ := hu.lands ht
    rw [hid] at thrown
    obtain ⟨hid', -, hu⟩ := thrown
    exact ⟨m₁, hp, aborted hid' ((ha.trans (Exec.materialize_within.of_eq hm)).trans hu)⟩

/-- Every step of a thread that can run leaves it where it stands. -/
theorem step_lands (hh : host.Within LeavesMonitors) (hk : host.Within KeepsInit)
    (hg : m.Grounded) (ho : m.Original) (ht : t.Running) :
    Lands host t.id m (.ok (), (t.step host).run m) := by
  obtain ⟨m₁, rfl, h⟩ : ∃ m₁, m₁ = m ∧ Lands host t.id m₁ _ :=
    (step_steps host ht.status_eq m).lands fun x ha => ⟨m, rfl, ha.lands hh hk hg ho ht⟩
  exact h

/-- The step of a thread that a monitor is reserved for takes the reservation first. -/
theorem step_lands_tries (hh : host.Within LeavesMonitors) (ht : t.Running)
    (htries : t.Tries host m r) (hs : (m.monitorAt r).successor = some t.id)
    (ho : (m.monitorAt r).owner = none) :
    ∃ m₁, (Aloof t.id m m₁ ∧ (m₁.monitorAt r).successor = none) ∧
      Lands host t.id m₁ (.ok (), (t.step host).run m) :=
  (step_steps host ht.status_eq m).lands fun _ ha => htries.attempts hh ht hs ho ha

end Thread

end GreenVm
