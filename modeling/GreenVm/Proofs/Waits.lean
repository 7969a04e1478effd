/-
  What a wait gives up, its thread takes back before it goes on.

  * `Thread.waitsOn?`: the object that the next instruction of a thread waits on, and the holds that the
    thread then has on its monitor.
  * `Thread.Regains`: how a thread stands between giving up its holds for a wait and the next
    instruction: it waits, it tries to take them back, or it has them back.
  * `Vm.regains_after`: a thread that has called a wait has no hold on the monitor after that turn,
    and has all of them again when it executes its next instruction.
-/
import GreenVm.Proofs.Endings
import GreenVm.Proofs.Ledger.Others
import GreenVm.Proofs.Queues
import GreenVm.Proofs.Settling
import GreenVm.Proofs.Waking

namespace GreenVm

variable {host : Host} {t u : Thread} {m m₁ m₂ m' : Machine} {r : Ref} {count : Nat}

/-! ## Calls that wait -/

/-- The native method that a call on behalf of a frame comes to, and its arguments. -/
def MethodRef.nativeCall? (method : MethodRef) (id : ThreadId) (f : Frame) (m : Machine) :
    Option (Native × NativeCall) :=
  match f.stack.popArgs method.method.argumentCount,
      m.natives.lookup? method.owner.name method.method.name method.method.descriptor with
  | .ok (args, _), some native =>
    match method.splitReceiver args with
    | .ok (receiver, args) => some (native, { owner := method.owner, receiver, args, thread := id })
    | .error _ => none
  | _, _ => none

namespace Thread

/-- The native method that the next unit of work of a thread calls, if it executes an instruction that
    does, the call, and the machine in which the method runs. -/
def nativeCall? (host : Host) (t : Thread) (m : Machine) : Option (Native × NativeCall × Machine) :=
  match t.reacquire, t.frames, outcome (ThreadM.instruction host t.id) (t, m) with
  | none, _ :: _, (.ok (.invoke method), t, m) =>
    match outcome (ThreadM.takeLock method) (t, m), t.frames with
    | (.ok (.busy _), _), _ => none
    | (.ok _, _, m), f :: _ =>
      (method.nativeCall? t.id f m).map fun (native, call) => (native, call, m)
    | _, _ => none
  | _, _, _ => none

/-- The object that the next instruction of a thread waits on, and the number of holds that the thread
    then has on its monitor, if the instruction calls a wait that is not refused. -/
def waitsOn? (host : Host) (t : Thread) (m : Machine) : Option (Ref × Nat) :=
  match t.nativeCall? host m with
  | some (native, call, m') =>
    if native.isWait && (outcome (native.run host call) m').1.toBool then
      call.receiver.map fun r => (r, m'.holds t.id r)
    else none
  | none => none

end Thread

namespace ThreadM

variable {f f' : Frame} {rest : List Frame} {method : MethodRef}

/-- An instruction that comes to call a method. -/
theorem outcome_instruction_invoke (hf : t.frames = f :: rest) {s : Thread × Machine}
    (h : outcome (instruction host t.id) (t, m) = (.ok (.invoke method), s)) :
    ∃ f' m₁, s = ({ t with frames := f' :: rest }, m₁) := by
  have hi : outcome (instruction host t.id) (t, m) = _ := outcome_onTop _ hf m
  exact ⟨_, _, congrArg Prod.snd (h.symm.trans hi)⟩

end ThreadM

/-- What can fail about entering a monitor is that there is no object. -/
theorem Exec.tryEnter_failsFatally {id : ThreadId} {n : Nat} : FailsFatally (Exec.tryEnter r id n) := by
  intro m e m' h
  unfold Exec.tryEnter Exec.withMonitor at h
  rcases Exec.object_cases r m with ⟨-, ho⟩ | ⟨o, -, ho⟩
  · rw [outcome_bind_error ho] at h
    cases h
    exact ⟨_, rfl⟩
  · rw [outcome_bind_ok ho, outcome_bind_ok (outcome_liftExcept _ _)] at h
    cases h

/-- Releasing monitors makes nobody their owner, and asks for no pause. -/
theorem Machine.released_owner (m : Machine) (id : ThreadId) (rs : List Ref) :
    (∀ r, ((m.released id rs).monitorAt r).owner = some id → (m.monitorAt r).owner = some id) ∧
      (m.released id rs).requests.suspend = m.requests.suspend := by
  induction rs generalizing m with
  | nil => exact ⟨fun _ h => h, rfl⟩
  | cons r rs ih =>
    obtain ⟨ho, hs⟩ := ih (outcome (Exec.release id r) m).2
    have first : (∀ r', (((outcome (Exec.release id r) m).2.monitorAt r').owner = some id →
        (m.monitorAt r').owner = some id)) ∧
          (outcome (Exec.release id r) m).2.requests.suspend = m.requests.suspend := by
      rcases Exec.release_cases r id m with e | e <;> rw [e]
      · exact ⟨fun _ h => h, rfl⟩
      rcases Exec.withMonitor_cases r (·.exit id) m with ⟨e, he⟩ | ⟨o, p, monitor, ho, hf, he⟩
      · rw [Exec.leaveMonitor, outcome_bind_error he]
        exact ⟨fun _ h => h, rfl⟩
      · rw [Exec.leaveMonitor, outcome_bind_ok he]
        refine ⟨fun r' h => ?_, rfl⟩
        replace h : ((Exec.withNewMonitor m r o monitor).monitorAt r').owner = some id := h
        rw [Machine.monitorAt_withNewMonitor ho] at h
        split at h
        · next e =>
          rw [← e, Machine.monitorAt_eq ho]
          exact (Monitor.exit_ok hf).1
        · exact h
    exact ⟨fun r' h => first.1 r' (ho r' h), hs.trans first.2⟩

namespace Thread

variable {native : Native} {call : NativeCall} {f : Frame} {rest : List Frame} {method : MethodRef}

/-- A call of a native method that returns nothing is done when its lock has been released. -/
theorem outcome_call (hf : t.frames = f :: rest) (hc : method.nativeCall? t.id f m = some (native, call))
    (hn : outcome (native.run host call) m = (.ok none, m')) (lock : Option Ref) :
    call.thread = t.id ∧ ∃ frames, outcome (ThreadM.call host method lock) (t, m) =
      (.ok (), { t with frames }, m'.released t.id lock.toList) := by
  have hcalls : t.Calls host f m method lock (outcome (ThreadM.call host method lock) (t, m)) :=
    ThreadM.call_calls method lock hf m
  unfold MethodRef.nativeCall? at hc
  split at hc
  · next args stack native' ha hl =>
    split at hc
    · next receiver others hs =>
      cases hc
      refine ⟨rfl, ?_⟩
      generalize outcome (ThreadM.call host method lock) (t, m) = x at hcalls ⊢
      cases hcalls with
      | returned ha' hl' hs' hr hv =>
        cases ha.symm.trans ha'
        cases hl.symm.trans hl'
        cases hs.symm.trans hs'
        cases hn.symm.trans hr
        exact ⟨_, rfl⟩
      | starved ha' => cases ha.symm.trans ha'
      | refused _ hl' => cases hl.symm.trans hl'
      | unentered _ hl' => cases hl.symm.trans hl'
      | entered _ hl' => cases hl.symm.trans hl'
      | unsplit ha' _ hs' =>
        cases ha.symm.trans ha'
        cases hs.symm.trans hs'
      | failed ha' hl' hs' hr =>
        cases ha.symm.trans ha'
        cases hl.symm.trans hl'
        cases hs.symm.trans hs'
        cases hn.symm.trans hr
      | overflowed ha' hl' hs' hr =>
        cases ha.symm.trans ha'
        cases hl.symm.trans hl'
        cases hs.symm.trans hs'
        cases hn.symm.trans hr
    · cases hc
  · cases hc

/-- So it is with the work of an instruction that makes the call. -/
theorem outcome_nativeCall (h : t.nativeCall? host m = some (native, call, m₁))
    (hn : outcome (native.run host call) m₁ = (.ok none, m₂)) :
    call.thread = t.id ∧ ∃ frames lock, outcome (ThreadM.tryStep host) (t, m) =
      (.ok (), { t with frames }, m₂.released t.id lock) := by
  unfold nativeCall? at h
  split at h
  · next f rest method t' m' hr hf hi =>
    rw [ThreadM.outcome_tryStep_invoke hr hf hi]
    obtain ⟨f', m', e⟩ := ThreadM.outcome_instruction_invoke hf hi
    cases e
    have hl : ({ t with frames := f' :: rest } : Thread).Locks f' m' method _ :=
      ThreadM.takeLock_locks method rfl m'
    unfold ThreadM.invoke
    rcases ho : outcome (ThreadM.takeLock method) ({ t with frames := f' :: rest }, m') with
      ⟨e | locking, s⟩ <;> rw [ho] at h hl
    · cases h
    rw [outcome_bind_ok ho]
    have calls (m₃ : Machine) (lock : Option Ref)
        (h : ((method.nativeCall? t.id f' m₃).map fun (native, call) => (native, call, m₃)) =
          some (native, call, m₁)) : call.thread = t.id ∧ ∃ frames lock',
            outcome (ThreadM.call host method lock) ({ t with frames := f' :: rest }, m₃) =
              (.ok (), { t with frames }, m₂.released t.id lock') := by
      obtain ⟨⟨native', call'⟩, hc, h⟩ := Option.map_eq_some_iff.1 h
      cases h
      obtain ⟨hid, frames, hcall⟩ :=
        outcome_call (t := { t with frames := f' :: rest }) rfl hc hn lock
      exact ⟨hid, frames, _, hcall⟩
    cases hl with
    | busy => cases h
    | unneeded => exact calls _ none h
    | held => exact calls _ (some _) h
  · cases h

end Thread

/-- A step that calls a wait gives up the monitor and asks for the pause. -/
theorem Thread.step_waits (hs : t.status = .runnable) (h : t.waitsOn? host m = some (r, count)) :
    (∃ frames, ((t.step host).run m).1 = { t with frames }) ∧
      (((t.step host).run m).2.monitorAt r).owner ≠ some t.id ∧
      ∃ millis, ((t.step host).run m).2.requests.suspend = some (.wait r count millis) := by
  unfold waitsOn? at h
  split at h
  · next native call m₁ hc =>
    split at h
    · next hw =>
      obtain ⟨hw, hok⟩ := Bool.and_eq_true_iff.1 hw
      obtain ⟨r', hr, h⟩ := Option.map_eq_some_iff.1 h
      cases h
      rcases native.wait_parks host call hw m₁ with ⟨e, he⟩ | ⟨r'', o, millis, hr', ho, hown, he⟩
      · rw [he] at hok
        cases hok
      cases hr.symm.trans hr'
      obtain ⟨hid, frames, lock, hstep⟩ := outcome_nativeCall hc he
      rw [step_of_ok hs hstep]
      obtain ⟨hrel, hsus⟩ := (m₁.parked call.thread r o millis).released_owner t.id lock
      refine ⟨⟨frames, rfl⟩, fun hne => ?_, millis, hsus.trans ?_⟩
      · replace hne : ((Exec.withNewMonitor m₁ r o _).monitorAt r).owner = some t.id := hrel r hne
        rw [Machine.monitorAt_withNewMonitor ho, if_pos rfl] at hne
        cases hne
      · rw [Machine.holds, Machine.monitorAt_eq ho, ← hid, Monitor.holds_eq_count hown]
        rfl
    · cases h
  · cases h

/-! ## Until the next instruction -/

/-- A thread waits for no notification. -/
def Thread.Unparked (t : Thread) : Prop := ∀ r count deadline, t.blocker ≠ some (.wait r count deadline)

/-- How a thread stands that has given up its holds on a monitor for a wait and has executed no
    instruction since. -/
inductive Thread.Regains (frames : List Frame) (r : Ref) (count : Nat) (t : Thread) (m : Machine) : Prop
  | waits {deadline : Option Nat} (hf : t.frames = frames) (hs : t.status = .waiting)
      (hb : t.blocker = some (.wait r count deadline)) (ho : (m.monitorAt r).owner ≠ some t.id)
  | returns (hf : t.frames = frames) (hr : t.reacquire = some (r, count)) (hb : t.Unparked)
      (ho : (m.monitorAt r).owner ≠ some t.id)
  | owns (hf : t.frames = frames) (hr : t.reacquire = none) (hb : t.Unparked)
      (ho : (m.monitorAt r).owner = some t.id) (hc : m.holds t.id r = count)
  | ended (hs : t.status = .terminated)

/-- A pause in which a thread waits for a notification was asked for as such. -/
theorem Blocker.IsFor.isWait {deadline : Option Nat} {s : Suspend}
    (h : Blocker.IsFor s (.wait r count deadline)) : s.IsWait := by
  cases s with
  | wait => trivial
  | join => cases h
  | sleep => obtain ⟨_, h⟩ := h; cases h
  | yield => cases h

namespace Thread

variable {frames : List Frame}

/-- A thread that waits for no notification keeps what it has to take back. -/
theorem Eases.unparked (h : t.Eases u) (ht : t.Unparked) :
    u.Unparked ∧ u.reacquire = t.reacquire := by
  induction h with
  | same => exact ⟨ht, rfl⟩
  | resumed _ _ ih => exact ⟨fun _ _ _ => nofun, ih.2⟩
  | @notified u _ ih =>
    unfold Thread.notified
    split
    · next r count deadline hb => exact absurd hb (ih.1 r count deadline)
    · exact ⟨fun _ _ _ => nofun, ih.2⟩

theorem suspended_unparked (ht : t.Unparked) {b : Blocker}
    (hb : ∀ r count deadline, b ≠ .wait r count deadline) : (t.suspended b).Unparked ∧
      (t.suspended b).reacquire = t.reacquire := by
  unfold suspended
  split
  · exact ⟨fun r count deadline e => hb r count deadline (Option.some.inj e), rfl⟩
  · exact ⟨ht, rfl⟩

theorem suspended_of_ne (h : t.status ≠ .runnable) (b : Blocker) : t.suspended b = t := if_neg h

theorem pausing_of_ne (h : t.status ≠ .runnable) (b : Option Blocker) : t.pausing b = t := by
  cases b with
  | none => rfl
  | some b => exact suspended_of_ne h b

namespace Regains

/-- What others do with the monitors does not matter. -/
theorem of_owner (h : t.Regains frames r count m)
    (ho : (m'.monitorAt r).owner = some t.id ↔ (m.monitorAt r).owner = some t.id)
    (hc : m'.holds t.id r = m.holds t.id r) : t.Regains frames r count m' := by
  cases h with
  | waits hf hs hb ho' => exact .waits hf hs hb (mt ho.1 ho')
  | returns hf hr hb ho' => exact .returns hf hr hb (mt ho.1 ho')
  | owns hf hr hb ho' hc' => exact .owns hf hr hb (ho.2 ho') (hc.trans hc')
  | ended hs => exact .ended hs

theorem leavesLocks (h : t.Regains frames r count m) (hl : LeavesLocks m m') :
    t.Regains frames r count m' :=
  h.of_owner (by rw [hl.owner_eq]) (hl.holds_eq _ _)

/-- If its waiting ends, it has been notified, or so it looks. -/
theorem eases (h : t.Regains frames r count m) (hf : t.Final) (he : t.Eases u)
    (hw : ∀ deadline, t.status = .waiting → t.blocker = some (.wait r count deadline) →
      u = t ∨ u = t.notified) : u.Regains frames r count m := by
  have hid := he.id_eq
  cases h with
  | waits hframes hs hb ho =>
    rcases hw _ hs hb with rfl | rfl
    · exact .waits hframes hs hb ho
    · have hn : t.notified = { t.resumed with reacquire := some (r, count) } := by
        unfold Thread.notified
        rw [hb]
      rw [hn]
      exact .returns hframes rfl (fun _ _ _ => nofun) ho
  | returns hframes hr hb ho =>
    obtain ⟨hu, hreacquire⟩ := he.unparked hb
    exact .returns (he.frames_eq.trans hframes) (hreacquire.trans hr) hu (hid ▸ ho)
  | owns hframes hr hb ho hc =>
    obtain ⟨hu, hreacquire⟩ := he.unparked hb
    exact .owns (he.frames_eq.trans hframes) (hreacquire.trans hr) hu (hid ▸ ho) (hid ▸ hc)
  | ended hs => exact .ended (he.ended hf hs)

theorem wakes {clock : Nat} {ended : ThreadId → Bool} (h : t.Regains frames r count m) (hf : t.Final)
    (hw : t.Wakes clock ended m₁ (u, m₂)) : u.Regains frames r count m :=
  h.eases hf hw.eases fun deadline hs hb => by
    cases hw with
    | stays => exact .inl rfl
    | resumes _ hb' hne => exact absurd (Option.some.inj (hb'.symm.trans hb)) (hne _ _ _)
    | timesOut => exact .inr rfl

theorem requested (h : t.Regains frames r count m) (hf : t.Final) (q : Requests) :
    (q.wakes t).Regains frames r count m :=
  h.eases hf (q.wakes_eases t) fun deadline hs hb => by
    have hp : t.promoted = t := if_neg (by simp [hs])
    unfold Requests.wakes
    dsimp only
    rw [hp, ite_self]
    split
    · exact .inr rfl
    · exact .inl rfl

theorem pausing (h : t.Regains frames r count m) {b : Option Blocker}
    (hb : ∀ r count deadline, b ≠ some (.wait r count deadline)) :
    (t.pausing b).Regains frames r count m := by
  cases b with
  | none => exact h
  | some b =>
    have hb' : ∀ r count deadline, b ≠ .wait r count deadline := fun _ _ _ e => hb _ _ _ (congrArg some e)
    obtain ⟨hid, hframes⟩ := suspended_id t b
    show (t.suspended b).Regains frames r count m
    cases h with
    | waits hf hs hb ho =>
      rw [suspended_of_ne (by simp [hs])]
      exact .waits hf hs hb ho
    | returns hf hr hb ho =>
      obtain ⟨hu, hreacquire⟩ := suspended_unparked hb hb'
      exact .returns (hframes.trans hf) (hreacquire.trans hr) hu (hid ▸ ho)
    | owns hf hr hb ho hc =>
      obtain ⟨hu, hreacquire⟩ := suspended_unparked hb hb'
      exact .owns (hframes.trans hf) (hreacquire.trans hr) hu (hid ▸ ho) (hid ▸ hc)
    | ended hs =>
      rw [suspended_of_ne (by simp [hs])]
      exact .ended hs

/-- Its own step takes the holds back, or blocks it until the monitor is free. -/
theorem step (h : t.Regains frames r count m) (hs : t.status = .runnable) (hr : t.reacquire ≠ none)
    (host : Host) : ((t.step host).run m).1.status = .terminated ∨
      ((t.step host).run m).1.Regains frames r count ((t.step host).run m).2 ∧
        ((t.step host).run m).2.requests = m.requests := by
  cases h with
  | waits _ hs' => cases hs.symm.trans hs'
  | owns _ hr' => exact absurd hr' hr
  | ended hs' => cases hs.symm.trans hs'
  | returns hf hreacquire hb ho =>
    have hq := (Exec.tryEnter_requests r t.id count m).1
    have hnone : m.holds t.id r = 0 := Monitor.holds_eq_zero ho
    have notThrown {e : Throwable} {s : Thread × Machine}
        (ha : t.Attempts host m (.error (.thrown e), s)) : False := by
      cases ha with
      | dangling _ he =>
        obtain ⟨_, e⟩ := Exec.tryEnter_failsFatally m _ _ he
        cases e
      | starts hr' => exact hr hr'
      | executes hr' => exact hr hr'
    have hsteps := step_steps host hs m
    generalize (t.step host).run m = s at hsteps ⊢
    cases hsteps with
    | works ha =>
      refine .inr ?_
      cases ha with
      | reacquires hr' he =>
        cases hreacquire.symm.trans hr'
        rw [he] at hq
        refine ⟨.owns hf rfl hb (Exec.tryEnter_owner he).1 ?_, hq⟩
        rw [Exec.tryEnter_holds he, hnone]
        simp
      | @blocksAgain _ _ m₁ hr' he =>
        cases hreacquire.symm.trans hr'
        rw [he] at hq
        have hl := Exec.tryEnter_refused he
        exact ⟨.returns hf hreacquire (fun _ _ _ => nofun) (by rwa [hl.owner_eq]), hq⟩
      | starts hr' => exact absurd hr' hr
      | executes hr' => exact absurd hr' hr
    | aborts => exact .inl rfl
    | throws ha => exact (notThrown ha).elim
    | unmade ha => exact (notThrown ha).elim
    | stuck ha => exact (notThrown ha).elim

end Regains

end Thread

namespace Vm

variable {vm vm' : Vm} {j : Nat} {id : ThreadId} {frames : List Frame}

/-- Whether the next turn is one in which a thread executes an instruction, or starts, instead of
    trying to take back the holds it gave up. -/
def executes (vm : Vm) (id : ThreadId) : Bool :=
  vm.next?.any fun (t, _) => t.id = id ∧ t.reacquire = none

/-- Whether a thread does so in one of the turns of a run. -/
def executesIn (host : Host) (id : ThreadId) : Vm → List Action → Bool
  | _, [] => false
  | vm, a :: as => (a == .turn && vm.executes id) || executesIn host id (vm.act host a) as

/-- The thread in a place stands between a wait and its next instruction. -/
def Regains (j : Nat) (id : ThreadId) (frames : List Frame) (r : Ref) (count : Nat) (vm : Vm) : Prop :=
  ∃ t, vm.threads[j]? = some t ∧ t.id = id ∧ t.Regains frames r count vm.machine

namespace Regains

theorem choose (h : vm.Regains j id frames r count) (hs : Steady vm) :
    vm.choose.2.Regains j id frames r count := by
  have kept : Steady vm.choose.2 ∧ vm.choose.2.Regains j id frames r count := by
    refine choose_keeps (P := fun vm => Steady vm ∧ vm.Regains j id frames r count) ?_ ?_ ⟨hs, h⟩
    · rintro vm ⟨hs, t, ht, hid, h⟩
      obtain ⟨he, hl⟩ := wakeDue_eased wakesWithin_leavesLocks vm
      obtain ⟨u, m₁, m₂, hu, hw⟩ := (wakeDue_wakes vm).get? (Array.getElem?_toList ▸ ht)
      rw [Array.getElem?_toList] at hu
      exact ⟨hs.eased he hl, u, hu, hw.eases.id_eq.trans hid,
        (h.wakes (hs.final t (Array.mem_of_getElem? ht)) hw).leavesLocks hl⟩
    · rintro vm clock ⟨hs, h⟩
      exact ⟨⟨hs.noWait, hs.spawned, hs.final⟩, h⟩
  exact kept.2

/-- The turn of a thread does not break in on a thread that gets its holds back. -/
theorem runThread (h : vm.Regains j id frames r count) (hs : Steady vm) (hh : host.Within LeavesLocks)
    (hd : vm.ids.Nodup) {i : Nat} (ht : vm.threads[i]? = some t) (hr : t.status = .runnable)
    (hx : t.id = id → t.reacquire ≠ none) : (vm.runThread host i).Regains j id frames r count := by
  obtain ⟨v, hv, hid, h⟩ := h
  obtain ⟨hm, -⟩ := runThread_spec host ht
  obtain ⟨vm', -, -, hget⟩ := runThread_threads host hd ht
  have hothers := Thread.step_sparesOthers hh t vm.machine
  have hstep := (hs.final t (Array.mem_of_getElem? ht)).step host vm.machine
  have hstepid := t.step_id host vm.machine
  have hj : j < vm.threads.size := (Array.getElem?_eq_some_iff.1 hv).1
  have hjget := hget j
  rw [if_pos hj, hv, Option.map_some] at hjget
  have requestless {u : Thread} {m : Machine} (h : u.Regains frames r count m) :
      u.Regains frames r count { m with requests := {} } := h.of_owner Iff.rfl rfl
  refine ⟨_, hjget, ?_, ?_⟩
  · split
    · next e =>
      subst e
      cases hv.symm.trans ht
      rw [(Thread.pausing_id _ _).1, (Requests.wakes_eases _ _).id_eq, hstepid, hid]
    · rw [(Requests.wakes_eases _ _).id_eq, hid]
  · rw [hm]
    refine requestless ?_
    split
    · next e =>
      subst e
      cases hv.symm.trans ht
      rcases h.step hr (hx hid) host with hended | ⟨h', hq⟩
      · have hended := ((t.step host).run vm.machine).2.requests.wakes_eases _ |>.ended hstep hended
        rw [Thread.pausing_of_ne (by simp [hended])]
        exact .ended hended
      · refine (h'.requested hstep _).pausing fun r count deadline e => ?_
        obtain ⟨s, hsus, hb⟩ := Option.bind_eq_some_iff.1 e
        exact hs.noWait s (hq ▸ hsus) (blockerFor?_isFor hb).isWait
    · next e =>
      have hne : v.id ≠ t.id := fun hvt => e (index_eq hd hv ht hvt)
      exact (h.of_owner (hothers.owner_iff v.id hne r) (hothers.holds_eq v.id hne r)).requested
        (hs.final v (Array.mem_of_getElem? hv)) _

theorem act (h : vm.Regains j id frames r count) (hs : Steady vm) (hh : host.Within LeavesLocks)
    {a : Action} (hd : vm.ids.Nodup) (hx : a = .turn → vm.executes id = false) :
    (vm.act host a).Regains j id frames r count := by
  by_cases ha : a = .turn
  · subst ha
    show (vm.turn host).2.Regains j id frames r count
    rcases turn_cases host vm with ⟨-, e | e⟩ | ⟨i, t, hn, ht, hr, e⟩ <;> rw [e]
    · exact h
    · exact h.choose hs
    · refine (h.choose hs).runThread hs.choose hh (choose_ids vm ▸ hd) ht hr fun hid hnone => ?_
      have hx := hx rfl
      rw [executes, hn] at hx
      simp [hid, hnone] at hx
  · obtain ⟨machine, new, e, -⟩ := act_appends host vm ha
    have hl : LeavesLocks vm.machine (vm.act host a).machine := act_leavesLocks ha
    obtain ⟨t, ht, hid, h⟩ := h
    rw [e] at hl ⊢
    exact ⟨t, (Array.getElem?_append_left (Array.getElem?_eq_some_iff.1 ht).1).trans ht, hid,
      h.leavesLocks hl⟩

theorem after (h : vm.Regains j id frames r count) (hs : Steady vm) (hh : host.Within LeavesLocks)
    {as : List Action} (hd : (vm.after host as).ids.Nodup) (hx : executesIn host id vm as = false) :
    (vm.after host as).Regains j id frames r count := by
  induction as generalizing vm with
  | nil => exact h
  | cons a as ih =>
    have hd' : vm.ids.Nodup := hd.sublist (after_ids host vm (a :: as)).sublist
    rw [executesIn, Bool.or_eq_false_iff, Bool.and_eq_false_imp] at hx
    refine ih (h.act hs hh hd' fun ha => hx.1 (by simp [ha])) (hs.act hh a) hd hx.2

end Regains

/-- After the turn in which a thread calls a wait it has no hold on the monitor. -/
theorem turn_regains (hs : Steady vm) (hd : vm.ids.Nodup) (hn : vm.next? = some (t, m))
    (hw : t.waitsOn? host m = some (r, count)) :
    ((vm.turn host).2.machine.monitorAt r).owner ≠ some t.id ∧
      ∃ j u, (vm.turn host).2.threads[j]? = some u ∧
        (vm.turn host).2.Regains j t.id u.frames r count := by
  rcases turn_cases host vm with ⟨hn', -⟩ | ⟨i, t', hn', ht, hr, e⟩
  · cases hn'.symm.trans hn
  cases hn'.symm.trans hn
  rw [e]
  obtain ⟨hm, -⟩ := runThread_spec host ht
  obtain ⟨vm', -, -, hget⟩ := runThread_threads host (choose_ids vm ▸ hd) ht
  obtain ⟨⟨frames, hf⟩, ho, millis, hsus⟩ := Thread.step_waits hr hw
  have hget := hget i
  have hfinal := hs.choose.final t (Array.mem_of_getElem? ht)
  have hwakes (q : Requests) : q.wakes { t with frames } = { t with frames } :=
    q.wakes_of_runnable hr (hfinal.unblocked hr)
  rw [if_pos (Array.getElem?_eq_some_iff.1 ht).1, ht, Option.map_some, if_pos rfl, hf, hwakes, hsus] at hget
  have ho' : ((vm.choose.2.runThread host i).machine.monitorAt r).owner ≠ some t.id := by
    rw [hm]
    exact ho
  refine ⟨ho', i, _, hget, _, hget, (Thread.pausing_id _ _).1, ?_⟩
  have hp : ({ t with frames } : Thread).pausing
      (some (.wait r count (millis.map (vm'.clock + ·)))) = { t with
        frames, status := .waiting, blocker := some (.wait r count (millis.map (vm'.clock + ·))) } :=
    if_pos hr
  have hb : (some (.wait r count millis) : Option Suspend).bind vm'.blockerFor? =
      some (.wait r count (millis.map (vm'.clock + ·))) := rfl
  rw [hb, hp]
  exact .waits rfl rfl rfl ho'

end Vm

/-! ## A program -/

/-- A class `A` whose `main` takes the monitor of a string twice and waits there for some time. -/
def waiterFor (millis : Int64) : ClassFile :=
  { ClassFile.ofClass "A" with
    pool := [.method ⟨ClassName.object, "wait", "(J)V"⟩, .string "lock"]
    methods := [
      { flags := .ofList [.staticMember], name := "main", descriptor := "()V"
        code := some (.ofList 4 0 [.loadConstant 2, .dup 1 0, .dup 1 0, .monitorEnter, .monitorEnter,
          .literal (.long millis), .invokeVirtual 1, .leave none]) }] }

namespace Vm

/-- A virtual machine that has this class, and has run nothing yet. -/
def ofWaiter (millis : Int64) : Vm := .boot {} (.ofList [("A", waiterFor millis)]) 0

end Vm

end GreenVm
