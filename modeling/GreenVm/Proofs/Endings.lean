/-
  How threads end.

  A thread has ended just if it has a completion.  It has left all frames then, waits for nothing and
  has nothing more to start; a thread that can run waits for nothing, either (`Thread.Final`).  Every
  step and whatever the scheduler does to threads keeps it so, over every run (`Vm.Steady`).
-/
import GreenVm.Proofs.Ledger.Others
import GreenVm.Proofs.Runs
import GreenVm.Proofs.Steps

namespace GreenVm

/-- What work can run into: a monitor that is taken, or a class that another thread initializes. -/
def Blocker.IsObstacle : Blocker → Prop
  | .monitor _ | .classInit _ => True
  | _ => False

namespace Thread

/-- If the thread waits, it is for an obstacle, not because it asked to. -/
def Unpaused (t : Thread) : Prop := ∀ b ∈ t.blocker, b.IsObstacle

/-- The thread has ended just if it has a completion, and then nothing of it is left.  If it can run,
    it waits for nothing. -/
structure Final (t : Thread) : Prop where
  iff : t.status = .terminated ↔ t.completion.isSome
  ended : t.status = .terminated → t.frames = [] ∧ t.entry = none ∧ t.blocker = none
  unblocked : t.status = .runnable → t.blocker = none

/-- The thread has not ended, and has not paused. -/
structure Live (t : Thread) : Prop where
  status_ne : t.status ≠ .terminated
  completion_eq : t.completion = none
  unblocked : t.status = .runnable → t.blocker = none
  unpaused : t.Unpaused

variable {t u : Thread} {m m' : Machine} {host : Host} {f : Frame} {fs rest : List Frame}
  {r : MethodRef} {x : Except Fault Unit × Thread × Machine}

theorem Live.final (h : t.Live) : t.Final where
  iff := by simp [h.status_ne, h.completion_eq]
  ended e := absurd e h.status_ne
  unblocked := h.unblocked

theorem unpaused_of_none (h : t.blocker = none) : t.Unpaused := fun b hb => by
  rw [h] at hb
  cases hb

theorem unpaused_of_some {b : Blocker} (h : t.blocker = some b) (hb : b.IsObstacle) :
    t.Unpaused := fun b' hb' => by
  rw [h] at hb'
  cases hb'
  exact hb

/-- A thread that can run and has not ended. -/
theorem Final.live (h : t.Final) (hr : t.status = .runnable) : t.Live where
  status_ne := by simp [hr]
  completion_eq := by simpa [hr] using h.iff
  unblocked := h.unblocked
  unpaused := unpaused_of_none (h.unblocked hr)

/-- Changes of anything but the status, the completion and what the thread waits for. -/
theorem Live.of_same (h : t.Live) (hs : u.status = t.status) (hc : u.completion = t.completion)
    (hb : u.blocker = t.blocker) : u.Live :=
  ⟨hs ▸ h.status_ne, hc ▸ h.completion_eq, fun hr => hb.trans (h.unblocked (hs ▸ hr)),
    fun b hb' => h.unpaused b (hb ▸ hb')⟩

/-- A thread that ends without frames and entry. -/
theorem final_ended (hf : t.frames = []) (he : t.entry = none) (c : Completion) :
    (t.ended c).Final where
  iff := by simp [Thread.ended]
  ended _ := ⟨hf, he, rfl⟩
  unblocked _ := rfl

/-- A failure leaves a thread alive, and whatever else work does is final, and no pause. -/
inductive Spared : Except Fault Unit × Thread × Machine → Prop
  | works {t : Thread} {m : Machine} (h : t.Final) (hu : t.Unpaused) : Spared (.ok (), t, m)
  | fails {e : Fault} {t : Thread} {m : Machine} (h : t.Live) : Spared (.error e, t, m)

theorem Live.spared (h : t.Live) (hs : x.2.1.status = t.status)
    (hc : x.2.1.completion = t.completion) (hb : x.2.1.blocker = t.blocker) : Spared x := by
  obtain ⟨e | _, u, m⟩ := x
  · exact .fails (h.of_same hs hc hb)
  · exact .works (h.of_same hs hc hb).final (h.of_same hs hc hb).unpaused

theorem Live.blockedOn (h : t.Live) (r : Ref) : (t.blockedOn r).Live :=
  ⟨nofun, h.completion_eq, nofun, unpaused_of_some rfl trivial⟩

theorem Live.awaiting (h : t.Live) (c : Class) : (t.awaiting c).Live :=
  ⟨nofun, h.completion_eq, nofun, unpaused_of_some rfl trivial⟩

theorem Calls.spared {lock : Option Ref} (h : t.Live) (hc : t.Calls host f m r lock x) :
    Spared x := by
  cases hc <;> exact h.spared rfl rfl rfl

theorem Invokes.spared (h : t.Live) (hi : t.Invokes host f m r x) : Spared x := by
  cases hi with
  | unlocked => exact .fails h
  | busy => exact (h.blockedOn _).spared rfl rfl rfl
  | unguarded _ hc => exact hc.spared h
  | guarded _ hc => exact hc.spared h

theorem Returns.spared {value : Option Value} (h : t.Live) (hr : t.Returns f m value rest x) :
    Spared x := by
  cases hr with
  | ended he => exact .works (final_ended (t := t.left []) rfl he _) (unpaused_of_none rfl)
  | _ => exact h.spared rfl rfl rfl

theorem BeginsInitializer.spared (h : t.Live) (hb : t.BeginsInitializer m r x) : Spared x := by
  cases hb <;> exact h.spared rfl rfl rfl

theorem Starts.spared (h : t.Live) (hf : t.frames = []) (hs : t.Starts host m r x) :
    Spared x := by
  cases hs with
  | awaits => exact (h.awaiting _).spared rfl rfl rfl
  | initializes _ _ hb => exact hb.spared h
  | returned =>
    exact .works (final_ended (t := { t with entry := none }) hf rfl _) (unpaused_of_none rfl)
  | _ => exact h.spared rfl rfl rfl

theorem Executes.spared (h : t.Live) (hx : t.Executes host f m rest x) : Spared x := by
  have moved (f' : Frame) : { t with frames := f' :: rest }.Live :=
    h.of_same rfl rfl rfl
  cases hx with
  | failed => exact .fails (moved _)
  | advances => exact h.spared rfl rfl rfl
  | jumps => exact h.spared rfl rfl rfl
  | blocks => exact ((moved _).blockedOn _).spared rfl rfl rfl
  | awaits => exact ((moved _).awaiting _).spared rfl rfl rfl
  | initializes _ hb => exact hb.spared (moved _)
  | invokes _ hi => exact hi.spared (moved _)
  | returns _ hr => exact hr.spared (moved _)

theorem Attempts.spared (h : t.Live) (ha : t.Attempts host m x) : Spared x := by
  cases ha with
  | reacquires => exact h.spared rfl rfl rfl
  | blocksAgain => exact (h.blockedOn _).spared rfl rfl rfl
  | dangling => exact .fails (h.of_same rfl rfl rfl)
  | starts _ hf hs => exact hs.spared h hf
  | executes _ _ hx => exact hx.spared h

theorem Unwinds.spared {r : Ref} (hu : t.Unwinds m r fs x) (h : t.Live) (hf : t.frames = fs) :
    Spared x := by
  induction hu with
  | @unhandled t _ _ =>
    exact .works (final_ended (t := { t with entry := none }) hf rfl _) (unpaused_of_none rfl)
  | passes _ _ _ ih => exact ih (h.of_same rfl rfl rfl) rfl
  | fails _ _ _ _ ih => exact ih (h.of_same rfl rfl rfl) rfl
  | _ => exact h.spared rfl rfl rfl

theorem aborted_final (t : Thread) (e : EngineError) : (t.aborted e).Final where
  iff := by simp [Thread.aborted]
  ended _ := ⟨rfl, rfl, rfl⟩
  unblocked _ := rfl

/-- A step of a thread that can run does not pause it. -/
theorem Live.step (h : t.Live) (hr : t.status = .runnable) (host : Host) (m : Machine) :
    ((t.step host).run m).1.Final ∧ ((t.step host).run m).1.Unpaused := by
  have hs := step_steps host hr m
  generalize (t.step host).run m = s at hs ⊢
  cases hs with
  | works ha =>
    cases ha.spared h with
    | works h hu => exact ⟨h, hu⟩
  | throws ha _ hu =>
    cases ha.spared h with
    | fails h =>
      cases hu.spared h rfl with
      | works h hu => exact ⟨h, hu⟩
  | aborts => exact ⟨aborted_final _ _, unpaused_of_none rfl⟩
  | unmade => exact ⟨aborted_final _ _, unpaused_of_none rfl⟩
  | stuck => exact ⟨aborted_final _ _, unpaused_of_none rfl⟩

/-- Every step keeps it that a thread has ended just if it has a completion. -/
theorem Final.step (h : t.Final) (host : Host) (m : Machine) : ((t.step host).run m).1.Final := by
  by_cases hr : t.status = .runnable
  · exact ((h.live hr).step hr host m).1
  · have : (t.step host).run m = (t, m) := by
      unfold Thread.step
      simp only [hr, if_false]
      rfl
    rw [this]
    exact h

/-! ## The scheduler -/

theorem Final.resumed (h : t.Final) (hs : t.status ≠ .terminated) : t.resumed.Final := by
  have hc : t.completion = none := by simpa [hs] using h.iff
  exact Live.final ⟨nofun, hc, fun _ => rfl, unpaused_of_none rfl⟩

theorem Final.notified (h : t.Final) : t.notified.Final := by
  unfold Thread.notified
  split
  · next r c d hb =>
    have hs : t.status ≠ .terminated := fun e => by
      rw [(h.ended e).2.2] at hb
      cases hb
    have hr := h.resumed hs
    exact ⟨hr.iff, nofun, fun _ => rfl⟩
  · exact ⟨h.iff, fun e => ⟨(h.ended e).1, (h.ended e).2.1, rfl⟩, fun _ => rfl⟩

theorem Eases.final (h : t.Eases u) (ht : t.Final) : u.Final := by
  induction h with
  | same => exact ht
  | resumed _ hs ih => exact ih.resumed fun e => by rcases hs with hs | hs <;> cases hs.symm.trans e
  | notified _ ih => exact ih.notified

theorem Final.suspended (h : t.Final) (b : Blocker) : (t.suspended b).Final := by
  unfold Thread.suspended
  split
  · next hr =>
    have hc : t.completion = none := by simpa [hr] using h.iff
    exact ⟨by simp [hc], nofun, nofun⟩
  · exact h

theorem final_starting (id : ThreadId) (name : String) (r : MethodRef) (args : List Value) :
    (starting id name r args).Final :=
  Live.final ⟨nofun, rfl, fun _ => rfl, unpaused_of_none rfl⟩

/-- Ending the waiting of a thread does not touch how it ended. -/
theorem Eases.completion_eq (h : t.Eases u) : u.completion = t.completion := by
  induction h with
  | same => rfl
  | resumed _ _ ih => exact ih
  | notified _ ih =>
    refine Eq.trans ?_ ih
    unfold Thread.notified
    split <;> rfl

theorem Eases.entry_eq (h : t.Eases u) : u.entry = t.entry := by
  induction h with
  | same => rfl
  | resumed _ _ ih => exact ih
  | notified _ ih =>
    refine Eq.trans ?_ ih
    unfold Thread.notified
    split <;> rfl

/-- Ending the waiting of a thread that has ended changes nothing about that. -/
theorem Eases.ended (h : t.Eases u) (hf : t.Final) (hs : t.status = .terminated) :
    u.status = .terminated := by
  refine (h.final hf).iff.2 ?_
  rw [h.completion_eq]
  exact hf.iff.1 hs

theorem suspended_same (t : Thread) (b : Blocker) :
    (t.suspended b).completion = t.completion ∧ (t.suspended b).entry = t.entry := by
  unfold Thread.suspended
  split <;> exact ⟨rfl, rfl⟩

theorem IsNew.final (h : t.IsNew) : t.Final := by
  obtain ⟨method, args, h⟩ := h
  rw [h]
  exact final_starting _ _ _ _

end Thread

namespace Vm

/-- Between turns all threads are final, those that are to be started have not run, and nothing is
    about to wait for a notification. -/
structure Steady (vm : Vm) : Prop where
  noWait : ∀ w, vm.machine.requests.suspend = some w → ¬ w.IsWait
  spawned : ∀ t ∈ vm.machine.requests.spawned, t.IsNew
  final : ∀ t ∈ vm.threads, t.Final

variable {vm vm' : Vm} {host : Host}

namespace Steady

theorem eased (h : Steady vm) (he : Eased vm.threads vm'.threads)
    (hl : LeavesLocks vm.machine vm'.machine) : Steady vm' where
  noWait w e hw := h.noWait w (hl.suspend w e hw) hw
  spawned t ht := by
    obtain ⟨ts, e, hn⟩ := hl.spawned
    rw [e] at ht
    exact (List.mem_append.1 ht).elim (h.spawned t) (hn t)
  final u hu := by
    obtain ⟨j, hj⟩ := Array.getElem?_of_mem hu
    obtain ⟨t, ht, htu⟩ := he.get? hj
    exact htu.final (h.final t (Array.mem_of_getElem? ht))

theorem choose (h : Steady vm) : Steady vm.choose.2 :=
  h.eased (choose_eased wakesWithin_leavesLocks vm).1 (choose_eased wakesWithin_leavesLocks vm).2

theorem runThread (h : Steady vm) (hh : host.Within LeavesLocks) {i : Nat} {t : Thread}
    (ht : vm.threads[i]? = some t) : Steady (vm.runThread host i) := by
  obtain ⟨hm, -⟩ := runThread_spec host ht
  obtain ⟨-, -, new, hnew, hnews⟩ := Thread.step_sparesOthers hh t vm.machine
  have hstep := (h.final t (Array.mem_of_getElem? ht)).step host vm.machine
  refine ⟨fun w e => ?_, fun u hu => ?_, fun u hu => ?_⟩
  · rw [hm] at e
    cases e
  · rw [hm] at hu
    cases hu
  · obtain ⟨j, hj⟩ := Array.getElem?_of_mem hu
    rcases runThread_get? host ht hj with ⟨-, v, hv, hvu⟩ | ⟨-, v, hv, e⟩ | hu
    · exact hvu.final (h.final v (Array.mem_of_getElem? hv))
    · rcases e with rfl | ⟨s, b, -, -, rfl⟩
      · exact hv.final hstep
      · exact (hv.final hstep).suspended b
    · rw [hnew] at hu
      exact ((List.mem_append.1 hu).elim (h.spawned u) (hnews u)).final

theorem act (h : Steady vm) (hh : host.Within LeavesLocks) (a : Action) :
    Steady (vm.act host a) := by
  by_cases ha : a = .turn
  · subst ha
    show Steady (vm.turn host).2
    rcases turn_cases host vm with ⟨-, e | e⟩ | ⟨i, t, -, ht, -, e⟩ <;> rw [e]
    · exact h
    · exact h.choose
    · exact h.choose.runThread hh ht
  · obtain ⟨machine, new, e, hnew⟩ := act_appends host vm ha
    have hl : LeavesLocks vm.machine (vm.act host a).machine := act_leavesLocks ha
    rw [e] at hl ⊢
    have hs : Steady { vm with machine } := h.eased (.refl _) hl
    refine ⟨hs.noWait, hs.spawned, fun u hu => ?_⟩
    rcases Array.mem_append.1 hu with hu | hu
    · exact h.final u hu
    · obtain ⟨id, name, r, args, rfl, -⟩ := hnew u hu
      exact Thread.final_starting _ _ _ _

theorem after (h : Steady vm) (hh : host.Within LeavesLocks) (as : List Action) :
    Steady (vm.after host as) := by
  induction as generalizing vm with
  | nil => exact h
  | cons a as ih => exact ih (h.act hh a)

theorem boot (config : Config) (classPath : Table String ClassFile) (wallClock : Nat) :
    Steady (.boot config classPath wallClock) where
  noWait _ e := by cases e
  spawned _ hu := by cases hu
  final _ hu := by simp [Vm.boot] at hu

end Steady

end Vm

end GreenVm
