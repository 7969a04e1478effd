/-
  Runs of a virtual machine, taken apart.

  * `Vm.after host vm as`: the state after a list of actions, each a turn or the start of a thread.
  * `Thread.Eases`: what the scheduler does to a thread beside giving it turns and letting it pause:
    it ends its waiting.
  * For each part of a turn, what becomes of the threads and of the machine.
-/
import GreenVm.Vm
import GreenVm.ClassFile.Builder
import GreenVm.Proofs.Quiet.Natives
import GreenVm.Proofs.Locks
import Mathlib.Data.List.Forall2

namespace GreenVm

/-! ## Runs -/

namespace Vm

/-- What an embedder does with a virtual machine. -/
inductive Action
  | turn
  | spawn (className methodName descriptor : String) (args : List Value)
  | startMain (mainClass : String) (args : List String)
  /-- Registers a function of the embedder as a native method. -/
  | register (className methodName descriptor function : String)
  deriving DecidableEq, Repr, Inhabited

/-- The state after one action. -/
def act (host : Host) (vm : Vm) : Action → Vm
  | .turn => (vm.turn host).2
  | .spawn className methodName descriptor args =>
    (vm.spawn className methodName descriptor args).2
  | .startMain mainClass args => (vm.startMain mainClass args).2
  | .register className methodName descriptor function =>
    { vm with machine := { vm.machine with
        natives := vm.machine.natives.register className methodName descriptor (.host function) } }

/-- The state after some actions. -/
def after (host : Host) (vm : Vm) (as : List Action) : Vm := as.foldl (act host) vm

/-- The ids of the threads, in the order of their creation. -/
def ids (vm : Vm) : List ThreadId := vm.threads.toList.map Thread.id

variable {host : Host} {vm : Vm}

@[simp] theorem after_nil : after host vm [] = vm := rfl

@[simp] theorem after_cons (a : Action) (as : List Action) :
    after host vm (a :: as) = after host (act host vm a) as := rfl

theorem after_append (as bs : List Action) :
    after host vm (as ++ bs) = after host (after host vm as) bs := List.foldl_append

end Vm

/-! ## Waking -/

/-- What a thread becomes when its waiting is ended, for whatever reason and however often. -/
inductive Thread.Eases (t : Thread) : Thread → Prop
  | same : Eases t t
  | resumed {u : Thread} : Eases t u → u.status = .blocked ∨ u.status = .waiting →
    Eases t u.resumed
  | notified {u : Thread} : Eases t u → Eases t u.notified

namespace Thread

variable {t u v : Thread}

theorem notified_id (t : Thread) : t.notified.id = t.id ∧ t.notified.frames = t.frames := by
  unfold notified
  split <;> exact ⟨rfl, rfl⟩

theorem suspended_id (t : Thread) (b : Blocker) :
    (t.suspended b).id = t.id ∧ (t.suspended b).frames = t.frames := by
  unfold suspended
  split <;> exact ⟨rfl, rfl⟩

namespace Eases

theorem trans (h : t.Eases u) (h' : u.Eases v) : t.Eases v := by
  induction h' with
  | same => exact h
  | resumed _ hs ih => exact .resumed ih hs
  | notified _ ih => exact .notified ih

theorem id_eq (h : t.Eases u) : u.id = t.id := by
  induction h with
  | same => rfl
  | resumed _ _ ih => exact ih
  | notified _ ih => exact (notified_id _).1.trans ih

theorem frames_eq (h : t.Eases u) : u.frames = t.frames := by
  induction h with
  | same => rfl
  | resumed _ _ ih => exact ih
  | notified _ ih => exact (notified_id _).2.trans ih

theorem promoted (t : Thread) : t.Eases t.promoted := by
  unfold Thread.promoted
  split
  · next h => exact .resumed .same (.inl h)
  · exact .same

end Eases

end Thread

/-- Every thread is eased, in its place. -/
def Eased (ts us : Array Thread) : Prop := List.Forall₂ Thread.Eases ts.toList us.toList

namespace Eased

variable {ts us vs : Array Thread}

theorem refl (ts : Array Thread) : Eased ts ts := List.forall₂_same.2 fun _ _ => .same

theorem trans (h : Eased ts us) (h' : Eased us vs) : Eased ts vs := by
  have go : ∀ {l₁ l₂ l₃ : List Thread}, List.Forall₂ Thread.Eases l₁ l₂ →
      List.Forall₂ Thread.Eases l₂ l₃ → List.Forall₂ Thread.Eases l₁ l₃ := by
    intro l₁ l₂ l₃ h₁ h₂
    induction h₁ generalizing l₃ with
    | nil => exact h₂
    | cons h _ ih =>
      cases h₂ with
      | cons h' h₂ => exact .cons (h.trans h') (ih h₂)
  exact go h h'

theorem ids_eq (h : Eased ts us) :
    us.toList.map Thread.id = ts.toList.map Thread.id := by
  unfold Eased at h
  generalize ts.toList = l, us.toList = l' at h ⊢
  induction h with
  | nil => rfl
  | cons h _ ih => rw [List.map_cons, List.map_cons, ih, h.id_eq]

/-- Each thread there is now was eased from the one in its place. -/
theorem get? (h : Eased ts us) {j : Nat} {u : Thread} (hu : us[j]? = some u) :
    ∃ t, ts[j]? = some t ∧ t.Eases u := by
  rw [← Array.getElem?_toList] at hu
  simp only [← Array.getElem?_toList]
  unfold Eased at h
  generalize ts.toList = l, us.toList = l' at h hu ⊢
  induction h generalizing j with
  | nil => simp at hu
  | cons h _ ih =>
    cases j with
    | zero =>
      simp only [List.getElem?_cons_zero, Option.some.injEq] at hu ⊢
      exact ⟨_, rfl, hu ▸ h⟩
    | succ j => exact ih hu

/-- Each thread there was is eased to the one in its place. -/
theorem get?_of_get? (h : Eased ts us) {j : Nat} {t : Thread} (ht : ts[j]? = some t) :
    ∃ u, us[j]? = some u ∧ t.Eases u := by
  rw [← Array.getElem?_toList] at ht
  simp only [← Array.getElem?_toList]
  unfold Eased at h
  generalize ts.toList = l, us.toList = l' at h ht ⊢
  induction h generalizing j with
  | nil => simp at ht
  | cons h _ ih =>
    cases j with
    | zero =>
      simp only [List.getElem?_cons_zero, Option.some.injEq] at ht ⊢
      exact ⟨_, rfl, ht ▸ h⟩
    | succ j => exact ih ht

/-- Easing the thread at one place. -/
theorem modify {f : Thread → Thread} (hf : ∀ t : Thread, t.Eases (f t)) (i : Nat) :
    Eased ts (ts.modify i f) := by
  refine List.forall₂_iff_get.2 ⟨by simp, fun j h₁ h₂ => ?_⟩
  simp only [List.get_eq_getElem, Array.getElem_toList, Array.getElem_modify]
  split
  · exact hf _
  · exact .same

theorem updateThread {f : Thread → Thread} (hf : ∀ t : Thread, t.Eases (f t)) (id : ThreadId) :
    Eased ts (updateThread id f ts) := by
  unfold GreenVm.updateThread
  split
  · exact modify hf _
  · exact refl ts

theorem foldl {f : Thread → Thread} (hf : ∀ t : Thread, t.Eases (f t)) (is : List ThreadId)
    (ts : Array Thread) : Eased ts (is.foldl (fun ts id => GreenVm.updateThread id f ts) ts) := by
  induction is generalizing ts with
  | nil => exact refl ts
  | cons i is ih => exact (updateThread hf i).trans (ih _)

end Eased

/-- What a pause that was asked for makes a thread wait for. -/
def Blocker.IsFor : Suspend → Blocker → Prop
  | .wait r count _, b => ∃ deadline, b = .wait r count deadline
  | .join t, b => b = .join t
  | .sleep _, b => ∃ deadline, b = .sleep deadline
  | .yield, _ => False

namespace Vm

/-! ## Choosing a thread -/

/-- A relation that allows the waiters of a monitor to become fewer. -/
def WakesWithin (R : Machine → Machine → Prop) : Prop :=
  ∀ (m : Machine) (r : Ref) (t : ThreadId), R m { m with heap := m.heap.update r fun o =>
    { o with monitor := (o.monitor.removeWaiter t).2 } }

variable {R : Machine → Machine → Prop} {vm : Vm} {host : Host}

theorem wakeThread_eases [Std.Refl R] (hw : WakesWithin R) (clock : Nat)
    (ended : ThreadId → Bool) (t : Thread) (m : Machine) :
    t.Eases ((wakeThread clock ended t).run m).1 ∧ R m ((wakeThread clock ended t).run m).2 := by
  have same : t.Eases t ∧ R m m := ⟨.same, refl_of R m⟩
  unfold wakeThread
  by_cases hs : t.status = .waiting
  · have resumed : t.Eases t.resumed ∧ R m m := ⟨.resumed .same (.inr hs), refl_of R m⟩
    simp only [hs, ne_eq, not_true_eq_false, if_false]
    split
    · split
      · exact resumed
      · exact same
    · split
      · exact resumed
      · exact same
    · simp only [StateT.run_bind, StateT.run_get, pure_bind]
      split
      · exact same
      · exact resumed
    · split
      · exact ⟨.notified .same, hw m _ _⟩
      · exact same
    · exact same
  · simp only [ne_eq, hs, not_false_eq_true, if_true]
    exact same

/-- Waking goes through the threads from the first to the last. -/
theorem wakeDue_eq (vm : Vm) : vm.wakeDue = { vm with
    threads := ((vm.threads.toList.mapM (wakeThread vm.clock (hasEnded vm.threads))).run
      vm.machine).1.toArray
    machine := ((vm.threads.toList.mapM (wakeThread vm.clock (hasEnded vm.threads))).run
      vm.machine).2 } := by
  unfold wakeDue
  dsimp only
  rw [Array.mapM_eq_mapM_toList]
  rfl

theorem wakeDue_eased [Std.Refl R] [IsTrans Machine R] (hw : WakesWithin R) (vm : Vm) :
    Eased vm.threads vm.wakeDue.threads ∧ R vm.machine vm.wakeDue.machine := by
  have go : ∀ (l : List Thread) (m : Machine),
      List.Forall₂ Thread.Eases l
        ((l.mapM (wakeThread vm.clock (hasEnded vm.threads))).run m).1 ∧
      R m ((l.mapM (wakeThread vm.clock (hasEnded vm.threads))).run m).2 := by
    intro l
    induction l with
    | nil => exact fun m => ⟨.nil, refl_of R m⟩
    | cons t l ih =>
      intro m
      obtain ⟨h₁, h₂⟩ := wakeThread_eases hw vm.clock (hasEnded vm.threads) t m
      obtain ⟨h₃, h₄⟩ := ih _
      rw [List.mapM_cons]
      exact ⟨.cons h₁ h₃, trans_of R h₂ h₄⟩
  rw [wakeDue_eq]
  exact go vm.threads.toList vm.machine

/-- The thread that is chosen can run. -/
theorem pickFrom?_spec {ts : Array Thread} : ∀ {count start index : Nat},
    pickFrom? ts count start = some index →
      ∃ t, ts[index]? = some t ∧ t.status = .runnable
  | 0, _, _, h => by cases h
  | count + 1, start, index, h => by
    unfold pickFrom? at h
    dsimp only at h
    split at h
    · next hr =>
      cases h
      obtain ⟨t, ht, hr⟩ := (Option.any_eq_true _ _).1 hr
      exact ⟨t, ht, by simpa [Thread.isRunnable] using hr⟩
    · exact pickFrom?_spec h

/-- Choosing ends the waiting of threads, and chooses one that can run. -/
theorem choose_eased [Std.Refl R] [IsTrans Machine R] (hw : WakesWithin R) (vm : Vm) :
    Eased vm.threads vm.choose.2.threads ∧ R vm.machine vm.choose.2.machine := by
  obtain ⟨h₁, h₂⟩ := wakeDue_eased hw vm
  unfold choose
  dsimp only
  split
  · exact ⟨h₁, h₂⟩
  · split
    · exact ⟨h₁, h₂⟩
    · next deadline _ =>
      obtain ⟨h₃, h₄⟩ := wakeDue_eased hw
        { vm.wakeDue with clock := max vm.wakeDue.clock deadline }
      exact ⟨h₁.trans h₃, trans_of R h₂ h₄⟩

theorem choose_runnable (vm : Vm) {index : Nat} (h : vm.choose.1 = some index) :
    ∃ t, vm.choose.2.threads[index]? = some t ∧ t.status = .runnable := by
  unfold choose at h ⊢
  cases hp : vm.wakeDue.pick? with
  | some i =>
    simp only [hp] at h ⊢
    cases h
    exact pickFrom?_spec hp
  | none =>
    cases hd : vm.wakeDue.earliestDeadline? with
    | none => simp only [hp, hd] at h; cases h
    | some deadline =>
      simp only [hp, hd] at h ⊢
      exact pickFrom?_spec h

/-- The thread that has the next turn, and the machine it finds. -/
def next? (vm : Vm) : Option (Thread × Machine) :=
  if vm.exitStatus.isSome then none
  else
    match vm.choose with
    | (some index, vm) => vm.threads[index]?.map (·, vm.machine)
    | (none, _) => none

/-- A turn does nothing, or it ends the waiting of threads, and then a thread that can run may make
    a step. -/
theorem turn_cases (host : Host) (vm : Vm) :
    (vm.next? = none ∧ ((vm.turn host).2 = vm ∨ (vm.turn host).2 = vm.choose.2)) ∨
      ∃ index t, vm.next? = some (t, vm.choose.2.machine) ∧
        vm.choose.2.threads[index]? = some t ∧ t.status = .runnable ∧
        (vm.turn host).2 = vm.choose.2.runThread host index := by
  cases hx : vm.exitStatus with
  | some status => exact .inl ⟨by simp [next?, hx], .inl (by simp [turn, hx])⟩
  | none =>
    rcases hc : vm.choose with ⟨_ | index, vm'⟩
    · exact .inl ⟨by simp [next?, hx, hc], .inr (by simp [turn, hx, hc])⟩
    · obtain ⟨t, ht, hr⟩ := choose_runnable vm (congrArg Prod.fst hc)
      rw [hc] at ht
      exact .inr ⟨index, t, by simp [next?, hx, hc, ht], ht, hr, by simp [turn, hx, hc]⟩

/-- The thread that has the next turn is one of the threads. -/
theorem mem_of_next? {t : Thread} {m : Machine} (h : vm.next? = some (t, m)) :
    t ∈ vm.choose.2.threads ∧ m = vm.choose.2.machine := by
  rcases turn_cases .idle vm with ⟨hnone, -⟩ | ⟨index, u, hu, ht, -, -⟩
  · cases hnone.symm.trans h
  · obtain ⟨rfl, rfl⟩ := Prod.mk.inj (Option.some.inj (hu.symm.trans h))
    exact ⟨Array.mem_of_getElem? ht, rfl⟩

/-! ## After a step -/

theorem blockerFor?_isFor {s : Suspend} {b : Blocker} (h : vm.blockerFor? s = some b) :
    Blocker.IsFor s b := by
  cases s with
  | wait r count millis => cases h; exact ⟨_, rfl⟩
  | join t =>
    unfold blockerFor? at h
    dsimp only at h
    split at h
    · exact (Option.some.inj h).symm
    · cases h
  | sleep millis => cases h; exact ⟨_, rfl⟩
  | yield => cases h

/-- The thread at a place pauses as it asked for, or nothing happens. -/
def Paused (index : Nat) (suspend : Option Suspend) (ts us : Array Thread) : Prop :=
  us = ts ∨ ∃ s b, suspend = some s ∧ Blocker.IsFor s b ∧ us = ts.modify index (·.suspended b)

/-- After a step threads are woken, the thread pauses, and new threads come after the others. -/
theorem settle_spec (vm : Vm) (index : Nat) (q : Requests) :
    (vm.settle index q).machine = vm.machine ∧ ∃ ts us, Eased vm.threads ts ∧
      Paused index q.suspend ts us ∧ (vm.settle index q).threads = us ++ q.spawned.toArray := by
  have eased := (Eased.foldl Thread.Eases.promoted q.woken vm.threads).trans
    (Eased.foldl (fun t => .notified .same) q.notified _)
  unfold settle
  cases hs : q.suspend with
  | none => exact ⟨rfl, _, _, eased, .inl rfl, rfl⟩
  | some s =>
    dsimp only
    unfold pause
    split
    · next b hb =>
      exact ⟨rfl, _, _, eased, .inr ⟨s, b, rfl, blockerFor?_isFor hb, rfl⟩, rfl⟩
    · exact ⟨rfl, _, _, eased, .inl rfl, rfl⟩

theorem record_spec (vm : Vm) (index : Nat) :
    (vm.record index).threads = vm.threads ∧ (vm.record index).machine = vm.machine := by
  unfold record
  split
  · split
    · exact ⟨rfl, rfl⟩
    · split <;> exact ⟨rfl, rfl⟩
  · exact ⟨rfl, rfl⟩

/-- The turn of a thread: its step, and what the step asked for. -/
theorem runThread_spec (host : Host) {index : Nat} {t : Thread} (h : vm.threads[index]? = some t) :
    (vm.runThread host index).machine =
        { ((t.step host).run vm.machine).2 with requests := {} } ∧
      ∃ ts us, Eased (vm.threads.setIfInBounds index ((t.step host).run vm.machine).1) ts ∧
        Paused index ((t.step host).run vm.machine).2.requests.suspend ts us ∧
        (vm.runThread host index).threads =
          us ++ ((t.step host).run vm.machine).2.requests.spawned.toArray := by
  have hstep : (stepAt host index vm.threads).run vm.machine =
      (vm.threads.setIfInBounds index ((t.step host).run vm.machine).1,
        ((t.step host).run vm.machine).2) := by
    have htake : takeAt vm.threads index = (some t, vm.threads.setIfInBounds index default) := by
      simp only [takeAt, h]
    unfold stepAt
    simp only [htake, Array.setIfInBounds_setIfInBounds]
    rfl
  obtain ⟨ht, hm⟩ := record_spec { vm with turns := vm.turns + 1, clock := vm.clock + 1 } index
  dsimp only at ht hm
  unfold runThread
  dsimp only
  rw [ht, hm, hstep]
  dsimp only
  exact settle_spec _ index _

/-- Where each thread comes from that is there after a turn: it had no turn, or it had, or it is
    new. -/
theorem runThread_get? (host : Host) {i j : Nat} {t u : Thread} (h : vm.threads[i]? = some t)
    (hu : (vm.runThread host i).threads[j]? = some u) :
    (j ≠ i ∧ ∃ v, vm.threads[j]? = some v ∧ v.Eases u) ∨
      (j = i ∧ ∃ v, ((t.step host).run vm.machine).1.Eases v ∧ (u = v ∨ ∃ s b,
        ((t.step host).run vm.machine).2.requests.suspend = some s ∧ Blocker.IsFor s b ∧
          u = v.suspended b)) ∨
      u ∈ ((t.step host).run vm.machine).2.requests.spawned := by
  obtain ⟨-, ts, us, he, hp, hthreads⟩ := runThread_spec host h
  have hi : i < vm.threads.size := (Array.getElem?_eq_some_iff.1 h).1
  generalize (t.step host).run vm.machine = s at *
  have eased {v : Thread} (hv : ts[j]? = some v) :
      (j ≠ i ∧ ∃ w, vm.threads[j]? = some w ∧ w.Eases v) ∨ (j = i ∧ s.1.Eases v) := by
    obtain ⟨w, hw, hwv⟩ := he.get? hv
    rw [Array.getElem?_setIfInBounds] at hw
    split at hw
    · next e =>
      cases hw
      exact .inr ⟨e.symm, hwv⟩
    · next e => exact .inl ⟨fun e' => e e'.symm, w, hw, hwv⟩
  rw [hthreads, Array.getElem?_append] at hu
  split at hu
  · rcases hp with rfl | ⟨p, b, hs, hb, rfl⟩
    · rcases eased hu with h | ⟨e, h⟩
      · exact .inl h
      · exact .inr (.inl ⟨e, u, h, .inl rfl⟩)
    · rw [Array.getElem?_modify] at hu
      split at hu
      · next e =>
        obtain ⟨v, hv, rfl⟩ := Option.map_eq_some_iff.1 hu
        rcases eased hv with ⟨hj, -⟩ | ⟨-, h⟩
        · exact absurd e.symm hj
        · exact .inr (.inl ⟨e.symm, v, h, .inr ⟨p, b, hs, hb, rfl⟩⟩)
      · next e =>
        rcases eased hu with h | ⟨e', -⟩
        · exact .inl h
        · exact absurd e'.symm e
  · refine .inr (.inr ?_)
    obtain ⟨-, rfl⟩ := Array.getElem?_eq_some_iff.1 hu
    exact List.mem_toArray.1 (Array.getElem_mem _)

/-- What becomes of each thread in a turn: it had no turn, or it had. -/
theorem runThread_get?_of_get? (host : Host) {i j : Nat} {t v : Thread}
    (h : vm.threads[i]? = some t) (hv : vm.threads[j]? = some v) :
    ∃ u, (vm.runThread host i).threads[j]? = some u ∧ ((j ≠ i ∧ v.Eases u) ∨
      (j = i ∧ ∃ w, ((t.step host).run vm.machine).1.Eases w ∧ (u = w ∨ ∃ s b,
        ((t.step host).run vm.machine).2.requests.suspend = some s ∧ Blocker.IsFor s b ∧
          u = w.suspended b))) := by
  obtain ⟨-, ts, us, he, hp, hthreads⟩ := runThread_spec host h
  have hi : i < vm.threads.size := (Array.getElem?_eq_some_iff.1 h).1
  generalize (t.step host).run vm.machine = s at *
  have kept {u : Thread} (hu : us[j]? = some u) : (vm.runThread host i).threads[j]? = some u := by
    rw [hthreads, Array.getElem?_append_left (Array.getElem?_eq_some_iff.1 hu).1]
    exact hu
  -- the thread just after the step, and after threads were woken
  have woken : ∃ w, ts[j]? = some w ∧ ((j ≠ i ∧ v.Eases w) ∨ (j = i ∧ s.1.Eases w)) := by
    by_cases e : j = i
    · subst e
      obtain ⟨w, hw, hsw⟩ := he.get?_of_get?
        (Array.getElem?_setIfInBounds_self_of_lt hi : _ = some s.1)
      exact ⟨w, hw, .inr ⟨rfl, hsw⟩⟩
    · obtain ⟨w, hw, hvw⟩ := he.get?_of_get?
        ((Array.getElem?_setIfInBounds_ne (Ne.symm e)).trans hv)
      exact ⟨w, hw, .inl ⟨e, hvw⟩⟩
  obtain ⟨w, hw, hcase⟩ := woken
  rcases hp with rfl | ⟨p, b, hs, hb, rfl⟩
  · refine ⟨w, kept hw, hcase.imp id ?_⟩
    rintro ⟨e, hsw⟩
    exact ⟨e, w, hsw, .inl rfl⟩
  · rcases hcase with ⟨e, hvw⟩ | ⟨rfl, hsw⟩
    · refine ⟨w, kept ?_, .inl ⟨e, hvw⟩⟩
      rw [Array.getElem?_modify, if_neg (Ne.symm e)]
      exact hw
    · refine ⟨w.suspended b, kept ?_, .inr ⟨rfl, w, hsw, .inr ⟨p, b, hs, hb, rfl⟩⟩⟩
      rw [Array.getElem?_modify, if_pos rfl, hw]
      rfl

/-- The ids of new threads come after the others. -/
theorem runThread_ids (host : Host) {i : Nat} {t : Thread} (h : vm.threads[i]? = some t) :
    (vm.runThread host i).ids =
      vm.ids ++ ((t.step host).run vm.machine).2.requests.spawned.map Thread.id := by
  obtain ⟨-, ts, us, he, hp, hthreads⟩ := runThread_spec host h
  have hus : us.toList.map Thread.id = ts.toList.map Thread.id := by
    rcases hp with rfl | ⟨s, b, -, -, rfl⟩
    · rfl
    · refine List.ext_getElem? fun k => ?_
      simp only [List.getElem?_map, Array.getElem?_toList, Array.getElem?_modify]
      split
      · cases ts[k]? with
        | none => rfl
        | some v => exact congrArg some (Thread.suspended_id v b).1
      · rfl
  have hset : (vm.threads.setIfInBounds i ((t.step host).run vm.machine).1).toList.map Thread.id =
      vm.threads.toList.map Thread.id := by
    refine List.ext_getElem? fun k => ?_
    simp only [List.getElem?_map, Array.getElem?_toList, Array.getElem?_setIfInBounds]
    split
    · next e =>
      subst e
      rw [h]
      split
      · exact congrArg some (t.step_id host vm.machine)
      · next hs => exact absurd (Array.getElem?_eq_some_iff.1 h).1 hs
    · rfl
  rw [ids, hthreads, Array.toList_append, List.map_append, hus, he.ids_eq, hset]
  rfl

/-! ## Starting threads -/

theorem withMachine_eq {α : Type} (vm : Vm) (x : Exec α) :
    vm.withMachine x = ((outcome x vm.machine).1, { vm with machine := (outcome x vm.machine).2 }) :=
  rfl

/-- Starting a thread: what the machine does for it, and the thread, if that went well. -/
theorem spawn_cases (vm : Vm) (className methodName descriptor : String) (args : List Value) :
    (vm.spawn className methodName descriptor args).2.machine =
        (outcome (prepareThread className methodName descriptor args) vm.machine).2 ∧
      ((∃ e, (outcome (prepareThread className methodName descriptor args) vm.machine).1 = .error e ∧
          (vm.spawn className methodName descriptor args).2.threads = vm.threads) ∨
        ∃ t, (outcome (prepareThread className methodName descriptor args) vm.machine).1 = .ok t ∧
          (vm.spawn className methodName descriptor args).2.threads = vm.threads.push t) := by
  unfold spawn
  rw [withMachine_eq]
  rcases outcome (prepareThread className methodName descriptor args) vm.machine with ⟨e | t, m⟩
  · exact ⟨rfl, .inl ⟨e, rfl, rfl⟩⟩
  · exact ⟨rfl, .inr ⟨t, rfl, rfl⟩⟩

/-- The thread that is made ready has the next id, and an object that stands for it. -/
theorem prepareThread_ok {className methodName descriptor : String} {args : List Value}
    {t : Thread} {m m' : Machine}
    (h : outcome (prepareThread className methodName descriptor args) m = (.ok t, m')) :
    ∃ c r o m₁, outcome (Exec.loadClass className) m = (.ok c, m₁) ∧
      c.findMethod? methodName descriptor = some r ∧ r.method.isStatic = true ∧
      t = .starting ⟨m₁.nextThread⟩ (rootThreadName ⟨m₁.nextThread⟩) r args ∧
      outcome (Exec.newThreadObject t.id t.name) { m₁ with nextThread := m₁.nextThread + 1 } =
        (.ok o, m') := by
  obtain ⟨c, m₁, hc, h⟩ := outcome_bind_eq_ok h
  split at h
  · next r hr =>
    dsimp only at h
    split at h
    · obtain ⟨_, _, h, -⟩ := outcome_bind_eq_ok h
      cases (outcome_throw _ _).symm.trans h
    next hs =>
      split at h
      · obtain ⟨_, _, h, -⟩ := outcome_bind_eq_ok h
        cases (outcome_throw _ _).symm.trans h
      · have hid : outcome Exec.issueThreadId m₁ =
            (.ok ⟨m₁.nextThread⟩, { m₁ with nextThread := m₁.nextThread + 1 }) := rfl
        rw [outcome_bind_ok hid] at h
        obtain ⟨_, m₂, ho, h⟩ := outcome_bind_eq_ok h
        cases (outcome_pure _ _).symm.trans h
        rw [outcome_discard] at ho
        obtain ⟨ho₁, rfl⟩ := Prod.mk.inj ho
        obtain ⟨o, ho, -⟩ := except_map_eq_ok.1 ho₁
        exact ⟨c, r, o, m₁, hc, hr, by simpa using hs, rfl, Prod.ext ho rfl⟩
  · cases (outcome_throw _ _).symm.trans h

/-- Making a thread ready is loading its class, and making an object for it. -/
theorem prepareThread_within_of [Calm R] {className methodName descriptor : String}
    {args : List Value} (hi : Within R Exec.issueThreadId)
    (ho : ∀ {t : ThreadId} {name : String}, Within R (Exec.newThreadObject t name)) :
    Within R (prepareThread className methodName descriptor args) := by
  have ready (r : MethodRef) : Within R (do
      let id ← Exec.issueThreadId
      let name := rootThreadName id
      discard <| Exec.newThreadObject id name
      return .starting id name r args : Exec Thread) :=
    .bind hi fun _ => .bind (.discard ho) fun _ => .pure _
  refine .bind Exec.loadClass_within fun c => ?_
  split
  · dsimp only
    split
    · refine .bind (.throw _) fun _ => ?_
      split
      · exact .bind (.throw _) fun _ => ready _
      · exact ready _
    · split
      · exact .bind (.throw _) fun _ => ready _
      · exact ready _
  · exact .throw _

theorem argumentArray_within [Calm R] {args : List String} : Within R (argumentArray args) := by
  refine (Exec.newArray_within (by decide)).bind_of fun _ array m h => ?_
  have stored : R m (outcome (args.zipIdx.forM fun p => do
      let s ← Exec.newString p.1
      Exec.arrayStore array (Int32.ofNat p.2) (.ofRef s)) m).2 :=
    Exec.storeAll_within (fun _ => Exec.newString_within) (fun _ => Exec.newString_within)
      (fun _ _ _ _ => Exec.newString_isOf)
      (fun _ _ hc => hc.element_named (t := .object ClassName.string) (by decide +kernel) rfl)
      (Exec.newArray_isOf h)
  exact Within.bind_at stored fun _ m' _ => Within.pure _ m'

/-- Starting a program is making its arguments, and then starting a thread. -/
theorem startMain_cases (vm : Vm) (mainClass : String) (args : List String) :
    ∃ vm' : Vm, vm' = { vm with machine := (outcome (argumentArray args) vm.machine).2 } ∧
      ((vm.startMain mainClass args).2 = vm' ∨ ∃ array, (vm.startMain mainClass args).2 =
        (vm'.spawn mainClass "main" "([Ljava/lang/String;)V" [.ofRef array]).2) := by
  refine ⟨_, rfl, ?_⟩
  unfold startMain
  rw [withMachine_eq]
  rcases outcome (argumentArray args) vm.machine with ⟨e | array, m⟩
  · exact .inl rfl
  · exact .inr ⟨array, rfl⟩

/-- An action other than a turn leaves the scheduler alone and adds at most threads that start at a
    static method. -/
theorem act_appends (host : Host) (vm : Vm) {a : Action} (ha : a ≠ .turn) :
    ∃ machine new, vm.act host a = { vm with machine, threads := vm.threads ++ new } ∧
      ∀ t ∈ new, ∃ id name r args, t = .starting id name r args ∧ r.method.isStatic = true := by
  have spawn (vm : Vm) (className methodName descriptor : String) (args : List Value) :
      ∃ machine new, (vm.spawn className methodName descriptor args).2 =
          { vm with machine, threads := vm.threads ++ new } ∧
        ∀ t ∈ new, ∃ id name r args, t = .starting id name r args ∧ r.method.isStatic = true := by
    unfold Vm.spawn
    rw [withMachine_eq]
    rcases hx : outcome (prepareThread className methodName descriptor args) vm.machine with
      ⟨e | t, m⟩
    · exact ⟨m, #[], by simp, by simp⟩
    · refine ⟨m, #[t], by simp, fun u hu => ?_⟩
      obtain ⟨c, r, o, m₁, -, -, hs, ht, -⟩ := prepareThread_ok hx
      rw [List.mem_singleton.1 (Array.mem_def.1 hu), ht]
      exact ⟨_, _, _, _, rfl, hs⟩
  cases a with
  | turn => exact absurd rfl ha
  | spawn className methodName descriptor args => exact spawn vm _ _ _ _
  | startMain mainClass args =>
    obtain ⟨vm', hvm, e | ⟨array, e⟩⟩ := startMain_cases vm mainClass args
    · refine ⟨vm'.machine, #[], e.trans ?_, by simp⟩
      rw [hvm, Array.append_empty]
    · obtain ⟨m, new, h, hnew⟩ := spawn vm' mainClass "main" "([Ljava/lang/String;)V" [.ofRef array]
      refine ⟨m, new, (e.trans h).trans ?_, hnew⟩
      rw [hvm]
  | register => exact ⟨_, #[], by rw [Array.append_empty]; rfl, by simp⟩

/-- Between turns the machine makes threads ready and arguments for them, and natives of the embedder
    are registered. -/
theorem act_within [Calm R] (hi : Within R Exec.issueThreadId)
    (ho : ∀ {t : ThreadId} {name : String}, Within R (Exec.newThreadObject t name))
    (hn : ∀ (m : Machine) (className methodName descriptor function : String), R m { m with
      natives := m.natives.register className methodName descriptor (.host function) })
    {a : Action} (ha : a ≠ .turn) : R vm.machine (vm.act host a).machine := by
  have spawn (vm : Vm) (className methodName descriptor : String) (args : List Value) :
      R vm.machine (vm.spawn className methodName descriptor args).2.machine := by
    rw [(spawn_cases vm className methodName descriptor args).1]
    exact prepareThread_within_of hi ho vm.machine
  cases a with
  | turn => exact absurd rfl ha
  | spawn className methodName descriptor args => exact spawn vm _ _ _ _
  | startMain mainClass args =>
    obtain ⟨vm', hvm, e⟩ := startMain_cases vm mainClass args
    have hl : R vm.machine vm'.machine := by
      rw [hvm]
      exact argumentArray_within vm.machine
    show R vm.machine (vm.startMain mainClass args).2.machine
    rcases e with e | ⟨array, e⟩ <;> rw [e]
    · exact hl
    · exact trans_of R hl (spawn vm' _ _ _ _)
  | register => exact hn _ _ _ _ _

/-- Every action stays within a relation that lets natives be registered and requests be dropped, if
    the instruction does that is executed in a turn. -/
theorem act_lively [Quiet R] [Lively R] [Initializes R]
    (hs : ∀ id, StepsWithin R host id)
    (hn : ∀ (m : Machine) (className methodName descriptor function : String), R m { m with
      natives := m.natives.register className methodName descriptor (.host function) })
    (hr : ∀ m : Machine, R m { m with requests := {} }) {a : Action}
    (hx : a = .turn → ∀ t m, vm.next? = some (t, m) → t.ExecutesWithin R host m) :
    R vm.machine (vm.act host a).machine := by
  by_cases ha : a = .turn
  · subst ha
    have chosen : R vm.machine vm.choose.2.machine :=
      (choose_eased (fun m r _ => Lively.change m r _ fun _ _ => ⟨rfl, rfl, rfl, rfl⟩) vm).2
    show R vm.machine (vm.turn host).2.machine
    rcases turn_cases host vm with ⟨-, e | e⟩ | ⟨index, t, hnext, ht, -, e⟩
    · rw [e]
      exact refl_of R _
    · rw [e]
      exact chosen
    · rw [e, (runThread_spec host ht).1]
      have stepped := (t.step_executes (hs t.id) (hx rfl t _ hnext)).2
      exact trans_of R (trans_of R chosen stepped) (hr _)
  · exact act_within Exec.issueThreadId_within Exec.newThreadObject_within hn ha

/-! ## Locks -/

theorem wakesWithin_leavesLocks : WakesWithin LeavesLocks :=
  fun _ _ _ => .updateMonitor fun _ => ⟨rfl, rfl⟩

theorem prepareThread_leavesLocks {className methodName descriptor : String} {args : List Value} :
    Within LeavesLocks (prepareThread className methodName descriptor args) :=
  prepareThread_within_of Exec.issueThreadId_threaded Exec.newThreadObject_threaded

/-- Only turns change who holds a monitor. -/
theorem act_leavesLocks {a : Action} (ha : a ≠ .turn) :
    LeavesLocks vm.machine (vm.act host a).machine :=
  act_within Exec.issueThreadId_threaded Exec.newThreadObject_threaded
    (fun _ _ _ _ _ => .of_same (fun _ => rfl) rfl) ha

theorem monitorAt_boot (config : Config) (classPath : Table String ClassFile) (wallClock : Nat)
    (r : Ref) : (Vm.boot config classPath wallClock).machine.monitorAt r = {} := by
  simp [Vm.boot, Machine.boot, Machine.monitorAt, Heap.get?]

/-! ## Ids -/

/-- Threads with different ids are in different places. -/
theorem index_eq {i j : Nat} {t u : Thread} (hd : vm.ids.Nodup) (ht : vm.threads[i]? = some t)
    (hu : vm.threads[j]? = some u) (h : t.id = u.id) : i = j := by
  have get {k : Nat} {v : Thread} (hv : vm.threads[k]? = some v) : vm.ids[k]? = some v.id := by
    rw [ids, List.getElem?_map, Array.getElem?_toList, hv]
    rfl
  have hi : i < vm.ids.length := (List.getElem?_eq_some_iff.1 (get ht)).1
  exact (List.getElem?_inj hi hd).1 ((get ht).trans (h ▸ (get hu).symm))

theorem wakesWithin_anything : WakesWithin Anything := fun _ _ _ => trivial

theorem choose_ids (vm : Vm) : vm.choose.2.ids = vm.ids :=
  (choose_eased wakesWithin_anything vm).1.ids_eq

theorem spawn_ids (vm : Vm) (className methodName descriptor : String) (args : List Value) :
    vm.ids <+: (vm.spawn className methodName descriptor args).2.ids := by
  obtain ⟨-, h⟩ := spawn_cases vm className methodName descriptor args
  unfold ids
  rcases h with ⟨-, -, h⟩ | ⟨t, -, h⟩
  · exact h.symm ▸ List.prefix_rfl
  · rw [h, Array.toList_push, List.map_append]
    exact List.prefix_append _ _

/-- No thread is ever forgotten. -/
theorem act_ids (host : Host) (vm : Vm) (a : Action) : vm.ids <+: (vm.act host a).ids := by
  cases a with
  | turn =>
    show vm.ids <+: (vm.turn host).2.ids
    rcases turn_cases host vm with ⟨-, e | e⟩ | ⟨index, t, -, ht, -, e⟩
    · exact e.symm ▸ List.prefix_rfl
    · exact (congrArg Vm.ids e).trans (choose_ids vm) ▸ List.prefix_rfl
    · rw [e, runThread_ids host ht, choose_ids]
      exact List.prefix_append _ _
  | spawn className methodName descriptor args => exact spawn_ids vm _ _ _ _
  | startMain mainClass args =>
    obtain ⟨vm', hvm, e⟩ := startMain_cases vm mainClass args
    have hids : vm'.ids = vm.ids := by rw [hvm]; rfl
    show vm.ids <+: (vm.startMain mainClass args).2.ids
    rcases e with e | ⟨array, e⟩
    · exact (congrArg Vm.ids e).trans hids ▸ List.prefix_rfl
    · rw [e, ← hids]
      exact spawn_ids vm' _ _ _ _
  | register => exact List.prefix_rfl

theorem after_ids (host : Host) (vm : Vm) (as : List Action) :
    vm.ids <+: (vm.after host as).ids := by
  induction as generalizing vm with
  | nil => exact List.prefix_rfl
  | cons a as ih => exact (act_ids host vm a).trans (ih _)

end Vm

/-! ## A program -/

/-- A class `A` with a synchronized static method `f` that needs no local variables, and a `main`
    that calls it after some instructions. -/
def callerOf (descriptor : String) (before : List Instruction) : ClassFile :=
  { ClassFile.ofClass "A" with
    pool := [.method ⟨"A", "f", descriptor⟩]
    methods := [
      { flags := .ofList [.staticMember, .synchronized], name := "f", descriptor
        code := some (.ofList 1 0 [.leave none]) },
      { flags := .ofList [.staticMember], name := "main", descriptor := "()V"
        code := some (.ofList 1 0 (before ++ [.invokeStatic 1, .leave none])) }] }

/-- A virtual machine that has this class, and has run nothing yet. -/
def Vm.ofCaller (descriptor : String) (before : List Instruction) : Vm :=
  .boot {} (.ofList [("A", callerOf descriptor before)]) 0

end GreenVm
