/-
  What the turn of a thread does to each thread, when all threads have different ids.

  * `Requests.wakes`: what a step asked to be done to a thread, by its id.
  * `Vm.runThread_settles`: each other thread is treated just so, and the thread that had its turn
    pauses besides, if it asked for that.
-/
import GreenVm.Proofs.Runs

namespace GreenVm

/-! ## Threads by id -/

/-- Changing the thread with an id changes no other. -/
theorem updateThread_get? {ts : Array Thread} (hd : (ts.toList.map Thread.id).Nodup) (id : ThreadId)
    (f : Thread → Thread) (j : Nat) :
    (updateThread id f ts)[j]? = ts[j]?.map fun t => if t.id = id then f t else t := by
  unfold updateThread
  split
  · next index h =>
    obtain ⟨hi, hid, -⟩ := Array.findIdx?_eq_some_iff_getElem.1 h
    replace hid : ts[index].id = id := of_decide_eq_true hid
    rw [Array.getElem?_modify]
    split
    · next e =>
      subst e
      rw [Array.getElem?_eq_getElem hi, Option.map_some, Option.map_some, if_pos hid]
    · next e =>
      cases ht : ts[j]? with
      | none => rfl
      | some t =>
        rw [Option.map_some, if_neg]
        intro hid'
        have get {k : Nat} {u : Thread} (hu : ts[k]? = some u) :
            (ts.toList.map Thread.id)[k]? = some u.id := by
          rw [List.getElem?_map, Array.getElem?_toList, hu]
          rfl
        have hfirst := get (Array.getElem?_eq_getElem hi)
        refine e ((List.getElem?_inj (List.getElem?_eq_some_iff.1 hfirst).1 hd).1 ?_)
        rw [hfirst, get ht, hid, hid']
  · next h =>
    have hne := Array.findIdx?_eq_none_iff.1 h
    cases ht : ts[j]? with
    | none => rfl
    | some t =>
      rw [Option.map_some, if_neg fun hid => ?_]
      have := hne t (Array.mem_of_getElem? ht)
      simp [hid] at this

/-- Changing the threads with some ids, one after another. -/
theorem foldl_updateThread_get? {f : Thread → Thread} (he : ∀ t : Thread, t.Eases (f t))
    (hf : ∀ t, f (f t) = f t) (is : List ThreadId) {ts : Array Thread}
    (hd : (ts.toList.map Thread.id).Nodup) (j : Nat) :
    (is.foldl (fun ts id => updateThread id f ts) ts)[j]? =
      ts[j]?.map fun t => if t.id ∈ is then f t else t := by
  induction is generalizing ts with
  | nil => cases ht : ts[j]? <;> simp [ht]
  | cons i is ih =>
    have heased : Eased ts (updateThread i f ts) := .updateThread he i
    have hids := heased.ids_eq
    rw [List.foldl_cons, ih (hids ▸ hd), updateThread_get? hd, Option.map_map]
    refine congrArg (fun g => ts[j]?.map g) (funext fun t => ?_)
    rw [Function.comp_apply]
    by_cases hi : t.id = i
    · rw [if_pos hi, (he t).id_eq, if_pos (List.mem_cons.2 (.inl hi)), hf, ite_self]
    · rw [if_neg hi]
      simp only [List.mem_cons, hi, false_or]

namespace Thread

theorem promoted_promoted (t : Thread) : t.promoted.promoted = t.promoted := by
  by_cases h : t.status = .blocked
  · have e : t.promoted = t.resumed := if_pos h
    rw [e]
    rfl
  · have e : t.promoted = t := if_neg h
    rw [e, e]

theorem notified_blocker (t : Thread) : t.notified.blocker = none := by
  unfold notified
  split <;> rfl

/-- Ending the waiting of a thread gives it nothing to wait for. -/
theorem Eases.blocker {t u : Thread} (h : t.Eases u) {b : Blocker} (hb : u.blocker = some b) :
    t.blocker = some b := by
  induction h with
  | same => exact hb
  | resumed => cases hb
  | @notified u _ _ => cases u.notified_blocker.symm.trans hb

theorem notified_of_unblocked {t : Thread} (h : t.blocker = none) : t.notified = t := by
  unfold notified
  split
  · next hb => cases h.symm.trans hb
  · cases t
    cases h
    rfl

theorem notified_notified (t : Thread) : t.notified.notified = t.notified :=
  notified_of_unblocked t.notified_blocker

end Thread

/-- What a step asked to be done to a thread: to wake it if it was promoted to successor of the
    monitor it is blocked on, and to end its waiting if it was notified. -/
def Requests.wakes (q : Requests) (t : Thread) : Thread :=
  let u := if t.id ∈ q.woken then t.promoted else t
  if t.id ∈ q.notified then u.notified else u

theorem Requests.wakes_eases (q : Requests) (t : Thread) : t.Eases (q.wakes t) := by
  have promoted : t.Eases (if t.id ∈ q.woken then t.promoted else t) := by
    split
    · exact .promoted t
    · exact .same
  unfold wakes
  dsimp only
  split
  · exact .notified promoted
  · exact promoted

/-- A thread that can run, and waits for nothing, is left alone. -/
theorem Requests.wakes_of_runnable (q : Requests) {t : Thread} (hs : t.status = .runnable)
    (hb : t.blocker = none) : q.wakes t = t := by
  have hp : t.promoted = t := if_neg (by simp [hs])
  unfold wakes
  dsimp only
  rw [hp, ite_self, Thread.notified_of_unblocked hb, ite_self]

/-- A thread that waits and is not notified is left alone, too. -/
theorem Requests.wakes_of_waiting {q : Requests} {t : Thread} (hs : t.status = .waiting)
    (hn : t.id ∉ q.notified) : q.wakes t = t := by
  have hp : t.promoted = t := if_neg (by simp [hs])
  unfold wakes
  dsimp only
  rw [hp, ite_self, if_neg hn]

theorem Requests.wakes_of_notified {q : Requests} {t : Thread} (hs : t.status = .waiting)
    (hn : t.id ∈ q.notified) : q.wakes t = t.notified := by
  have hp : t.promoted = t := if_neg (by simp [hs])
  unfold wakes
  dsimp only
  rw [hp, ite_self, if_pos hn]

/-- The threads when all of them have been treated so. -/
def Requests.wakeAll (q : Requests) (ts : Array Thread) : Array Thread :=
  q.notified.foldl (fun ts id => updateThread id Thread.notified ts)
    (q.woken.foldl (fun ts id => updateThread id Thread.promoted ts) ts)

theorem Requests.wakeAll_eased (q : Requests) (ts : Array Thread) : Eased ts (q.wakeAll ts) :=
  (Eased.foldl Thread.Eases.promoted q.woken ts).trans
    (Eased.foldl (fun _ => .notified .same) q.notified _)

theorem Requests.wakeAll_get? (q : Requests) {ts : Array Thread}
    (hd : (ts.toList.map Thread.id).Nodup) (j : Nat) :
    (q.wakeAll ts)[j]? = ts[j]?.map q.wakes := by
  have eased := Eased.foldl Thread.Eases.promoted q.woken ts
  rw [wakeAll, foldl_updateThread_get? (fun t => .notified .same) Thread.notified_notified q.notified
      (eased.ids_eq ▸ hd),
    foldl_updateThread_get? Thread.Eases.promoted Thread.promoted_promoted q.woken hd,
    Option.map_map]
  refine congrArg (fun g => ts[j]?.map g) (funext fun t => ?_)
  have hid : (if t.id ∈ q.woken then t.promoted else t).id = t.id := by
    split
    · exact (Thread.Eases.promoted t).id_eq
    · rfl
  rw [Function.comp_apply, hid]
  rfl

/-- A thread with what it waits for, if it is for anything. -/
def Thread.pausing (t : Thread) (b : Option Blocker) : Thread := b.elim t t.suspended

theorem Thread.pausing_id (t : Thread) (b : Option Blocker) :
    (t.pausing b).id = t.id ∧ (t.pausing b).frames = t.frames := by
  cases b with
  | none => exact ⟨rfl, rfl⟩
  | some b => exact t.suspended_id b

/-- What it waits for then is what it asked for, or what it waited for before. -/
theorem Thread.pausing_blocker {t : Thread} {b : Option Blocker} {b' : Blocker}
    (h : (t.pausing b).blocker = some b') : b = some b' ∨ t.blocker = some b' := by
  cases b with
  | none => exact .inr h
  | some b =>
    replace h : (t.suspended b).blocker = some b' := h
    unfold Thread.suspended at h
    split at h
    · exact .inl h
    · exact .inr h

namespace Vm

variable {vm : Vm} {host : Host}

/-- After a step the threads are treated as it asked, and the thread at the index pauses. -/
theorem settle_threads (vm : Vm) (index : Nat) (q : Requests) :
    (vm.settle index q).threads = (q.wakeAll vm.threads).modify index (fun t => t.pausing
      (q.suspend.bind ({ vm with threads := q.wakeAll vm.threads } : Vm).blockerFor?)) ++
        q.spawned.toArray := by
  have still (ts : Array Thread) : ts.modify index (fun t => t.pausing none) = ts := by
    refine Array.ext_getElem? fun j => ?_
    rw [Array.getElem?_modify]
    split
    · cases ts[j]? <;> rfl
    · rfl
  unfold settle
  cases hs : q.suspend with
  | none =>
    rw [Option.bind_none, still]
    rfl
  | some s =>
    have hpause : (({ vm with threads := q.wakeAll vm.threads } : Vm).pause index s).threads =
        (q.wakeAll vm.threads).modify index fun t => t.pausing
          (({ vm with threads := q.wakeAll vm.threads } : Vm).blockerFor? s) := by
      unfold pause
      cases ({ vm with threads := q.wakeAll vm.threads } : Vm).blockerFor? s with
      | none => exact (still _).symm
      | some b => rfl
    rw [Option.bind_some, ← hpause]
    rfl

theorem settle_clock (vm : Vm) (index : Nat) (q : Requests) : (vm.settle index q).clock = vm.clock := by
  unfold settle
  cases q.suspend with
  | none => rfl
  | some s =>
    dsimp only
    unfold pause
    split <;> rfl

theorem record_eq (vm : Vm) (index : Nat) : ∃ trace, vm.record index = { vm with trace } := by
  unfold record
  split
  · split
    · exact ⟨_, rfl⟩
    · split <;> exact ⟨_, rfl⟩
  · exact ⟨_, rfl⟩

/-- The turn of a thread is its step, and then what the step asked for. -/
theorem runThread_eq (host : Host) {i : Nat} {t : Thread} (h : vm.threads[i]? = some t) :
    ∃ trace, vm.runThread host i =
      { ({ vm with
          turns := vm.turns + 1, clock := vm.clock + 1, trace
          threads := vm.threads.setIfInBounds i ((t.step host).run vm.machine).1
          machine := { ((t.step host).run vm.machine).2 with requests := {} } } : Vm).settle i
          ((t.step host).run vm.machine).2.requests with cursor := i + 1 } := by
  have hstep : (stepAt host i vm.threads).run vm.machine =
      (vm.threads.setIfInBounds i ((t.step host).run vm.machine).1,
        ((t.step host).run vm.machine).2) := by
    have htake : takeAt vm.threads i = (some t, vm.threads.setIfInBounds i default) := by
      simp only [takeAt, h]
    unfold stepAt
    simp only [htake, Array.setIfInBounds_setIfInBounds]
    rfl
  obtain ⟨trace, e⟩ := record_eq { vm with turns := vm.turns + 1, clock := vm.clock + 1 } i
  refine ⟨trace, ?_⟩
  unfold runThread
  dsimp only
  rw [e]
  dsimp only
  rw [hstep]

/-- The threads after a turn: first all are treated as the step asked, then the one that made it may
    pause, and the new ones come after the others. -/
theorem runThread_woken (host : Host) {i : Nat} {t : Thread} (h : vm.threads[i]? = some t) :
    ∃ vm' : Vm, vm'.clock = vm.clock + 1 ∧ vm'.ids = vm.ids ∧
      vm'.threads = ((t.step host).run vm.machine).2.requests.wakeAll
        (vm.threads.setIfInBounds i ((t.step host).run vm.machine).1) ∧
      (vm.runThread host i).clock = vm'.clock ∧
      (vm.runThread host i).threads = vm'.threads.modify i (fun u => u.pausing
        (((t.step host).run vm.machine).2.requests.suspend.bind vm'.blockerFor?)) ++
          ((t.step host).run vm.machine).2.requests.spawned.toArray := by
  obtain ⟨trace, e⟩ := runThread_eq host h
  have hid := t.step_id host vm.machine
  generalize (t.step host).run vm.machine = s at e hid ⊢
  have hids : (vm.threads.setIfInBounds i s.1).toList.map Thread.id = vm.ids := by
    refine List.ext_getElem? fun k => ?_
    simp only [ids, List.getElem?_map, Array.getElem?_toList, Array.getElem?_setIfInBounds]
    split
    · next e =>
      subst e
      rw [h]
      split
      · exact congrArg some hid
      · next hi => exact absurd (Array.getElem?_eq_some_iff.1 h).1 hi
    · rfl
  have heased := s.2.requests.wakeAll_eased (vm.threads.setIfInBounds i s.1)
  refine ⟨{ vm with
    turns := vm.turns + 1, clock := vm.clock + 1, trace
    threads := s.2.requests.wakeAll (vm.threads.setIfInBounds i s.1)
    machine := { s.2 with requests := {} } }, rfl, heased.ids_eq.trans hids, rfl, ?_, ?_⟩
  · rw [e]
    exact settle_clock _ i s.2.requests
  · rw [e]
    exact settle_threads _ i s.2.requests

/-- Where each thread comes from that is there after a turn, and for how long it pauses if it does. -/
theorem runThread_paused (host : Host) {i : Nat} {t : Thread} (h : vm.threads[i]? = some t) :
    ∃ vm' : Vm, vm'.clock = vm.clock + 1 ∧ vm'.ids = vm.ids ∧
      ∀ {j : Nat} {u : Thread}, (vm.runThread host i).threads[j]? = some u →
        (j ≠ i ∧ ∃ v, vm.threads[j]? = some v ∧ v.Eases u) ∨
          (j = i ∧ ∃ w, ((t.step host).run vm.machine).1.Eases w ∧ u = w.pausing
            (((t.step host).run vm.machine).2.requests.suspend.bind vm'.blockerFor?)) ∨
          u ∈ ((t.step host).run vm.machine).2.requests.spawned := by
  obtain ⟨vm', hclock, hids, hwoken, -, hthreads⟩ := runThread_woken host h
  generalize (t.step host).run vm.machine = s at hwoken hthreads ⊢
  have heased := s.2.requests.wakeAll_eased (vm.threads.setIfInBounds i s.1)
  rw [← hwoken] at heased
  refine ⟨vm', hclock, hids, fun {j u} hu => ?_⟩
  rw [hthreads, Array.getElem?_append] at hu
  split at hu
  · rw [Array.getElem?_modify] at hu
    split at hu
    · next e =>
      subst e
      obtain ⟨w, hw, rfl⟩ := Option.map_eq_some_iff.1 hu
      obtain ⟨v, hv, hvw⟩ := heased.get? hw
      rw [Array.getElem?_setIfInBounds_self_of_lt (Array.getElem?_eq_some_iff.1 h).1] at hv
      cases hv
      exact .inr (.inl ⟨rfl, w, hvw, rfl⟩)
    · next e =>
      obtain ⟨v, hv, hvu⟩ := heased.get? hu
      rw [Array.getElem?_setIfInBounds_ne e] at hv
      exact .inl ⟨Ne.symm e, v, hv, hvu⟩
  · refine .inr (.inr ?_)
    rw [List.getElem?_toArray] at hu
    exact List.mem_of_getElem? hu

/-- How each thread was treated that was there, if all have different ids. -/
theorem runThread_threads (host : Host) (hd : vm.ids.Nodup) {i : Nat} {t : Thread}
    (h : vm.threads[i]? = some t) :
    ∃ vm' : Vm, vm'.clock = vm.clock + 1 ∧ vm'.ids = vm.ids ∧
      ∀ j, (vm.runThread host i).threads[j]? =
        if j < vm.threads.size then vm.threads[j]?.map fun v =>
          if j = i then (((t.step host).run vm.machine).2.requests.wakes
              ((t.step host).run vm.machine).1).pausing
            (((t.step host).run vm.machine).2.requests.suspend.bind vm'.blockerFor?)
          else ((t.step host).run vm.machine).2.requests.wakes v
        else ((t.step host).run vm.machine).2.requests.spawned[j - vm.threads.size]? := by
  have hi : i < vm.threads.size := (Array.getElem?_eq_some_iff.1 h).1
  obtain ⟨vm', hclock, hids, hwoken, -, hthreads⟩ := runThread_woken host h
  generalize (t.step host).run vm.machine = s at hwoken hthreads ⊢
  have heased := s.2.requests.wakeAll_eased (vm.threads.setIfInBounds i s.1)
  have hids' : (vm.threads.setIfInBounds i s.1).toList.map Thread.id = vm.ids := by
    rw [← heased.ids_eq, ← hwoken]
    exact hids
  have hget := s.2.requests.wakeAll_get? (hids' ▸ hd)
  have hsize : vm'.threads.size = vm.threads.size := by
    have := congrArg List.length hids
    simpa [ids] using this
  refine ⟨vm', hclock, hids, fun j => ?_⟩
  rw [hthreads, Array.getElem?_append, Array.size_modify, hsize]
  split
  · rw [Array.getElem?_modify, hwoken, hget, Array.getElem?_setIfInBounds]
    by_cases hij : i = j
    · subst hij
      simp only [if_pos, hi, h, Option.map_some]
    · simp only [if_neg hij, if_neg (Ne.symm hij)]
  · exact List.getElem?_toArray

/-- Where each thread comes from that is there after a turn, and how it was treated. -/
theorem runThread_settles (host : Host) (hd : vm.ids.Nodup) {i : Nat} {t : Thread}
    (h : vm.threads[i]? = some t) :
    ∃ vm' : Vm, vm'.clock = vm.clock + 1 ∧ vm'.ids = vm.ids ∧
      ∀ {j : Nat} {u : Thread}, (vm.runThread host i).threads[j]? = some u →
        (j ≠ i ∧ ∃ v, vm.threads[j]? = some v ∧
            u = ((t.step host).run vm.machine).2.requests.wakes v) ∨
          (j = i ∧ u = (((t.step host).run vm.machine).2.requests.wakes
              ((t.step host).run vm.machine).1).pausing
            (((t.step host).run vm.machine).2.requests.suspend.bind vm'.blockerFor?)) ∨
          u ∈ ((t.step host).run vm.machine).2.requests.spawned := by
  obtain ⟨vm', hclock, hids, hget⟩ := runThread_threads host hd h
  refine ⟨vm', hclock, hids, fun {j u} hu => ?_⟩
  rw [hget] at hu
  split at hu
  · obtain ⟨v, hv, rfl⟩ := Option.map_eq_some_iff.1 hu
    split
    · next e => exact .inr (.inl ⟨e, rfl⟩)
    · next e => exact .inl ⟨e, v, hv, rfl⟩
  · exact .inr (.inr (List.mem_of_getElem? hu))

end Vm

end GreenVm
