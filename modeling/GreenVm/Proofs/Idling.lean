/-
  When nothing can go on.

  * `Vm.Stalled`: no thread can run, and what the waiting threads wait for does not come by itself.
  * `Vm.turn_idle_iff`: a turn is idle in just these states, and it changes nothing then.
  * `Vm.Stuck`: what a thread can wait for in such a state.
  * `Vm.idlesRightly_after`: in every run, all threads that have not ended are stuck in an idle turn, as
    long as all threads have different ids.
-/
import GreenVm.Proofs.Clock
import GreenVm.Proofs.Waits

namespace GreenVm

namespace Vm

variable {host : Host} {vm vm' : Vm} {t u : Thread} {j : Nat}

/-! ## Idle turns -/

/-- No thread can run, and what the waiting threads wait for does not come with time, and has not
    come. -/
structure Stalled (vm : Vm) : Prop where
  notRunnable : ∀ t ∈ vm.threads, t.status ≠ .runnable
  timeless : ∀ t ∈ vm.threads, t.deadline? = none
  notDue : ∀ t ∈ vm.threads, ∀ b, t.status = .waiting → t.blocker = some b →
    ¬ b.Due vm.clock (hasEnded vm.threads) vm.machine

theorem pick?_eq_none (h : ∀ t ∈ vm.threads, t.status ≠ .runnable) : vm.pick? = none :=
  (pick?_eq_none_iff vm).2 fun _ ⟨t, ht, hr⟩ => h t (Array.mem_of_getElem? ht) hr

theorem Stalled.wakeDue_eq (h : vm.Stalled) : vm.wakeDue = vm := by
  obtain ⟨hthreads, hmachine⟩ :=
    (wakeDue_wakes vm).still fun t ht => h.notDue t (Array.mem_toList_iff.1 ht)
  exact wakeDue_of_same hthreads hmachine

/-- In such a state, nobody is chosen, and nothing changes. -/
theorem Stalled.choose_eq (h : vm.Stalled) : vm.choose = (none, vm) := by
  unfold choose
  dsimp only
  rw [h.wakeDue_eq, pick?_eq_none h.notRunnable, earliestDeadline?_eq_none.2 h.timeless]

theorem stalled_of_wakeDue (hp : vm.wakeDue.pick? = none)
    (hd : ∀ t ∈ vm.wakeDue.threads, t.deadline? = none) : vm.Stalled := by
  obtain ⟨hw, hdue⟩ := wakeDue_unmoved hp
  rw [hw] at hp hd
  exact ⟨fun t ht hr => by
    obtain ⟨j, hj⟩ := Array.getElem?_of_mem ht
    exact (pick?_eq_none_iff vm).1 hp j ⟨t, hj, hr⟩, hd, hdue⟩

theorem stalled_iff (vm : Vm) : vm.Stalled ↔
    (∀ t ∈ vm.wakeDue.threads, t.status ≠ .runnable) ∧
      ∀ t ∈ vm.wakeDue.threads, t.deadline? = none := by
  refine ⟨fun h => ?_, fun ⟨hr, hd⟩ => stalled_of_wakeDue (pick?_eq_none hr) hd⟩
  rw [h.wakeDue_eq]
  exact ⟨h.notRunnable, h.timeless⟩

theorem Stalled.turn_eq (h : vm.Stalled) (host : Host) (hx : vm.exitStatus = none) :
    vm.turn host = (.idle, vm) := by
  unfold turn
  rw [hx, h.choose_eq]
  rfl

/-- A turn is idle just if no thread can run after waking, and none waits for a time. -/
theorem turn_idle_iff (host : Host) (hx : vm.exitStatus = none) :
    (vm.turn host).1 = .idle ↔ vm.Stalled := by
  refine ⟨fun h => ?_, fun h => by rw [h.turn_eq host hx]⟩
  have hran (i : Nat) (vm' : Vm) (hc : vm.choose = (some i, vm')) : (vm.turn host).1 ≠ .idle := by
    unfold turn
    rw [hx, hc]
    show (if (vm'.runThread host i).exitStatus.isSome then Turn.exited else .ran) ≠ .idle
    split <;> simp
  have hchooses := choose_chooses vm
  generalize hc : vm.choose = x at hchooses
  cases hchooses with
  | finds => exact absurd h (hran _ _ hc)
  | forwards => exact absurd h (hran _ _ hc)
  | idles hw hp hd =>
    exact stalled_of_wakeDue (by rwa [hw]) (by rw [hw]; exact earliestDeadline?_eq_none.1 hd)

/-! ## Until a thread is started -/

/-- Only a new thread ends it that nothing can go on. -/
theorem Stalled.act (h : vm.Stalled) (hx : vm.exitStatus = none) (a : Action)
    (hs : (vm.act host a).threads.size = vm.threads.size) :
    (vm.act host a).Stalled ∧ (vm.act host a).exitStatus = none := by
  by_cases ha : a = .turn
  · subst ha
    have e : vm.act host .turn = vm := congrArg Prod.snd (h.turn_eq host hx)
    rw [e]
    exact ⟨h, hx⟩
  · have hk : KeepsInit vm.machine (vm.act host a).machine := Placed.act_keepsInit ha
    obtain ⟨machine, new, e, -⟩ := act_appends host vm ha
    rw [e] at hs hk ⊢
    have hnew : new = #[] := by
      rw [Array.size_append] at hs
      exact Array.eq_empty_of_size_eq_zero (by omega)
    subst hnew
    rw [Array.append_empty]
    refine ⟨⟨h.notRunnable, h.timeless, fun t ht b hw hb hdue => h.notDue t ht b hw hb ?_⟩, hx⟩
    cases b with
    | classInit c =>
      rintro ⟨id, hid⟩
      refine hdue ⟨id, ?_⟩
      rw [Machine.stateOf_init] at hid ⊢
      exact (hk.progress_eq c.name).trans hid
    | _ => exact hdue

theorem Stalled.after (h : vm.Stalled) (hx : vm.exitStatus = none) {as : List Action}
    (hs : (vm.after host as).threads.size = vm.threads.size) :
    (vm.after host as).turn host = (.idle, vm.after host as) := by
  induction as generalizing vm with
  | nil => exact h.turn_eq host hx
  | cons a as ih =>
    have size_le (vm : Vm) (bs : List Action) : vm.threads.size ≤ (vm.after host bs).threads.size := by
      have := (after_ids host vm bs).length_le
      simpa [ids] using this
    have hle := size_le vm [a]
    have hle' := size_le (vm.act host a) as
    simp only [after_cons, after_nil] at hs hle
    have hact : (vm.act host a).Stalled ∧ (vm.act host a).exitStatus = none := h.act hx a (by omega)
    obtain ⟨h', hx'⟩ := hact
    exact ih h' hx' (by rw [hs]; omega)

/-! ## Who waits for what -/

/-- Every thread that waits for the end of another one waits for a thread that there is. -/
def JoinsKnown (vm : Vm) : Prop :=
  ∀ t ∈ vm.threads, ∀ target, t.blocker = some (.join target) → target ∈ vm.ids

theorem JoinsKnown.eased (h : vm.JoinsKnown) (he : Eased vm.threads vm'.threads) : vm'.JoinsKnown := by
  intro u hu target hb
  obtain ⟨j, hj⟩ := Array.getElem?_of_mem hu
  obtain ⟨t, ht, htu⟩ := he.get? hj
  rw [show vm'.ids = vm.ids from he.ids_eq]
  exact h t (Array.mem_of_getElem? ht) target (htu.blocker hb)

theorem blockerFor?_join {s : Suspend} {target : ThreadId}
    (h : vm.blockerFor? s = some (.join target)) : target ∈ vm.ids := by
  cases s with
  | join target' =>
    cases show Blocker.join target = .join target' from blockerFor?_isFor h
    unfold blockerFor? at h
    dsimp only at h
    split at h
    · next hany =>
      obtain ⟨t, ht, -⟩ := (Option.any_eq_true _ _).1 hany
      obtain ⟨hid, -⟩ := Array.find?_eq_some_iff_getElem.1 ht
      rw [← of_decide_eq_true hid]
      exact mem_ids (Array.mem_of_find?_eq_some ht)
    · cases h
  | wait => cases h
  | sleep => cases h
  | yield => cases h

theorem JoinsKnown.runThread (h : vm.JoinsKnown) (hs : Steady vm) (hh : host.Within LeavesLocks) {i : Nat}
    (ht : vm.threads[i]? = some t) (hr : t.status = .runnable) : (vm.runThread host i).JoinsKnown := by
  intro u hu target hb
  obtain ⟨vm', -, hids, hget⟩ := runThread_paused host ht
  obtain ⟨j, hj⟩ := Array.getElem?_of_mem hu
  rw [runThread_ids host ht]
  rcases hget hj with ⟨-, v, hv, hvu⟩ | ⟨-, w, hw, rfl⟩ | hnew
  · exact List.mem_append_left _ (h v (Array.mem_of_getElem? hv) target (hvu.blocker hb))
  · refine List.mem_append_left _ ?_
    have hl := (hs.final t (Array.mem_of_getElem? ht)).live hr
    have hunpaused := hw.unpaused (hl.step hr host vm.machine).2
    rcases Thread.pausing_blocker hb with hb | hb
    · obtain ⟨s, -, hs⟩ := Option.bind_eq_some_iff.1 hb
      rw [← hids]
      exact blockerFor?_join hs
    · exact (hunpaused _ hb).elim
  · obtain ⟨-, -, new, hnew', hnews⟩ := Thread.step_sparesOthers hh t vm.machine
    rw [hnew'] at hnew
    obtain ⟨method, args, e⟩ := (List.mem_append.1 hnew).elim (hs.spawned u) (hnews u)
    rw [e] at hb
    cases hb

theorem JoinsKnown.act (h : vm.JoinsKnown) (hs : Steady vm) (hh : host.Within LeavesLocks) (a : Action) :
    (vm.act host a).JoinsKnown := by
  by_cases ha : a = .turn
  · subst ha
    have hchosen := h.eased (choose_eased wakesWithin_anything vm).1
    show (vm.turn host).2.JoinsKnown
    rcases turn_cases host vm with ⟨-, e | e⟩ | ⟨i, t, -, ht, hr, e⟩ <;> rw [e]
    · exact h
    · exact hchosen
    · exact hchosen.runThread hs.choose hh ht hr
  · intro u hu target hb
    refine (act_ids host vm a).subset ?_
    obtain ⟨machine, new, e, hnew⟩ := act_appends host vm ha
    rw [e] at hu
    rcases Array.mem_append.1 hu with hu | hu
    · exact h u hu target hb
    · obtain ⟨id, name, r, args, rfl, -⟩ := hnew u hu
      cases hb

theorem JoinsKnown.after (h : vm.JoinsKnown) (hs : Steady vm) (hh : host.Within LeavesLocks)
    (as : List Action) : (vm.after host as).JoinsKnown := by
  induction as generalizing vm with
  | nil => exact h
  | cons a as ih => exact ih (h.act hs hh a) (hs.act hh a)

/-- A thread waits for something that does not come unless another thread does something for it. -/
inductive Stuck (vm : Vm) (t : Thread) : Prop
  | blocked {r : Ref} (hs : t.status = .blocked) (hb : t.blocker = some (.monitor r))
  | parked {r : Ref} {count : Nat} (hs : t.status = .waiting)
      (hb : t.blocker = some (.wait r count none))
  | joins {u : Thread} (hs : t.status = .waiting) (hb : t.blocker = some (.join u.id))
      (hu : u ∈ vm.threads) (hr : u.status ≠ .terminated)
  | awaits {c : Class} {id : ThreadId} (hs : t.status = .waiting)
      (hb : t.blocker = some (.classInit c))
      (hi : (Exec.stateOf vm.machine c).init = .inProgress id)

/-- When nothing can go on, all threads that have not ended are stuck. -/
theorem Stalled.stuck (h : vm.Stalled) (hp : Placed host vm) (hj : vm.JoinsKnown)
    (ht : t ∈ vm.threads) (hs : t.status ≠ .terminated) : vm.Stuck t := by
  obtain ⟨queue, wait, hstands, -⟩ := (hp.threads t ht).standing
  cases hstands with
  | running hr => exact absurd hr.status_eq (h.notRunnable t ht)
  | queued hs hb => exact .blocked hs hb
  | @parked r count deadline hs hb =>
    have hd := h.timeless t ht
    rw [Thread.deadline?_eq hs, hb] at hd
    replace hd : deadline = none := hd
    exact .parked hs (hd ▸ hb)
  | @paused b hs hb hpause =>
    have hdue := h.notDue t ht b hs hb
    cases b with
    | join target =>
      obtain ⟨u, hu, rfl⟩ := exists_of_mem_ids (hj t ht target hb)
      refine .joins hs hb hu fun hended => hdue (Array.any_eq_true'.2 ⟨u, hu, ?_⟩)
      simp [hended]
    | sleep d =>
      have hd := h.timeless t ht
      rw [Thread.deadline?_eq hs, hb] at hd
      cases hd
    | classInit c =>
      obtain ⟨id, hid⟩ := not_not.1 hdue
      exact .awaits hs hb hid
    | monitor => exact hpause.elim
    | wait => exact hpause.elim
  | ended hs' => exact absurd hs' hs

/-! ## Over a run -/

/-- When the next turn is idle, and what is so then. -/
structure IdlesRightly (host : Host) (vm : Vm) : Prop where
  iff : (vm.turn host).1 = .idle ↔ (∀ t ∈ vm.wakeDue.threads, t.status ≠ .runnable) ∧
    ∀ t ∈ vm.wakeDue.threads, t.deadline? = none
  /-- If some thread waits for a time, one has the turn, if need be after the clock has gone there. -/
  chooses : ∀ d, vm.wakeDue.earliestDeadline? = some d → vm.choose.1 ≠ none
  unchanged : (vm.turn host).1 = .idle → (vm.turn host).2 = vm
  again : (vm.turn host).1 = .idle → ∀ as, (vm.after host as).threads.size = vm.threads.size →
    (vm.after host as).turn host = (.idle, vm.after host as)
  stuck : (vm.turn host).1 = .idle → vm.ids.Nodup →
    ∀ t ∈ vm.threads, t.status ≠ .terminated → vm.Stuck t

/-- **A turn is idle just if nothing can go on**, which it leaves so: no thread can run, and none waits
    for a time.  All threads that have not ended are stuck then, as long as all threads have different
    ids and the natives of the embedder leave monitors and the initialization of classes alone. -/
theorem idlesRightly_after (hh : host.Within LeavesMonitors) (hk : host.Within KeepsInit)
    (config : Config) (classPath : Table String ClassFile) (wallClock : Nat) (as : List Action)
    (hx : ((boot config classPath wallClock).after host as).exitStatus = none) :
    IdlesRightly host ((boot config classPath wallClock).after host as) := by
  have hl := Host.within_leavesLocks hh
  have joins : JoinsKnown ((boot config classPath wallClock).after host as) := by
    refine JoinsKnown.after (fun t ht => ?_) (.boot config classPath wallClock) hl as
    simp [boot] at ht
  have placed (hd : ((boot config classPath wallClock).after host as).ids.Nodup) :=
    (Placed.boot host config classPath wallClock).after hh hk (.boot config classPath wallClock) hd
  generalize (boot config classPath wallClock).after host as = vm at *
  have stalled : (vm.turn host).1 = .idle ↔ vm.Stalled := turn_idle_iff host hx
  refine
    { iff := stalled.trans (stalled_iff vm)
      chooses := fun d hd => ?_
      unchanged := fun h => by rw [(stalled.1 h).turn_eq host hx]
      again := fun h bs hs => (stalled.1 h).after hx hs
      stuck := fun h hd t ht hs => (stalled.1 h).stuck (placed hd) joins ht hs }
  have hchooses := choose_chooses vm
  generalize vm.choose = x at hchooses
  cases hchooses with
  | finds => exact Option.some_ne_none _
  | forwards => exact Option.some_ne_none _
  | idles hw _ hnone =>
    rw [hw, hnone] at hd
    cases hd

/-- A thread that waits for a notification that nobody can give. -/
theorem idlesRightly_after_wait :
    let vm := (ofWaiter 0).after .idle (.spawn "A" "main" "()V" [] :: List.replicate 10 .turn)
    (vm.turn .idle).1 = .idle ∧ vm.ids.Nodup ∧ vm.threads[0]?.map Thread.status = some .waiting ∧
      vm.IdlesRightly .idle := by
  have h : let vm := (ofWaiter 0).after .idle (.spawn "A" "main" "()V" [] :: List.replicate 10 .turn)
      vm.exitStatus = none ∧ (vm.turn .idle).1 = .idle ∧ vm.ids.Nodup ∧
        vm.threads[0]?.map Thread.status = some .waiting := by decide +kernel
  exact ⟨h.2.1, h.2.2.1, h.2.2.2, idlesRightly_after Host.idle_within Host.idle_within _ _ _ _ h.1⟩

/-- A thread that shares its id with one that is notified waits for nothing, and is not stuck. -/
theorem not_stuck_after_restart :
    let vm := ofRestarter.after .idle ([.spawn "A" "main" "()V" [], .spawn "A" "wake" "()V" []] ++
      List.replicate 30 .turn)
    vm.exitStatus = none ∧ (vm.turn .idle).1 = .idle ∧
      ∃ t ∈ vm.threads, t.status ≠ .terminated ∧ ¬ vm.Stuck t := by
  have h : let vm := ofRestarter.after .idle ([.spawn "A" "main" "()V" [],
        .spawn "A" "wake" "()V" []] ++ List.replicate 30 .turn)
      vm.exitStatus = none ∧ (vm.turn .idle).1 = .idle ∧
        vm.threads[0]?.any fun t => t.status = .waiting ∧ t.blocker.isNone := by decide +kernel
  obtain ⟨hx, hidle, hany⟩ := h
  obtain ⟨t, ht, hs⟩ := (Option.any_eq_true _ _).1 hany
  obtain ⟨hs, hnone⟩ := of_decide_eq_true hs
  refine ⟨hx, hidle, t, Array.mem_of_getElem? ht, by simp [hs], fun hstuck => ?_⟩
  cases hstuck with
  | blocked hs' => cases hs.symm.trans hs'
  | parked _ hb => simp [hb] at hnone
  | joins _ hb => simp [hb] at hnone
  | awaits _ hb => simp [hb] at hnone

end Vm

end GreenVm
