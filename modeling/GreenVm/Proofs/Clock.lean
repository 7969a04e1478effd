/-
  The clock, and the times that threads wait for.

  * `Vm.Timely`: between turns no thread waits for a time that has passed.
  * `Vm.Timely.choose_get?`: the clock never goes past a time that a thread waits for, and when it
    comes to that time the thread is resumed.
  * `Vm.KeepsTime`, `Vm.keepsTime_after`: so it is over every run, and a thread goes on waiting until
    then, or until it is notified, as long as all threads have different ids.
-/
import GreenVm.Proofs.Fairness
import GreenVm.Proofs.Queues.Runs

namespace GreenVm

namespace Thread

variable {t u : Thread} {m m' : Machine} {clock d : Nat} {ended : ThreadId → Bool}

theorem deadline?_eq (h : t.status = .waiting) : t.deadline? = t.blocker.bind Blocker.deadline? :=
  if_pos h

theorem mem_deadline? (h : d ∈ t.deadline?) :
    t.status = .waiting ∧ ∃ b, t.blocker = some b ∧ b.deadline? = some d := by
  unfold deadline? at h
  split at h
  · next hs => exact ⟨hs, Option.bind_eq_some_iff.1 h⟩
  · cases h

/-- Ending the waiting of a thread gives it no time to wait for, and makes it no pause. -/
theorem Eases.deadline (h : t.Eases u) (hd : d ∈ u.deadline?) : d ∈ t.deadline? := by
  induction h with
  | same => exact hd
  | resumed => cases hd
  | @notified u _ _ =>
    obtain ⟨-, b, hb, -⟩ := mem_deadline? hd
    cases u.notified_blocker.symm.trans hb

theorem Eases.unpaused (h : t.Eases u) (ht : t.Unpaused) : u.Unpaused :=
  fun b hb => ht b (h.blocker hb)

/-- A thread whose time has come can run, and any other that waits for a time goes on waiting. -/
theorem Wakes.deadline (h : t.Wakes clock ended m (u, m')) (hd : d ∈ t.deadline?) :
    u = t ∧ clock < d ∨ u.status = .runnable ∧ d ≤ clock := by
  obtain ⟨hs, b, hb, hbd⟩ := mem_deadline? hd
  cases h with
  | stays hdue =>
    refine .inl ⟨rfl, Nat.lt_of_not_le fun hle => hdue b hs hb ?_⟩
    cases b with
    | sleep => cases hbd; exact hle
    | wait r count deadline => exact ⟨d, hbd, hle⟩
    | monitor => cases hbd
    | join => cases hbd
    | classInit => cases hbd
  | resumes _ hb' hw hdue =>
    cases hb.symm.trans hb'
    refine .inr ⟨rfl, ?_⟩
    cases b with
    | sleep => cases hbd; exact hdue
    | wait r count deadline => exact absurd rfl (hw r count deadline)
    | monitor => cases hbd
    | join => cases hbd
    | classInit => cases hbd
  | timesOut _ hb' hle =>
    cases hb.symm.trans hb'
    cases hbd
    refine .inr ⟨?_, hle⟩
    rw [notified, hb]
    rfl

/-- A thread that pauses waits for no time but one that is ahead. -/
theorem deadline_pausing {vm : Vm} {s : Option Suspend} (h : t.Unpaused)
    (hd : d ∈ (t.pausing (s.bind vm.blockerFor?)).deadline?) : vm.clock ≤ d := by
  obtain ⟨-, b, hb, hbd⟩ := mem_deadline? hd
  rcases pausing_blocker hb with hb | hb
  · obtain ⟨s, -, hs⟩ := Option.bind_eq_some_iff.1 hb
    cases s with
    | wait r count millis =>
      cases hs
      obtain ⟨ms, -, rfl⟩ := Option.map_eq_some_iff.1 hbd
      exact Nat.le_add_right _ _
    | sleep ms =>
      cases hs
      cases hbd
      exact Nat.le_add_right _ _
    | join target =>
      cases Vm.blockerFor?_isFor hs
      cases hbd
    | yield => cases hs
  · have hobstacle := h b hb
    cases b with
    | monitor => cases hbd
    | classInit => cases hbd
    | wait => cases hobstacle
    | sleep => cases hobstacle
    | join => cases hobstacle

end Thread

namespace Vm

variable {host : Host} {vm : Vm} {j : Nat} {t u : Thread} {d : Nat}

/-- Between turns, no thread waits for a time that has passed. -/
def Timely (vm : Vm) : Prop := ∀ t ∈ vm.threads, ∀ d ∈ t.deadline?, vm.clock ≤ d

/-! ## The next time -/

theorem wakeDue_get? (ht : vm.threads[j]? = some t) :
    ∃ u m m', vm.wakeDue.threads[j]? = some u ∧
      t.Wakes vm.clock (hasEnded vm.threads) m (u, m') := by
  obtain ⟨u, m, m', hu, hw⟩ := (wakeDue_wakes vm).get? (Array.getElem?_toList ▸ ht)
  exact ⟨u, m, m', Array.getElem?_toList ▸ hu, hw⟩

theorem wakeDue_clock (vm : Vm) : vm.wakeDue.clock = vm.clock := by rw [wakeDue_eq]

theorem mem_deadlines : d ∈ vm.threads.toList.filterMap Thread.deadline? ↔
    ∃ t ∈ vm.threads, d ∈ t.deadline? := by
  simp only [List.mem_filterMap, Array.mem_toList_iff, Option.mem_def]

/-- Some thread waits for the earliest time, and none for a time before it. -/
theorem earliestDeadline?_eq_some (h : vm.earliestDeadline? = some d) :
    (∃ t ∈ vm.threads, d ∈ t.deadline?) ∧ ∀ t ∈ vm.threads, ∀ d' ∈ t.deadline?, d ≤ d' := by
  obtain ⟨hmem, hle⟩ := List.min?_eq_some_iff.1 h
  exact ⟨mem_deadlines.1 hmem, fun t ht d' hd' => hle d' (mem_deadlines.2 ⟨t, ht, hd'⟩)⟩

theorem earliestDeadline?_eq_none :
    vm.earliestDeadline? = none ↔ ∀ t ∈ vm.threads, t.deadline? = none := by
  unfold earliestDeadline?
  rw [List.min?_eq_none_iff, List.filterMap_eq_nil_iff]
  simp only [Array.mem_toList_iff]

theorem wakeDue_of_same (h : vm.wakeDue.threads.toList = vm.threads.toList)
    (hm : vm.wakeDue.machine = vm.machine) : vm.wakeDue = vm := by
  have hsame : vm.wakeDue = { vm with
      threads := vm.wakeDue.threads, machine := vm.wakeDue.machine } := by
    rw [wakeDue_eq]
  rw [Array.toList_inj.1 h, hm] at hsame
  exact hsame

/-- If no thread can run once those have been woken for which the time has come, the others have been
    left alone. -/
theorem wakeDue_unmoved (h : vm.wakeDue.pick? = none) : vm.wakeDue = vm ∧
    ∀ t ∈ vm.threads, ∀ b, t.status = .waiting → t.blocker = some b →
      ¬ b.Due vm.clock (hasEnded vm.threads) vm.machine := by
  have hr : ∀ u ∈ vm.wakeDue.threads.toList, u.status ≠ .runnable := fun u hu hs => by
    obtain ⟨j, hj⟩ := Array.getElem?_of_mem (Array.mem_toList_iff.1 hu)
    exact (pick?_eq_none_iff _).1 h j ⟨u, hj, hs⟩
  obtain ⟨hthreads, hmachine, hdue⟩ := (wakeDue_wakes vm).unmoved hr
  exact ⟨wakeDue_of_same hthreads hmachine, fun t ht => hdue t (Array.mem_toList_iff.2 ht)⟩

/-- How the next thread is chosen. -/
inductive Chooses (vm : Vm) : Option Nat × Vm → Prop
  | finds {i : Nat} (hp : vm.wakeDue.pick? = some i) : Chooses vm (some i, vm.wakeDue)
  /-- All threads wait, and the clock goes to the earliest time that one of them waits for. -/
  | forwards {d i : Nat} (hw : vm.wakeDue = vm) (hd : vm.earliestDeadline? = some d)
      (hp : ({ vm with clock := max vm.clock d } : Vm).wakeDue.pick? = some i) :
    Chooses vm (some i, ({ vm with clock := max vm.clock d } : Vm).wakeDue)
  /-- All threads wait, and there is no such time. -/
  | idles (hw : vm.wakeDue = vm) (hp : vm.pick? = none) (hd : vm.earliestDeadline? = none) :
    Chooses vm (none, vm)

/-- When the clock goes to a time that a thread waits for, that thread is woken. -/
theorem pick?_of_due (ht : t ∈ vm.threads) (hd : d ∈ t.deadline?) (hle : d ≤ vm.clock) :
    vm.wakeDue.pick? ≠ none := by
  obtain ⟨j, hj⟩ := Array.getElem?_of_mem ht
  obtain ⟨u, m, m', hu, hw⟩ := wakeDue_get? hj
  rcases hw.deadline hd with ⟨-, hlt⟩ | ⟨hs, -⟩
  · omega
  · exact fun hp => (pick?_eq_none_iff _).1 hp j ⟨u, hu, hs⟩

theorem choose_chooses (vm : Vm) : vm.Chooses vm.choose := by
  unfold choose
  dsimp only
  cases hp : vm.wakeDue.pick? with
  | some i => exact .finds hp
  | none =>
    obtain ⟨hw, -⟩ := wakeDue_unmoved hp
    rw [hw] at hp ⊢
    cases hd : vm.earliestDeadline? with
    | none => exact .idles hw hp hd
    | some d =>
      dsimp only
      obtain ⟨⟨t, ht, htd⟩, -⟩ := earliestDeadline?_eq_some hd
      have hpick : ({ vm with clock := max vm.clock d } : Vm).wakeDue.pick? ≠ none :=
        pick?_of_due ht htd (le_max_right _ _)
      cases hp' : ({ vm with clock := max vm.clock d } : Vm).wakeDue.pick? with
      | none => exact absurd hp' hpick
      | some i => exact .forwards hw hd hp'

/-! ## Between turns -/

theorem clock_le_choose (vm : Vm) : vm.clock ≤ vm.choose.2.clock := by
  have h := choose_chooses vm
  generalize vm.choose = x at h ⊢
  cases h with
  | finds => exact (wakeDue_clock vm).ge
  | forwards =>
    rw [wakeDue_clock]
    exact le_max_left _ _
  | idles => exact le_rfl

/-- If all threads wait for times ahead, the clock does not go past any of them, and a thread is
    resumed just when the clock comes to its time. -/
theorem Timely.choose_get? (h : vm.Timely) (ht : vm.threads[j]? = some t) :
    ∃ u, vm.choose.2.threads[j]? = some u ∧ (t.deadline? = none → u.deadline? = none) ∧
      ∀ d ∈ t.deadline?, u = t ∧ vm.choose.2.clock < d ∨
        u.status = .runnable ∧ vm.choose.2.clock = d := by
  have hle (d : Nat) (hd : d ∈ t.deadline?) : vm.clock ≤ d := h t (Array.mem_of_getElem? ht) d hd
  have hc := choose_chooses vm
  generalize vm.choose = x at hc ⊢
  have none_of {u : Thread} {clock : Nat} {m m' : Machine}
      (hw : t.Wakes clock (hasEnded vm.threads) m (u, m')) (hn : t.deadline? = none) :
      u.deadline? = none := by
    cases hu : u.deadline? with
    | none => rfl
    | some d => cases hn.symm.trans (hw.eases.deadline hu)
  cases hc with
  | finds =>
    obtain ⟨u, m, m', hu, hw⟩ := wakeDue_get? ht
    refine ⟨u, hu, none_of hw, fun d hd => ?_⟩
    rw [wakeDue_clock]
    exact (hw.deadline hd).imp_right fun ⟨hs, hd'⟩ => ⟨hs, Nat.le_antisymm (hle d hd) hd'⟩
  | @forwards e i _ he =>
    have hwoken : ∃ u m m', ({ vm with clock := max vm.clock e } : Vm).wakeDue.threads[j]? = some u ∧
        t.Wakes (max vm.clock e) (hasEnded vm.threads) m (u, m') := wakeDue_get? ht
    obtain ⟨u, m, m', hu, hw⟩ := hwoken
    refine ⟨u, hu, none_of hw, fun d hd => ?_⟩
    rw [wakeDue_clock]
    have hed := (earliestDeadline?_eq_some he).2 t (Array.mem_of_getElem? ht) d hd
    exact (hw.deadline hd).imp_right fun ⟨hs, hd'⟩ =>
      ⟨hs, Nat.le_antisymm (max_le (hle d hd) hed) hd'⟩
  | idles _ _ he =>
    refine ⟨t, ht, fun hn => hn, fun d hd => ?_⟩
    cases hd.symm.trans (earliestDeadline?_eq_none.1 he t (Array.mem_of_getElem? ht))

/-- So the clock comes before all times that threads wait for then. -/
theorem Timely.choose_lt (h : vm.Timely) (hu : u ∈ vm.choose.2.threads) (hd : d ∈ u.deadline?) :
    vm.choose.2.clock < d := by
  obtain ⟨j, hj⟩ := Array.getElem?_of_mem hu
  obtain ⟨t, ht, htu⟩ := (choose_eased wakesWithin_anything vm).1.get? hj
  obtain ⟨u', hu', -, htime⟩ := h.choose_get? ht
  cases hj.symm.trans hu'
  rcases htime d (htu.deadline hd) with ⟨-, hlt⟩ | ⟨hs, -⟩
  · exact hlt
  · cases hs.symm.trans (Thread.mem_deadline? hd).1

/-- The turn of a thread takes one tick, and whoever pauses does so for a time that is ahead. -/
theorem timely_runThread (hs : Steady vm) (hh : host.Within LeavesLocks)
    (h : ∀ u ∈ vm.threads, ∀ d ∈ u.deadline?, vm.clock < d) {i : Nat} (ht : vm.threads[i]? = some t)
    (hr : t.status = .runnable) :
    (vm.runThread host i).clock = vm.clock + 1 ∧ (vm.runThread host i).Timely := by
  obtain ⟨_, hclock', -, -, hclock, -⟩ := runThread_woken host ht
  replace hclock := hclock.trans hclock'
  refine ⟨hclock, fun u hu d hd => ?_⟩
  obtain ⟨vm', hclock', -, hget⟩ := runThread_paused host ht
  obtain ⟨j, hj⟩ := Array.getElem?_of_mem hu
  rw [hclock]
  rcases hget hj with ⟨-, v, hv, hvu⟩ | ⟨-, w, hw, rfl⟩ | hnew
  · exact h v (Array.mem_of_getElem? hv) d (hvu.deadline hd)
  · have hl := (hs.final t (Array.mem_of_getElem? ht)).live hr
    rw [← hclock']
    exact Thread.deadline_pausing (hw.unpaused (hl.step hr host vm.machine).2) hd
  · obtain ⟨-, -, new, hnew', hnews⟩ := Thread.step_sparesOthers hh t vm.machine
    rw [hnew'] at hnew
    obtain ⟨method, args, e⟩ := (List.mem_append.1 hnew).elim (hs.spawned u) (hnews u)
    rw [e] at hd
    cases hd

theorem Timely.act (h : vm.Timely) (hs : Steady vm) (hh : host.Within LeavesLocks) (a : Action) :
    vm.clock ≤ (vm.act host a).clock ∧ (vm.act host a).Timely := by
  by_cases ha : a = .turn
  · subst ha
    show vm.clock ≤ (vm.turn host).2.clock ∧ (vm.turn host).2.Timely
    have hle := clock_le_choose vm
    rcases turn_cases host vm with ⟨-, e | e⟩ | ⟨i, t, -, ht, hr, e⟩ <;> rw [e]
    · exact ⟨le_rfl, h⟩
    · exact ⟨hle, fun u hu d hd => (h.choose_lt hu hd).le⟩
    · obtain ⟨hclock, htimely⟩ :=
        timely_runThread hs.choose hh (fun u hu d hd => h.choose_lt hu hd) ht hr
      exact ⟨by omega, htimely⟩
  · obtain ⟨machine, new, e, hnew⟩ := act_appends host vm ha
    rw [e]
    refine ⟨le_rfl, fun u hu d hd => ?_⟩
    rcases Array.mem_append.1 hu with hu | hu
    · exact h u hu d hd
    · obtain ⟨id, name, r, args, rfl, -⟩ := hnew u hu
      cases hd

theorem Timely.after (h : vm.Timely) (hs : Steady vm) (hh : host.Within LeavesLocks) (as : List Action) :
    vm.clock ≤ (vm.after host as).clock ∧ (vm.after host as).Timely := by
  induction as generalizing vm with
  | nil => exact ⟨le_rfl, h⟩
  | cons a as ih =>
    obtain ⟨hle, h'⟩ := h.act hs hh a
    exact (ih h' (hs.act hh a)).imp_left hle.trans

theorem timely_boot (config : Config) (classPath : Table String ClassFile) (wallClock : Nat) :
    (boot config classPath wallClock).Timely := fun _ hu => by simp [boot] at hu

/-! ## Over a run -/

/-- Whether something holds just before one of the turns of a run. -/
def BeforeSomeTurn (host : Host) (P : Vm → Prop) : Vm → List Action → Prop
  | _, [] => False
  | vm, a :: as => a = .turn ∧ P vm ∨ BeforeSomeTurn host P (vm.act host a) as

instance beforeSomeTurnDecidable (host : Host) (P : Vm → Prop) [DecidablePred P] :
    (vm : Vm) → (as : List Action) → Decidable (BeforeSomeTurn host P vm as)
  | _, [] => instDecidableFalse
  | vm, a :: as =>
    have := beforeSomeTurnDecidable host P (vm.act host a) as
    inferInstanceAs (Decidable (a = .turn ∧ P vm ∨ BeforeSomeTurn host P (vm.act host a) as))

/-- The ids of the threads that are notified in the next turn. -/
def notifies (host : Host) (vm : Vm) : List ThreadId :=
  vm.next?.elim [] fun (t, m) => ((t.step host).run m).2.requests.notified

/-- The waiting of a thread for a time comes to its end in the next turn: the clock is at that time
    when a thread is chosen, and the thread can run, or it is notified, if it waits for that, too. -/
def Ends (host : Host) (j : Nat) (t : Thread) (d : Nat) (vm : Vm) : Prop :=
  vm.exitStatus = none ∧ vm.choose.2.CanRun j ∧ vm.choose.2.clock = d ∨
    t.id ∈ vm.notifies host ∧ ∃ r count, t.blocker = some (.wait r count (some d))

/-- A thread that waits for a time does so until its waiting comes to its end. -/
theorem Timely.act_get? (h : vm.Timely) {a : Action} (hd : vm.ids.Nodup)
    (hp : Placed host (vm.act host a)) (ht : vm.threads[j]? = some t) (htd : d ∈ t.deadline?) :
    (vm.act host a).threads[j]? = some t ∨ a = .turn ∧ vm.Ends host j t d := by
  by_cases ha : a = .turn
  · subst ha
    obtain ⟨u, hu, -, htime⟩ := h.choose_get? ht
    rcases htime d htd with ⟨rfl, hlt⟩ | ⟨hs, hclock⟩
    · replace hp : Placed host (vm.turn host).2 := hp
      show (vm.turn host).2.threads[j]? = some u ∨ _
      rcases turn_cases host vm with ⟨-, e | e⟩ | ⟨i, v, hn, hv, hr, e⟩ <;> rw [e] at hp ⊢
      · exact .inl ht
      · exact .inl hu
      · obtain ⟨hs, b, hb, hbd⟩ := Thread.mem_deadline? htd
        have hij : j ≠ i := fun hij => by
          cases hij
          cases hv.symm.trans hu
          cases hs.symm.trans hr
        obtain ⟨_, -, -, hget⟩ := runThread_threads host ((choose_ids vm).symm ▸ hd) hv
        have hjget := hget j
        rw [if_pos (Array.getElem?_eq_some_iff.1 hu).1, hu, Option.map_some, if_neg hij] at hjget
        by_cases hnotified : u.id ∈ ((v.step host).run vm.choose.2.machine).2.requests.notified
        · have hends : u.id ∈ vm.notifies host := by
            rw [notifies, hn]
            exact hnotified
          rw [Requests.wakes_of_notified hs hnotified] at hjget
          cases b with
          | wait r count deadline => exact .inr ⟨rfl, .inr ⟨hends, r, count, hbd ▸ hb⟩⟩
          | sleep deadline =>
            -- it would wait for nothing then, and no thread stands like that
            have hstatus : u.notified.status = .waiting := by
              unfold Thread.notified
              rw [hb]
              exact hs
            exact absurd u.notified_blocker
              ((hp.threads _ (Array.mem_of_getElem? hjget)).blocker_ne hstatus)
          | monitor => cases hbd
          | join => cases hbd
          | classInit => cases hbd
        · rw [Requests.wakes_of_waiting hs hnotified] at hjget
          exact .inl hjget
    · cases hx : vm.exitStatus with
      | some status =>
        refine .inl ?_
        show (vm.turn host).2.threads[j]? = some t
        simpa [turn, hx] using ht
      | none => exact .inr ⟨rfl, .inl ⟨hx, ⟨u, hu, hs⟩, hclock⟩⟩
  · obtain ⟨machine, new, e, -⟩ := act_appends host vm ha
    rw [e]
    exact .inl ((Array.getElem?_append_left (Array.getElem?_eq_some_iff.1 ht).1).trans ht)

theorem Timely.after_get? (hh : host.Within LeavesMonitors) (hk : host.Within KeepsInit)
    {lost : List (String × ThreadId)} {as : List Action} (h : vm.Timely) (hs : Steady vm) (hp : Placed host vm)
    (hi : Initializing lost vm) (hd : (vm.after host as).ids.Nodup) (ht : vm.threads[j]? = some t)
    (htd : d ∈ t.deadline?) : (vm.after host as).threads[j]? = some t ∨
      BeforeSomeTurn host (Ends host j t d) vm as := by
  have hl := Host.within_leavesLocks hh
  induction as generalizing vm lost with
  | nil => exact .inl ht
  | cons a as ih =>
    obtain ⟨_, _, _, hi', -⟩ := hi.act hk a
    have hd' : (vm.act host a).ids.Nodup := hd.sublist (after_ids host _ as).sublist
    have hp' := hp.act hh hk hi a hd'
    rcases h.act_get? (hd'.sublist (act_ids host vm a).sublist) hp' ht htd with ht' | hends
    · exact (ih (h.act hs hl a).2 (hs.act hl a) hp' hi' hd ht').imp_right .inr
    · exact .inr (.inl hends)

/-- How the clock and the threads that wait for a time keep up with each other. -/
structure KeepsTime (host : Host) (vm : Vm) : Prop where
  clock_le : ∀ as, vm.clock ≤ (vm.after host as).clock
  timely : ∀ t ∈ vm.threads, ∀ d ∈ t.deadline?, vm.clock ≤ d
  /-- When the next thread is chosen, the clock does not go past any time that a thread waits for, and
      the thread is resumed just when the clock comes to its time. -/
  punctual : ∀ (t : Thread) (j d : Nat), vm.threads[j]? = some t → d ∈ t.deadline? →
    vm.choose.2.threads[j]? = some t ∧ vm.choose.2.clock < d ∨
      vm.choose.2.CanRun j ∧ vm.choose.2.clock = d
  /-- A thread that waits for a time goes on until its waiting comes to its end. -/
  lasting : ∀ (t : Thread) (j d : Nat), vm.threads[j]? = some t → d ∈ t.deadline? →
    ∀ as, (vm.after host as).ids.Nodup → (vm.after host as).threads[j]? = some t ∨
      BeforeSomeTurn host (Ends host j t d) vm as

/-- **The clock never goes back, and nobody is woken early or late**: no time that a thread waits for
    ever passes between turns, and the thread is resumed just when the clock comes to it.  A thread
    that sleeps or waits for a notification is not forgotten, as long as all threads have different
    ids and the natives of the embedder leave monitors and the initialization of classes alone. -/
theorem keepsTime_after (hh : host.Within LeavesMonitors) (hk : host.Within KeepsInit)
    (config : Config) (classPath : Table String ClassFile) (wallClock : Nat) (as : List Action) :
    KeepsTime host ((boot config classPath wallClock).after host as) := by
  have hl := Host.within_leavesLocks hh
  have steady := (Steady.boot config classPath wallClock).after hl as
  have timely := ((timely_boot config classPath wallClock).after
    (.boot config classPath wallClock) hl as).2
  refine
    { clock_le := fun bs => (timely.after steady hl bs).1
      timely := timely
      punctual := fun t j d ht hd => ?_
      lasting := fun t j d ht htd bs hd => ?_ }
  · obtain ⟨u, hu, -, htime⟩ := timely.choose_get? ht
    rcases htime d hd with ⟨rfl, hlt⟩ | ⟨hs, hclock⟩
    · exact .inl ⟨hu, hlt⟩
    · exact .inr ⟨⟨u, hu, hs⟩, hclock⟩
  · have hi := Initializing.boot config classPath wallClock
    obtain ⟨lost, hi'⟩ := hi.after hk as
    have hd' := hd.sublist (after_ids host _ bs).sublist
    have placed := (Placed.boot host config classPath wallClock).after hh hk hi hd'
    exact timely.after_get? hh hk steady placed hi' hd ht htd

end Vm

/-! ## A program -/

/-- A class `A` with two methods to start threads at.  The thread of `main` gives its own thread
    object something to run and starts it, and then sleeps; that of `wake` sleeps, notifies a thread
    that waits at a string, and sleeps again. -/
def restarter : ClassFile :=
  { ClassFile.ofClass "A" with
    pool := [.method ⟨ClassName.thread, "currentThread", "()Ljava/lang/Thread;"⟩, .classRef "R",
      .field ⟨ClassName.thread, "target", "Ljava/lang/Runnable;"⟩,
      .method ⟨ClassName.thread, "start", "()V"⟩, .method ⟨ClassName.thread, "sleep", "(J)V"⟩,
      .string "lock", .method ⟨ClassName.object, "notify", "()V"⟩]
    methods := [
      { flags := .ofList [.staticMember], name := "main", descriptor := "()V"
        code := some (.ofList 3 0 [.invokeStatic 1, .dup 1 0, .new 2, .putField 3, .invokeVirtual 4,
          .literal (.long 100), .invokeStatic 5, .leave none]) },
      { flags := .ofList [.staticMember], name := "wake", descriptor := "()V"
        code := some (.ofList 2 0 [.literal (.long 30), .invokeStatic 5, .loadConstant 6, .dup 1 0,
          .monitorEnter, .dup 1 0, .invokeVirtual 7, .monitorExit, .literal (.long 1000),
          .invokeStatic 5, .leave none]) }] }

/-- A class `R` whose `run` waits at that string. -/
def rester : ClassFile :=
  { ClassFile.ofClass "R" with
    interfaces := [ClassName.runnable]
    pool := [.string "lock", .method ⟨ClassName.object, "wait", "()V"⟩]
    methods := [
      { flags := .ofList [.publicAccess], name := "run", descriptor := "()V"
        code := some (.ofList 2 1 [.loadConstant 1, .dup 1 0, .monitorEnter, .invokeVirtual 2,
          .leave none]) }] }

namespace Vm

/-- A virtual machine that has these classes, and has run nothing yet. -/
def ofRestarter : Vm := .boot {} (.ofList [("A", restarter), ("R", rester)]) 0

/-- A thread that sleeps is resumed just when the clock has gone straight to its time. -/
theorem keepsTime_after_sleep :
    let vm := ofRestarter.after .idle [.spawn "A" "wake" "()V" [], .turn, .turn, .turn]
    vm.threads[0]?.bind Thread.deadline? = some 33 ∧ vm.clock = 3 ∧ vm.choose.2.CanRun 0 ∧
      vm.choose.2.clock = 33 ∧ vm.KeepsTime .idle := by
  have h : let vm := ofRestarter.after .idle [.spawn "A" "wake" "()V" [], .turn, .turn, .turn]
      vm.threads[0]?.bind Thread.deadline? = some 33 ∧ vm.clock = 3 ∧ vm.choose.2.CanRun 0 ∧
        vm.choose.2.clock = 33 := by decide +kernel
  exact ⟨h.1, h.2.1, h.2.2.1, h.2.2.2, keepsTime_after Host.idle_within Host.idle_within _ _ _ _⟩

/-- A thread that shares its id with one that is notified sleeps on, though its time passes. -/
theorem not_resumed_after_restart :
    let vm := ofRestarter.after .idle ([.spawn "A" "main" "()V" [], .spawn "A" "wake" "()V" []] ++
      List.replicate 13 .turn)
    vm.threads[0]?.bind Thread.deadline? = some 113 ∧
      ¬ BeforeSomeTurn .idle (fun vm => vm.choose.2.CanRun 0) vm (List.replicate 17 .turn) ∧
      (vm.after .idle (List.replicate 17 .turn)).threads[0]?.map Thread.status = some .waiting ∧
      113 < (vm.after .idle (List.replicate 17 .turn)).clock := by
  decide +kernel

end Vm

end GreenVm
