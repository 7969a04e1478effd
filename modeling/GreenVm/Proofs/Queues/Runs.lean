/-
  The queues and wait sets of monitors over a run of a virtual machine.

  * `Vm.Placed`: between turns, every thread is in the queue and in the wait set that its status says,
    once, and in no others; a monitor that is reserved is free, and the thread that it is reserved for
    can run and tries to enter it.
  * `Vm.Placed.act`: every action keeps it so.
-/
import GreenVm.Proofs.Fairness
import GreenVm.Proofs.Initialization.Runs
import GreenVm.Proofs.Queues.Standing
import GreenVm.Proofs.Settling
import GreenVm.Proofs.Waking

namespace GreenVm

/-! ## One thread -/

namespace Thread

variable {t : Thread} {queue wait : Option Ref} {r : Ref}

theorem Stands.of_running (h : t.Stands queue wait) (hs : t.status = .runnable) :
    t.Running ∧ queue = none ∧ wait = none := by
  cases h with
  | running h => exact ⟨h, rfl, rfl⟩
  | queued hs' => cases hs.symm.trans hs'
  | parked hs' => cases hs.symm.trans hs'
  | paused hs' => cases hs.symm.trans hs'
  | ended hs' => cases hs.symm.trans hs'

theorem Stands.queue_eq (h : t.Stands queue wait) (hb : t.blocker = some (.monitor r)) :
    queue = some r := by
  cases h with
  | running h => cases h.blocker_eq.symm.trans hb
  | queued _ hb' => cases hb.symm.trans hb'; rfl
  | parked _ hb' => cases hb.symm.trans hb'
  | paused _ hb' hp => cases hb.symm.trans hb'; exact hp.elim
  | ended _ hb' => cases hb.symm.trans hb'

/-- A thread that can run and waits for something pauses, and any other goes on as it was. -/
theorem Stands.pausing {b : Option Blocker} (h : t.Stands queue none)
    (hb : ∀ b' ∈ b, b'.IsPause) : (t.pausing b).Stands queue none := by
  cases b with
  | none => exact h
  | some b =>
    show (t.suspended b).Stands queue none
    unfold suspended
    split
    · next hs =>
      obtain ⟨hr, rfl, -⟩ := h.of_running hs
      exact .paused rfl rfl (hb b rfl) hr.completion_eq hr.enters
    · exact h

theorem Running.parking {count : Nat} {deadline : Option Nat} (h : t.Running) :
    (t.pausing (some (.wait r count deadline))).Stands none (some r) := by
  show (t.suspended _).Stands none (some r)
  rw [suspended, if_pos h.status_eq]
  exact .parked rfl rfl h.completion_eq h.enters

end Thread

/-- In the requests of a step is what its thread waits for. -/
theorem Machine.Finds.blocker {m : Machine} {id : ThreadId} {queue wait : Option Ref}
    (h : m.Finds id queue wait) (vm : Vm) :
    (wait = none → ∀ b ∈ m.requests.suspend.bind vm.blockerFor?, b.IsPause) ∧
      ∀ r, wait = some r → ∃ count deadline,
        m.requests.suspend.bind vm.blockerFor? = some (.wait r count deadline) := by
  refine ⟨fun hw b hb => ?_, fun r hw => ?_⟩
  · obtain ⟨s, hs, hb⟩ := Option.bind_eq_some_iff.1 hb
    have hfor := Vm.blockerFor?_isFor hb
    cases s with
    | wait r count millis => exact absurd ((h.suspend r).1 ⟨count, millis, hs⟩) (by simp [hw])
    | join => cases hfor; exact trivial
    | sleep => obtain ⟨_, rfl⟩ := hfor; exact trivial
    | yield => exact hfor.elim
  · obtain ⟨count, millis, hs⟩ := (h.suspend r).2 hw
    exact ⟨count, millis.map (vm.clock + ·), by rw [hs]; rfl⟩

/-! ## The other threads -/

section Others

variable {id : ThreadId} {m m' : Machine} {t : Thread} {queue wait : Option Ref}

/-- Another thread stays in its queue, or it is woken. -/
theorem Served.queue_lists (h : Served id m m') (hid : t.id ≠ id)
    (hq : ∀ r, (m.monitorAt r).queue.count t.id = if queue = some r then 1 else 0)
    (hw : t.id ∉ m.requests.woken) :
    t.id ∉ m'.requests.woken ∧
        (∀ r, (m'.monitorAt r).queue.count t.id = if queue = some r then 1 else 0) ∨
      queue ≠ none ∧ t.id ∈ m'.requests.woken ∧ ∀ r, t.id ∉ (m'.monitorAt r).queue := by
  have mem {r : Ref} : t.id ∈ (m.monitorAt r).queue ↔ queue = some r := by
    rw [← List.count_pos_iff, hq]
    split <;> simp [*]
  have before {r : Ref} (hr : t.id ∈ (m'.monitorAt r).queue) : queue = some r :=
    mem.1 (h.queue r _ hid hr)
  have zero {r : Ref} (hr : queue ≠ some r) : (m'.monitorAt r).queue.count t.id = 0 :=
    List.count_eq_zero.2 fun hm => hr (before hm)
  cases queue with
  | none =>
    refine .inl ⟨fun hw' => ?_, fun r => (zero (by simp)).trans (by simp)⟩
    rcases h.woken_of _ hw' hid with hw' | ⟨r, hr, -⟩
    · exact hw hw'
    · cases mem.1 hr
  | some r =>
    by_cases hr : t.id ∈ (m'.monitorAt r).queue
    · refine .inl ⟨fun hw' => ?_, fun r' => ?_⟩
      · rcases h.woken_of _ hw' hid with hw' | ⟨r', hr', hn⟩
        · exact hw hw'
        · cases mem.1 hr'
          exact hn hr
      · split
        · next e =>
          cases e
          have hnodup := (h.lined r).line_nodup
          rw [Monitor.line] at hnodup
          exact List.count_eq_one_of_mem (List.Nodup.of_append_right hnodup) hr
        · next e => exact zero e
    · refine .inr ⟨by simp, (h.leaves r _ hid (mem.2 rfl) hr).2, fun r' hr' => ?_⟩
      cases before hr'
      exact hr hr'

/-- Another thread stays in its wait set, or it is notified. -/
theorem Served.waiting_lists (h : Served id m m') (hid : t.id ≠ id)
    (hq : ∀ r, (m.monitorAt r).waiting.count t.id = if wait = some r then 1 else 0)
    (hw : t.id ∉ m.requests.notified) :
    t.id ∉ m'.requests.notified ∧
        (∀ r, (m'.monitorAt r).waiting.count t.id = if wait = some r then 1 else 0) ∨
      wait ≠ none ∧ t.id ∈ m'.requests.notified ∧ ∀ r, t.id ∉ (m'.monitorAt r).waiting := by
  have mem {r : Ref} : t.id ∈ (m.monitorAt r).waiting ↔ wait = some r := by
    rw [← List.count_pos_iff, hq]
    split <;> simp [*]
  have before {r : Ref} (hr : t.id ∈ (m'.monitorAt r).waiting) : wait = some r :=
    mem.1 (h.waiting r _ hid hr)
  have zero {r : Ref} (hr : wait ≠ some r) : (m'.monitorAt r).waiting.count t.id = 0 :=
    List.count_eq_zero.2 fun hm => hr (before hm)
  cases wait with
  | none =>
    refine .inl ⟨fun hw' => ?_, fun r => (zero (by simp)).trans (by simp)⟩
    rcases h.notified_of _ hw' hid with hw' | ⟨r, hr, -⟩
    · exact hw hw'
    · cases mem.1 hr
  | some r =>
    by_cases hr : t.id ∈ (m'.monitorAt r).waiting
    · refine .inl ⟨fun hw' => ?_, fun r' => ?_⟩
      · rcases h.notified_of _ hw' hid with hw' | ⟨r', hr', hn⟩
        · exact hw hw'
        · cases mem.1 hr'
          exact hn hr
      · split
        · next e =>
          cases e
          have hcount : ((Monitor.others id (m'.monitorAt r).waiting).count t.id) = 1 :=
            List.count_eq_one_of_mem (h.lined r).waiting_nodup (Monitor.mem_others.2 ⟨hr, hid⟩)
          rwa [Monitor.others, List.count_filter (by simpa using hid)] at hcount
        · next e => exact zero e
    · refine .inr ⟨by simp, h.stirs r _ hid (mem.2 rfl) hr, fun r' hr' => ?_⟩
      cases before hr'
      exact hr hr'

/-- What becomes of another thread over a turn, and of its places in queues and wait sets: nothing, or
    it leaves the queue to try to enter the monitor, or it leaves the wait set. -/
theorem Served.others (h : Served id m m') (hid : t.id ≠ id) (ht : t.Stands queue wait)
    (hl : m.Lists t.id queue wait) (hw : t.id ∉ m.requests.woken)
    (hn : t.id ∉ m.requests.notified) :
    m'.requests.wakes t = t ∧ m'.Lists t.id queue wait ∨
      m'.Lists t.id none none ∧ (m'.requests.wakes t).Running ∧ t.status ≠ .runnable ∧
        ((∃ r, queue = some r ∧ m'.requests.wakes t = t.resumed) ∨ ∃ r, wait = some r) := by
  have zero {ts : List ThreadId} (hq : t.id ∉ ts) (r : Ref) :
      ts.count t.id = if (none : Option Ref) = some r then 1 else 0 :=
    (List.count_eq_zero.2 hq).trans (if_neg nofun).symm
  rcases h.queue_lists hid hl.queue hw with ⟨hw', hq⟩ | ⟨hne, hw', hq⟩
  · rcases h.waiting_lists hid hl.waiting hn with ⟨hn', hwait⟩ | ⟨hne, hn', hwait⟩
    · exact .inl ⟨by simp [Requests.wakes, hw', hn'], hq, hwait⟩
    · have e : m'.requests.wakes t = t.notified := by simp [Requests.wakes, hw', hn']
      rw [e]
      cases ht with
      | @parked r _ _ hs hb hc he =>
        have enters : t.notified.Enters := by
          have hsame : t.notified.entry = t.entry := (Thread.Eases.notified .same).entry_eq
          exact fun p hp => he p (hsame ▸ hp)
        refine .inr ⟨⟨hq, fun r => zero (hwait r) r⟩, ?_, by simp [hs], .inr ⟨r, rfl⟩⟩
        have running : t.notified.status = .runnable ∧ t.notified.completion = none := by
          rw [Thread.notified, hb]
          exact ⟨rfl, hc⟩
        exact ⟨running.1, t.notified_blocker, running.2, enters⟩
      | _ => exact absurd rfl hne
  · cases ht with
    | @queued r hs hb hc he =>
      rcases h.waiting_lists hid hl.waiting hn with ⟨hn', hwait⟩ | ⟨hne, -⟩
      · have e : m'.requests.wakes t = t.resumed := by
          simp [Requests.wakes, hw', hn', Thread.promoted, hs]
        rw [e]
        exact .inr ⟨⟨fun r => zero (hq r) r, hwait⟩, ⟨rfl, rfl, hc, he⟩, by simp [hs],
          .inl ⟨r, rfl, rfl⟩⟩
      · exact absurd rfl hne
    | _ => exact absurd rfl hne

end Others

/-! ## Between turns -/

/-- Nothing is asked of the scheduler that would change how a thread stands. -/
structure Machine.Settled (m : Machine) : Prop where
  woken_eq : m.requests.woken = []
  notified_eq : m.requests.notified = []
  noWait : ∀ s, m.requests.suspend = some s → ¬ s.IsWait
  spawned : ∀ t ∈ m.requests.spawned, t.StartsAtRun
  original : m.Original

theorem LeavesMonitors.settled {m m' : Machine} (h : LeavesMonitors m m') (hm : m.Settled) :
    m'.Settled where
  woken_eq := h.woken_eq.trans hm.woken_eq
  notified_eq := h.notified_eq.trans hm.notified_eq
  noWait s hs hw := hm.noWait s (h.suspend s hs hw) hw
  spawned t ht := by
    obtain ⟨ts, e, hn⟩ := h.spawned
    rw [e] at ht
    exact (List.mem_append.1 ht).elim (hm.spawned t) (hn t)
  original key op e := hm.original key op (h.builtins key op e)

theorem Thread.StartsAtRun.running {t : Thread} (h : t.StartsAtRun) : t.Running := by
  obtain ⟨run, args, e, hkey⟩ := h
  rw [e]
  exact ⟨rfl, rfl, rfl, fun p hp => by cases hp; exact .inr hkey⟩

/-! ## Taking threads out of wait sets -/

theorem Machine.monitorAt_unwaited (m : Machine) (r : Ref) (id : ThreadId) (r' : Ref) :
    (m.unwaited r id).monitorAt r' = if r = r' then
      { m.monitorAt r' with waiting := (m.monitorAt r').waiting.filter (· ≠ id) }
    else m.monitorAt r' := by
  unfold unwaited monitorAt
  rw [Heap.get?_update]
  split
  · next e =>
    subst e
    cases m.heap.get? r <;> rfl
  · rfl

/-- Some threads have left wait sets, and nothing else has happened. -/
structure Unwaits (ids : List ThreadId) (m m' : Machine) : Prop where
  owner_eq : ∀ r, (m'.monitorAt r).owner = (m.monitorAt r).owner
  successor_eq : ∀ r, (m'.monitorAt r).successor = (m.monitorAt r).successor
  queue_eq : ∀ r, (m'.monitorAt r).queue = (m.monitorAt r).queue
  waiting : ∀ r u, u ∉ ids → (m'.monitorAt r).waiting.count u = (m.monitorAt r).waiting.count u
  keeps : KeepsInit m m'
  requests_eq : m'.requests = m.requests
  natives_eq : m'.natives = m.natives

namespace Unwaits

variable {ids ids' : List ThreadId} {m m' m'' : Machine}

theorem refl (ids : List ThreadId) (m : Machine) : Unwaits ids m m :=
  ⟨fun _ => rfl, fun _ => rfl, fun _ => rfl, fun _ _ _ => rfl, refl_of KeepsInit m, rfl, rfl⟩

theorem trans (h : Unwaits ids m m') (h' : Unwaits ids' m' m'') : Unwaits (ids ++ ids') m m'' where
  owner_eq r := (h'.owner_eq r).trans (h.owner_eq r)
  successor_eq r := (h'.successor_eq r).trans (h.successor_eq r)
  queue_eq r := (h'.queue_eq r).trans (h.queue_eq r)
  waiting r u hu := by
    rw [List.mem_append, not_or] at hu
    exact (h'.waiting r u hu.2).trans (h.waiting r u hu.1)
  keeps := trans_of KeepsInit h.keeps h'.keeps
  requests_eq := h'.requests_eq.trans h.requests_eq
  natives_eq := h'.natives_eq.trans h.natives_eq

end Unwaits

theorem Thread.Wakes.unwaits {clock : Nat} {ended : ThreadId → Bool} {t u : Thread} {m m' : Machine}
    (h : t.Wakes clock ended m (u, m')) : Unwaits [t.id] m m' := by
  cases h with
  | stays => exact .refl _ _
  | resumes => exact .refl _ _
  | @timesOut r =>
    refine ⟨fun r' => ?_, fun r' => ?_, fun r' => ?_, fun r' u hu => ?_,
      Vm.wakesWithin_keepsInit m r t.id, rfl, rfl⟩
    · rw [Machine.monitorAt_unwaited]
      split <;> rfl
    · rw [Machine.monitorAt_unwaited]
      split <;> rfl
    · rw [Machine.monitorAt_unwaited]
      split <;> rfl
    · rw [Machine.monitorAt_unwaited]
      split
      · exact List.count_filter (by simpa using hu)
      · rfl

theorem WakesAll.unwaits {clock : Nat} {ended : ThreadId → Bool} {ts us : List Thread}
    {m m' : Machine} (h : WakesAll clock ended ts m (us, m')) : Unwaits (ts.map Thread.id) m m' := by
  generalize hx : (us, m') = x at h
  induction h generalizing us with
  | nil =>
    cases hx
    exact .refl _ _
  | cons h _ ih =>
    cases hx
    exact h.unwaits.trans (ih rfl)

/-- A thread is in the queue and in the wait set that its status says.  If a monitor is reserved for
    it, it can run and tries to enter that monitor, and if it is blocked on one it tries to enter that
    one. -/
structure Thread.Placed (host : Host) (t : Thread) (m : Machine) : Prop where
  standing : ∃ queue wait, t.Stands queue wait ∧ m.Lists t.id queue wait
  reserved : ∀ r, (m.monitorAt r).successor = some t.id → t.status = .runnable
  tries : ∀ r, t.blocker = some (.monitor r) ∨ (m.monitorAt r).successor = some t.id →
    t.Tries host m r

namespace Thread.Placed

variable {host : Host} {t : Thread} {m m' : Machine}

/-- A thread that waits, waits for something. -/
theorem blocker_ne (h : t.Placed host m) (hs : t.status = .waiting) : t.blocker ≠ none := by
  obtain ⟨queue, wait, hstands, -⟩ := h.standing
  cases hstands with
  | running hr => cases hs.symm.trans hr.status_eq
  | queued hs' => cases hs.symm.trans hs'
  | parked _ hb => simp [hb]
  | paused _ hb => simp [hb]
  | ended hs' => cases hs.symm.trans hs'

/-- Monitors that stay as they are. -/
theorem of_same (h : t.Placed host m) (hm : ∀ r, m'.monitorAt r = m.monitorAt r)
    (hl : Later t.id m m') : t.Placed host m' where
  standing := by
    obtain ⟨queue, wait, hs, hlists⟩ := h.standing
    exact ⟨queue, wait, hs, fun r => hm r ▸ hlists.queue r, fun r => hm r ▸ hlists.waiting r⟩
  reserved r hr := h.reserved r (hm r ▸ hr)
  tries r hr := (h.tries r (hm r ▸ hr)).later hl

/-- A thread that can run and that no monitor knows. -/
theorem of_unknown (ht : t.Running) (hl : ∀ r, t.id ∉ (m.monitorAt r).line)
    (hw : ∀ r, t.id ∉ (m.monitorAt r).waiting) : t.Placed host m := by
  have unreserved (r : Ref) : (m.monitorAt r).successor ≠ some t.id := fun e =>
    hl r (List.mem_append_left _ (by simp [e]))
  refine ⟨⟨none, none, .running ht, fun r => ?_, fun r => ?_⟩, fun r hr => absurd hr (unreserved r),
    fun r hr => ?_⟩
  · rw [List.count_eq_zero.2 fun e => hl r (List.mem_append_right _ e)]
    rfl
  · rw [List.count_eq_zero.2 (hw r)]
    rfl
  · rcases hr with hr | hr
    · cases ht.blocker_eq.symm.trans hr
    · exact absurd hr (unreserved r)

/-- Another thread, after a step and what it asked for. -/
theorem served {id : ThreadId} {m'' : Machine} (h : t.Placed host m) (hserved : Served id m m')
    (hid : t.id ≠ id) (hm : m.Settled) (hsame : ∀ r, m''.monitorAt r = m'.monitorAt r)
    (hl : Later t.id m m'') : (m'.requests.wakes t).Placed host m'' := by
  obtain ⟨queue, wait, hs, hlists⟩ := h.standing
  have hid' := (m'.requests.wakes_eases t).id_eq
  have listed {queue wait : Option Ref} (hl : m'.Lists t.id queue wait) : m''.Lists t.id queue wait :=
    ⟨fun r => hsame r ▸ hl.queue r, fun r => hsame r ▸ hl.waiting r⟩
  -- whoever has a reservation had it before, or comes from the queue
  have succeeds {r : Ref} (hr : (m''.monitorAt r).successor = some t.id) :
      t.status = .runnable ∧ t.Tries host m r ∨ queue = some r ∧ t.Tries host m r ∧
        t.id ∉ (m'.monitorAt r).queue := by
    rw [hsame] at hr
    rcases hserved.succeeds r _ hid hr with hr' | hq
    · exact .inl ⟨h.reserved r hr', h.tries r (.inr hr')⟩
    · have hqueue : queue = some r := by
        have := hlists.queue r
        by_contra hne
        rw [if_neg hne] at this
        exact List.count_eq_zero.1 this hq
      subst hqueue
      cases hs with
      | queued _ hb => exact .inr ⟨rfl, h.tries r (.inl hb), (hserved.lined r).not_mem_queue hr⟩
  rcases hserved.others hid hs hlists (by simp [hm.woken_eq]) (by simp [hm.notified_eq]) with
    ⟨e, hlists'⟩ | ⟨hlists', hrun, hne, hcase⟩
  · rw [e]
    have waits {r : Ref} (hr : (m''.monitorAt r).successor = some t.id) :
        t.status = .runnable ∧ t.Tries host m r := by
      rcases succeeds hr with hr | ⟨rfl, -, hn⟩
      · exact hr
      · have := hlists'.queue r
        rw [if_pos rfl, List.count_eq_zero.2 hn] at this
        cases this
    refine ⟨⟨queue, wait, hs, listed hlists'⟩, fun r hr => (waits hr).1, fun r hr => ?_⟩
    rcases hr with hr | hr
    · exact (h.tries r (.inl hr)).later hl
    · exact (waits hr).2.later hl
  · refine ⟨⟨none, none, .running hrun, hid' ▸ listed hlists'⟩, fun _ _ => hrun.status_eq,
      fun r hr => ?_⟩
    rcases hr with hr | hr
    · cases hrun.blocker_eq.symm.trans hr
    · rcases succeeds (hid' ▸ hr) with ⟨hr, -⟩ | ⟨rfl, htries, -⟩
      · exact absurd hr hne
      · rcases hcase with ⟨_, -, e⟩ | ⟨_, rfl⟩
        · rw [e]
          have again : t.resumed.Tries host m r := htries.of_same rfl rfl rfl
          exact again.later hl
        · cases hs

/-! ### Waking -/

/-- A thread and a machine, after waking. -/
theorem wakes {clock : Nat} {ended : ThreadId → Bool} {u : Thread} (h : t.Placed host m)
    (hw : t.Wakes clock ended m (u, m')) : u.Placed host m' := by
  obtain ⟨queue, wait, hs, hlists⟩ := h.standing
  have unreserved (hw : t.status = .waiting) (r : Ref) : (m.monitorAt r).successor ≠ some t.id :=
    fun e => nomatch hw.symm.trans (h.reserved r e)
  cases hw with
  | stays => exact h
  | resumes hw hb hnw =>
    have hrun : t.resumed.Running ∧ queue = none ∧ wait = none := by
      cases hs with
      | paused _ _ _ hc he => exact ⟨⟨rfl, rfl, hc, he⟩, rfl, rfl⟩
      | parked _ hb' => cases hb.symm.trans hb'; exact absurd rfl (hnw _ _ _)
      | running hr => cases hw.symm.trans hr.status_eq
      | queued hs' => cases hw.symm.trans hs'
      | ended hs' => cases hw.symm.trans hs'
    obtain ⟨hrun, rfl, rfl⟩ := hrun
    refine ⟨⟨none, none, .running hrun, hlists⟩, fun _ _ => rfl, fun r hr => ?_⟩
    rcases hr with hr | hr
    · cases hr
    · exact absurd hr (unreserved hw r)
  | @timesOut r count deadline hw hb =>
    have hid := t.notified_id.1
    have hparked : t.notified.Running ∧ queue = none ∧ wait = some r := by
      cases hs with
      | parked _ hb' hc he =>
        cases hb.symm.trans hb'
        rw [Thread.notified, hb]
        exact ⟨⟨rfl, rfl, hc, he⟩, rfl, rfl⟩
      | paused _ hb' hp => cases hb.symm.trans hb'; exact hp.elim
      | running hr => cases hw.symm.trans hr.status_eq
      | queued hs' => cases hw.symm.trans hs'
      | ended hs' => cases hw.symm.trans hs'
    obtain ⟨hrun, rfl, rfl⟩ := hparked
    refine ⟨⟨none, none, .running hrun, fun r' => ?_, fun r' => ?_⟩, fun _ _ => hrun.status_eq,
      fun r' hr => ?_⟩
    · rw [hid, Machine.monitorAt_unwaited]
      split <;> exact hlists.queue r'
    · rw [hid, Machine.monitorAt_unwaited]
      split
      · exact List.count_eq_zero.2 (by simp)
      · next e => rw [hlists.waiting r', if_neg fun e' => e (Option.some.inj e')]; rfl
    · rcases hr with hr | hr
      · cases hrun.blocker_eq.symm.trans hr
      · rw [hid, Machine.monitorAt_unwaited] at hr
        refine absurd ?_ (unreserved hw r')
        split at hr <;> exact hr

/-- Other threads have left wait sets. -/
theorem unwaits {ids : List ThreadId} (h : t.Placed host m) (hu : Unwaits ids m m')
    (ht : t.id ∉ ids) : t.Placed host m' where
  standing := by
    obtain ⟨queue, wait, hs, hlists⟩ := h.standing
    exact ⟨queue, wait, hs, fun r => hu.queue_eq r ▸ hlists.queue r,
      fun r => (hu.waiting r t.id ht).trans (hlists.waiting r)⟩
  reserved r hr := h.reserved r (hu.successor_eq r ▸ hr)
  tries r hr := (h.tries r (hu.successor_eq r ▸ hr)).later (.of_keeps hu.keeps)

end Thread.Placed

/-- All threads, after waking. -/
theorem WakesAll.placed {host : Host} {clock : Nat} {ended : ThreadId → Bool} {ts us : List Thread}
    {m m' : Machine} (h : WakesAll clock ended ts m (us, m')) (hd : (ts.map Thread.id).Nodup)
    (hp : ∀ t ∈ ts, t.Placed host m) : ∀ u ∈ us, u.Placed host m' := by
  generalize hx : (us, m') = x at h
  induction h generalizing us with
  | nil =>
    cases hx
    exact fun _ hu => nomatch hu
  | @cons t u ts us m m₁ m₂ hw hrest ih =>
    cases hx
    rw [List.map_cons, List.nodup_cons] at hd
    have hu : u.Placed host m₁ := (hp t (List.mem_cons_self ..)).wakes hw
    have hid : u.id = t.id := by
      cases hw with
      | stays => rfl
      | resumes => rfl
      | timesOut => exact t.notified_id.1
    intro v hv
    rcases List.mem_cons.1 hv with rfl | hv
    · exact hu.unwaits hrest.unwaits (hid ▸ hd.1)
    · refine ih hd.2 (fun t' ht' => ?_) rfl v hv
      refine (hp t' (List.mem_cons_of_mem _ ht')).unwaits hw.unwaits fun e => ?_
      exact hd.1 (List.mem_singleton.1 e ▸ List.mem_map_of_mem ht')

namespace Vm

variable {host : Host} {vm vm' : Vm} {lost : List (String × ThreadId)} {t : Thread} {r : Ref}

/-- Between turns, every thread is where its status says, and the monitors that are reserved are
    free. -/
structure Placed (host : Host) (vm : Vm) : Prop where
  free : ∀ r, (vm.machine.monitorAt r).successor ≠ none → (vm.machine.monitorAt r).owner = none
  known : ∀ r u, u ∈ (vm.machine.monitorAt r).line ∨ u ∈ (vm.machine.monitorAt r).waiting → u ∈ vm.ids
  threads : ∀ t ∈ vm.threads, t.Placed host vm.machine
  settled : vm.machine.Settled

theorem mem_ids (ht : t ∈ vm.threads) : t.id ∈ vm.ids :=
  List.mem_map_of_mem (Array.mem_toList_iff.2 ht)

theorem exists_of_mem_ids {id : ThreadId} (h : id ∈ vm.ids) : ∃ t ∈ vm.threads, t.id = id := by
  obtain ⟨t, ht, e⟩ := List.mem_map.1 h
  exact ⟨t, Array.mem_toList_iff.1 ht, e⟩

namespace Placed

theorem waiting_nodup (h : Placed host vm) (r : Ref) : (vm.machine.monitorAt r).waiting.Nodup := by
  refine List.nodup_iff_count_le_one.2 fun u => ?_
  by_cases hu : u ∈ (vm.machine.monitorAt r).waiting
  · obtain ⟨t, ht, rfl⟩ := exists_of_mem_ids (h.known r u (.inr hu))
    obtain ⟨queue, wait, -, hl⟩ := (h.threads t ht).standing
    rw [hl.waiting]
    split <;> omega
  · rw [List.count_eq_zero.2 hu]
    omega

/-- All monitors are in order. -/
theorem lined (h : Placed host vm) (id : ThreadId) : vm.machine.Lined id := by
  have listed {u : ThreadId} (hu : u ∈ vm.ids) : ∃ queue wait, vm.machine.Lists u queue wait ∧
      ∀ r, (vm.machine.monitorAt r).successor = some u → queue = none := by
    obtain ⟨t, ht, rfl⟩ := exists_of_mem_ids hu
    obtain ⟨queue, wait, hs, hl⟩ := (h.threads t ht).standing
    exact ⟨queue, wait, hl, fun r hr => (hs.of_running ((h.threads t ht).reserved r hr)).2.1⟩
  intro r
  have queue_nodup : (vm.machine.monitorAt r).queue.Nodup := by
    refine List.nodup_iff_count_le_one.2 fun u => ?_
    by_cases hu : u ∈ (vm.machine.monitorAt r).queue
    · obtain ⟨queue, wait, hl, -⟩ := listed (h.known r u (.inl (List.mem_append_right _ hu)))
      rw [hl.queue]
      split <;> omega
    · rw [List.count_eq_zero.2 hu]
      omega
  refine ⟨?_, ?_, h.free r⟩
  · rw [Monitor.line]
    cases hs : (vm.machine.monitorAt r).successor with
    | none => exact queue_nodup
    | some u =>
      refine List.nodup_cons.2 ⟨fun hu => ?_, queue_nodup⟩
      obtain ⟨queue, wait, hl, hnone⟩ := listed (h.known r u (.inl (List.mem_append_right _ hu)))
      cases hnone r hs
      exact hl.not_mem_queue r hu
  · exact (h.waiting_nodup r).filter _

/-- A thread that can run is in no queue and in no wait set. -/
theorem finds (h : Placed host vm) (ht : t ∈ vm.threads) (hs : t.status = .runnable) :
    t.Running ∧ vm.machine.Finds t.id none none := by
  obtain ⟨queue, wait, hstands, hl⟩ := (h.threads t ht).standing
  obtain ⟨hr, rfl, rfl⟩ := hstands.of_running hs
  refine ⟨hr, hl, by simp [h.settled.woken_eq], by simp [h.settled.notified_eq], fun r => ?_⟩
  refine ⟨fun ⟨count, millis, e⟩ => ?_, nofun⟩
  exact absurd trivial (h.settled.noWait _ e)

/-- Quiet work between turns, and new threads that can run. -/
theorem append (h : Placed host vm) {new : Array Thread} (hd : vm'.ids.Nodup)
    (hthreads : vm'.threads = vm.threads ++ new) (hl : LeavesMonitors vm.machine vm'.machine)
    (hk : KeepsInit vm.machine vm'.machine) (hnew : ∀ t ∈ new, t.Running) : Placed host vm' := by
  have hids : vm'.ids = vm.ids ++ new.toList.map Thread.id := by simp [ids, hthreads]
  have hm := hl.monitorAt_eq
  refine
    { free := fun r => by rw [hm]; exact h.free r
      known := fun r u hu => ?_
      threads := fun u hu => ?_
      settled := hl.settled h.settled }
  · rw [hm] at hu
    rw [hids]
    exact List.mem_append_left _ (h.known r u hu)
  · rw [hthreads] at hu
    rcases Array.mem_append.1 hu with hu | hu
    · exact (h.threads u hu).of_same hm (.of_keeps hk)
    · have fresh : u.id ∉ vm.ids := fun e =>
        List.disjoint_of_nodup_append (hids ▸ hd) e (List.mem_map_of_mem (Array.mem_toList_iff.2 hu))
      exact .of_unknown (hnew u hu) (fun r e => fresh (h.known r _ (.inl (hm r ▸ e))))
        fun r e => fresh (h.known r _ (.inr (hm r ▸ e)))

/-! ### A turn -/

/-- After its step, a thread has no reservation left. -/
theorem step_successor (hh : host.Within LeavesMonitors) (hk : host.Within KeepsInit)
    (h : Placed host vm) (hg : vm.machine.Grounded) (ht : t ∈ vm.threads)
    (hs : t.status = .runnable) (r : Ref) :
    (((t.step host).run vm.machine).2.monitorAt r).successor ≠ some t.id := by
  obtain ⟨hrun, hf⟩ := h.finds ht hs
  have carried {m : Machine} (hf : m.Finds t.id none none)
      (hl : Lands host t.id m (.ok (), (t.step host).run vm.machine))
      (hr : (((t.step host).run vm.machine).2.monitorAt r).successor = some t.id) :
      (m.monitorAt r).successor = some t.id := by
    generalize (t.step host).run vm.machine = s at hl hr
    cases hl with
    | goes _ _ hm => exact hm.successor hf r hr
    | blocks _ _ _ hm => exact hm.successor hf r hr
    | waits _ _ hm => exact hm.successor hf r hr
  intro hr
  -- a reservation would be one that the step had found, and then it would have taken it
  have hr₀ := carried hf (Thread.step_lands hh hk hg h.settled.original hrun) hr
  obtain ⟨m₁, ⟨hm₁, hnone⟩, hlands⟩ := Thread.step_lands_tries hh hrun ((h.threads t ht).tries r (.inr hr₀)) hr₀
    (h.free r (by simp [hr₀]))
  have hr₁ := carried (hm₁.finds hf) hlands hr
  cases hnone.symm.trans hr₁

/-- A thread after its step and what it asked for. -/
theorem step_placed (hh : host.Within LeavesMonitors) (hk : host.Within KeepsInit)
    (h : Placed host vm) (hg : vm.machine.Grounded) (ht : t ∈ vm.threads)
    (hs : t.status = .runnable) (vm' : Vm) :
    ((((t.step host).run vm.machine).2.requests.wakes ((t.step host).run vm.machine).1).pausing
      (((t.step host).run vm.machine).2.requests.suspend.bind vm'.blockerFor?)).Placed host
        ((t.step host).run vm.machine).2 := by
  obtain ⟨hrun, hf⟩ := h.finds ht hs
  have hl := Thread.step_lands hh hk hg h.settled.original hrun
  have hunreserved := h.step_successor hh hk hg ht hs
  generalize (t.step host).run vm.machine = s at hl hunreserved ⊢
  obtain ⟨u, m'⟩ := s
  -- nothing was reported of the thread itself
  have same {queue wait : Option Ref} (hid : u.id = t.id) (hf : m'.Finds t.id queue wait) :
      m'.requests.wakes u = u := by
    simp [Requests.wakes, hid, hf.woken, hf.notified]
  have hpausing (b : Option Blocker) : (u.pausing b).id = u.id := by
    cases b with
    | none => rfl
    | some b => exact (u.suspended_id b).1
  have placed {v : Thread} {queue wait : Option Ref} (hid : v.id = t.id) (hv : v.Stands queue wait)
      (hl : m'.Lists t.id queue wait) (htries : ∀ r, queue = some r → v.Tries host m' r) :
      v.Placed host m' := by
    refine ⟨⟨queue, wait, hv, hid ▸ hl⟩, fun r hr => absurd (hid ▸ hr) (hunreserved r), fun r hr => ?_⟩
    rcases hr with hr | hr
    · exact htries r (hv.queue_eq hr)
    · exact absurd (hid ▸ hr) (hunreserved r)
  cases hl with
  | goes hid hu hm =>
    have hf' := hm.finds hf
    rw [same hid hf']
    exact placed ((hpausing _).trans hid) (hu.pausing ((hf'.blocker vm').1 rfl)) hf'.toLists nofun
  | @blocks _ _ r hid hu htries hm =>
    have hf' := hm.finds hf
    have still : u.pausing (m'.requests.suspend.bind vm'.blockerFor?) = u := by
      cases m'.requests.suspend.bind vm'.blockerFor? with
      | none => rfl
      | some b =>
        cases hu with
        | queued hs' => exact if_neg (by simp [hs'])
    rw [same hid hf', still]
    exact placed hid hu hf'.toLists fun r' e => Option.some.inj e ▸ htries
  | waits hid hu hm =>
    have hf' := hm.finds hf
    obtain ⟨count, deadline, hb⟩ := (hf'.blocker vm').2 _ rfl
    rw [same hid hf']
    exact placed ((hpausing _).trans hid) (hb ▸ hu.parking) hf'.toLists nofun

/-- A turn of one thread. -/
theorem runThread (hh : host.Within LeavesMonitors) (hk : host.Within KeepsInit)
    (h : Placed host vm) (hi : Initializing lost vm) {index : Nat}
    (ht : vm.threads[index]? = some t) (hs : t.status = .runnable)
    (hd : (vm.runThread host index).ids.Nodup) : Placed host (vm.runThread host index) := by
  have hmem := Array.mem_of_getElem? ht
  have hids := runThread_ids host ht
  rw [hids] at hd
  have hd' : vm.ids.Nodup := List.Nodup.of_append_left hd
  have hserved := Thread.step_serves hh t vm.machine (h.lined t.id)
  obtain ⟨vm', -, -, hget⟩ := runThread_settles host hd' ht
  have hself := h.step_placed hh hk hi.machine hmem hs vm'
  obtain ⟨-, -, ⟨es, hpath⟩, -⟩ := hi.runThread hk ht hs
  have hm := (runThread_spec host ht).1
  generalize (t.step host).run vm.machine = s at *
  have hmon (r : Ref) : (vm.runThread host index).machine.monitorAt r = s.2.monitorAt r := by
    rw [hm]
    rfl
  have hclear : KeepsInit s.2 (vm.runThread host index).machine := hm ▸ KeepsInit.cleared s.2
  -- whoever is in a queue or a wait set now is one of the threads there were
  have known (r : Ref) (u : ThreadId) (hu : u ∈ (s.2.monitorAt r).line ∨ u ∈ (s.2.monitorAt r).waiting) :
      u ∈ vm.ids := by
    by_cases e : u = t.id
    · exact e ▸ mem_ids hmem
    rcases hu with hu | hu
    · rcases List.mem_append.1 hu with hu | hu
      · have hu : (s.2.monitorAt r).successor = some u := by simpa using hu
        rcases hserved.succeeds r u e hu with hu | hu
        · exact h.known r u (.inl (List.mem_append_left _ (by simp [hu])))
        · exact h.known r u (.inl (List.mem_append_right _ hu))
      · exact h.known r u (.inl (List.mem_append_right _ (hserved.queue r u e hu)))
    · exact h.known r u (.inr (hserved.waiting r u e hu))
  refine
    { free := fun r => by rw [hmon]; exact (hserved.lined r).free_of_successor
      known := fun r u hu => ?_
      threads := fun u hu => ?_
      settled := ?_ }
  · rw [hids]
    exact List.mem_append_left _ (known r u (hmon r ▸ hu))
  · obtain ⟨j, hj⟩ := Array.getElem?_of_mem hu
    rcases hget hj with ⟨hne, v, hv, rfl⟩ | ⟨rfl, rfl⟩ | hnew
    · have hid : v.id ≠ t.id := fun e => hne (index_eq hd' hv ht e)
      exact (h.threads v (Array.mem_of_getElem? hv)).served hserved hid h.settled hmon
        (.of_path hpath (Ne.symm hid))
    · exact hself.of_same hmon (.of_keeps hclear)
    · obtain ⟨ts, e, hn⟩ := hserved.spawned
      have hu' := hnew
      rw [e] at hu'
      have hrun := ((List.mem_append.1 hu').elim (h.settled.spawned u) (hn u)).running
      have fresh : u.id ∉ vm.ids := fun hu' =>
        List.disjoint_of_nodup_append hd hu' (List.mem_map_of_mem hnew)
      exact .of_unknown hrun (fun r e => fresh (known r _ (.inl (hmon r ▸ e))))
        fun r e => fresh (known r _ (.inr (hmon r ▸ e)))
  · rw [hm]
    refine ⟨rfl, rfl, fun s hs => ?_, fun u hu => ?_, fun key op e => ?_⟩
    · cases hs
    · cases hu
    · exact h.settled.original key op (hserved.builtins key op e)

/-- Waking, and choosing a thread. -/
theorem choose (h : Placed host vm) (hd : vm.ids.Nodup) : Placed host vm.choose.2 := by
  have kept : vm.choose.2.ids.Nodup ∧ Placed host vm.choose.2 := by
    refine choose_keeps (P := fun vm => vm.ids.Nodup ∧ Placed host vm) (fun vm ⟨hd, h⟩ => ?_)
      (fun vm clock ⟨hd, h⟩ => ⟨hd, h.free, h.known, h.threads, h.settled⟩) ⟨hd, h⟩
    have hwakes := vm.wakeDue_wakes
    have hu := hwakes.unwaits
    have hids : vm.wakeDue.ids = vm.ids := (wakeDue_eased wakesWithin_anything vm).1.ids_eq
    refine ⟨hids ▸ hd,
      { free := fun r => by rw [hu.successor_eq, hu.owner_eq]; exact h.free r
        known := fun r u hm => ?_
        threads := fun t ht => ?_
        settled := ?_ }⟩
    · rw [hids]
      by_contra hne
      rw [Monitor.line, hu.successor_eq, hu.queue_eq] at hm
      rcases hm with hm | hm
      · exact hne (h.known r u (.inl hm))
      · have := hu.waiting r u hne
        refine hne (h.known r u (.inr (List.count_pos_iff.1 ?_)))
        rw [← this]
        exact List.count_pos_iff.2 hm
    · exact hwakes.placed hd (fun t ht => h.threads t (Array.mem_toList_iff.1 ht)) t
        (Array.mem_toList_iff.2 ht)
    · exact
        { woken_eq := by rw [hu.requests_eq]; exact h.settled.woken_eq
          notified_eq := by rw [hu.requests_eq]; exact h.settled.notified_eq
          noWait := by rw [hu.requests_eq]; exact h.settled.noWait
          spawned := by rw [hu.requests_eq]; exact h.settled.spawned
          original := by rw [Machine.Original, hu.natives_eq]; exact h.settled.original }
  exact kept.2

/-- Who has a reservation keeps it while a thread is chosen. -/
theorem choose_successor (vm : Vm) (r : Ref) :
    (vm.choose.2.machine.monitorAt r).successor = (vm.machine.monitorAt r).successor :=
  choose_keeps (P := fun vm' => (vm'.machine.monitorAt r).successor = (vm.machine.monitorAt r).successor)
    (fun vm' h => (vm'.wakeDue_wakes.unwaits.successor_eq r).trans h) (fun _ _ h => h) rfl

/-! ### Runs -/

theorem act_leavesMonitors {a : Action} (ha : a ≠ .turn) :
    LeavesMonitors vm.machine (vm.act host a).machine := by
  refine act_within Exec.issueThreadId_threaded Exec.newThreadObject_threaded
    (fun m className methodName descriptor function => ?_) ha
  refine ⟨fun _ => rfl, rfl, rfl, fun _ e _ => e, ⟨[], by simp, by simp⟩, fun key op e => ?_⟩
  rw [Natives.register, Table.get?_put] at e
  split at e
  · cases e
  · exact e

theorem act_keepsInit {a : Action} (ha : a ≠ .turn) : KeepsInit vm.machine (vm.act host a).machine :=
  act_within Exec.issueThreadId_within Exec.newThreadObject_within
    (fun _ _ _ _ _ => KeepsInit.register _ _ _ _ _) ha

theorem act (hh : host.Within LeavesMonitors) (hk : host.Within KeepsInit) (h : Placed host vm)
    (hi : Initializing lost vm) (a : Action) (hd : (vm.act host a).ids.Nodup) :
    Placed host (vm.act host a) := by
  by_cases ha : a = .turn
  · subst ha
    have hd' : vm.ids.Nodup := hd.sublist (act_ids host vm .turn).sublist
    obtain ⟨heased, hkeeps⟩ := choose_eased wakesWithin_keepsInit vm
    show Placed host (vm.turn host).2
    rcases turn_cases host vm with ⟨-, e | e⟩ | ⟨index, t, -, ht, hs, e⟩
    · rw [e]
      exact h
    · rw [e]
      exact h.choose hd'
    · rw [show vm.act host .turn = _ from e] at hd
      rw [e]
      exact (h.choose hd').runThread hh hk (hi.eased heased hkeeps) ht hs hd
  · obtain ⟨machine, new, e, hnew⟩ := act_appends host vm ha
    refine h.append hd (by rw [e]) (act_leavesMonitors ha) (act_keepsInit ha) fun t ht => ?_
    obtain ⟨id, name, method, args, rfl, hstatic⟩ := hnew t ht
    exact ⟨rfl, rfl, rfl, fun p hp => by cases hp; exact .inl hstatic⟩

theorem after (hh : host.Within LeavesMonitors) (hk : host.Within KeepsInit) {as : List Action}
    (h : Placed host vm) (hi : Initializing lost vm) (hd : (vm.after host as).ids.Nodup) :
    Placed host (vm.after host as) := by
  induction as generalizing vm lost with
  | nil => exact h
  | cons a as ih =>
    obtain ⟨_, _, _, hi', -⟩ := hi.act hk a
    have hd' : (vm.act host a).ids.Nodup := hd.sublist (after_ids host _ as).sublist
    exact ih (h.act hh hk hi a hd') hi' hd

theorem boot (host : Host) (config : Config) (classPath : Table String ClassFile) (wallClock : Nat) :
    Placed host (.boot config classPath wallClock) where
  free r := by rw [monitorAt_boot]; exact fun h => absurd rfl h
  known r u hu := by rw [monitorAt_boot] at hu; rcases hu with hu | hu <;> cases hu
  threads t ht := by simp [Vm.boot] at ht
  settled :=
    { woken_eq := rfl
      notified_eq := rfl
      noWait := fun _ hs => by cases hs
      spawned := fun _ ht => by cases ht
      original := fun _ _ e => by exact e }

/-- A reservation lasts until its thread has a turn. -/
theorem act_successor (hh : host.Within LeavesMonitors) (h : Placed host vm)
    {a : Action} {j : Nat} {t : Thread} {r : Ref} (hd : (vm.act host a).ids.Nodup)
    (ht : vm.threads[j]? = some t) (hs : (vm.machine.monitorAt r).successor = some t.id)
    (hj : j ∉ vm.given host [a]) :
    ((vm.act host a).machine.monitorAt r).successor = some t.id ∧
      ∃ u, (vm.act host a).threads[j]? = some u ∧ u.id = t.id := by
  have hput : ∃ u, (vm.act host a).threads[j]? = some u ∧ u.id = t.id := by
    have hget : vm.ids[j]? = some t.id := by
      rw [ids, List.getElem?_map, Array.getElem?_toList, ht]
      rfl
    obtain ⟨more, e⟩ := act_ids host vm a
    have hget' : (vm.act host a).ids[j]? = some t.id := by
      rw [← e, List.getElem?_append_left (List.getElem?_eq_some_iff.1 hget).1, hget]
    rw [ids, List.getElem?_map, Array.getElem?_toList] at hget'
    exact Option.map_eq_some_iff.1 hget'
  refine ⟨?_, hput⟩
  by_cases ha : a = .turn
  · subst ha
    have hd' : vm.ids.Nodup := hd.sublist (act_ids host vm .turn).sublist
    have hchosen := (choose_successor vm r).trans hs
    show ((vm.turn host).2.machine.monitorAt r).successor = some t.id
    rcases hp : vm.picked? with _ | index
    · rcases turn_of_not_picked host hp with ⟨-, e⟩ | ⟨-, -, e⟩ <;> rw [e]
      · exact hs
      · exact hchosen
    · obtain ⟨-, hc, e⟩ := turn_of_picked host hp
      obtain ⟨v, hv, -⟩ := choose_runnable vm hc
      have hne : t.id ≠ v.id := by
        obtain ⟨u, hu, htu⟩ := (choose_eased wakesWithin_anything vm).1.get?_of_get? ht
        intro e
        have hindex := index_eq ((choose_ids vm).symm ▸ hd') hu hv (htu.id_eq.trans e)
        refine hj ?_
        rw [given, if_pos rfl, hp, hindex]
        exact List.mem_cons_self ..
      rw [e, (runThread_spec host hv).1]
      exact (Thread.step_serves hh v _ ((h.choose hd').lined v.id)).successor r t.id hne hchosen
  · rw [(act_leavesMonitors ha).monitorAt_eq]
    exact hs

end Placed

end Vm

end GreenVm
