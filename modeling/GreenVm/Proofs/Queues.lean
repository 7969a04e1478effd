/-
  Who is in the queues and wait sets of the monitors, and what a step of one thread changes about
  that for the others.

  * `LeavesMonitors`: a relation between machines, of work that has nothing to do with monitors.
  * `Serves id`: a relation between machines, of what a step of thread `id` may do to monitors.  Other
    threads never join a queue or a wait set.  One that is taken out of a queue becomes the successor
    and is reported to be woken, and one that is taken out of a wait set is reported to be notified.
  * `Thread.step_serves`: every step of a thread stays within it, however it ends.
-/
import GreenVm.Proofs.Quiet.Steps
import GreenVm.Proofs.Locks

namespace GreenVm

/-! ## Work that leaves monitors alone -/

/-- A thread that has not run yet and is to call a `run` method. -/
def Thread.StartsAtRun (t : Thread) : Prop :=
  ∃ run args, t = .starting t.id t.name run args ∧ run.method.key = "run()V"

/-- No monitor has changed and nobody is woken or notified, no wait was asked for, new threads have
    not run, and no built-in native has come to stand for another method. -/
structure LeavesMonitors (m m' : Machine) : Prop where
  monitorAt_eq : ∀ r, m'.monitorAt r = m.monitorAt r
  woken_eq : m'.requests.woken = m.requests.woken
  notified_eq : m'.requests.notified = m.requests.notified
  suspend : ∀ s, m'.requests.suspend = some s → s.IsWait → m.requests.suspend = some s
  spawned : ∃ ts, m'.requests.spawned = m.requests.spawned ++ ts ∧ ∀ t ∈ ts, t.StartsAtRun
  builtins : ∀ key op, m'.natives.table.get? key = some (.builtin op) →
    m.natives.table.get? key = some (.builtin op)

namespace LeavesMonitors

variable {m m' m'' : Machine}

theorem of_same (h : ∀ r, m'.monitorAt r = m.monitorAt r) (hq : m'.requests = m.requests)
    (hn : m'.natives = m.natives) : LeavesMonitors m m' where
  monitorAt_eq := h
  woken_eq := by rw [hq]
  notified_eq := by rw [hq]
  suspend s e _ := hq ▸ e
  spawned := ⟨[], by simp [hq], by simp⟩
  builtins key op e := hn ▸ e

theorem refl (m : Machine) : LeavesMonitors m m := of_same (fun _ => rfl) rfl rfl

theorem trans (h : LeavesMonitors m m') (h' : LeavesMonitors m' m'') : LeavesMonitors m m'' where
  monitorAt_eq r := (h'.monitorAt_eq r).trans (h.monitorAt_eq r)
  woken_eq := h'.woken_eq.trans h.woken_eq
  notified_eq := h'.notified_eq.trans h.notified_eq
  suspend s e hw := h.suspend s (h'.suspend s e hw) hw
  spawned := Thread.exists_added_trans h.spawned h'.spawned
  builtins key op e := h.builtins key op (h'.builtins key op e)

/-- Who leaves the monitors alone leaves their owners alone. -/
theorem leavesLocks (h : LeavesMonitors m m') : LeavesLocks m m' where
  owner_eq r := by rw [h.monitorAt_eq]
  count_eq r := by rw [h.monitorAt_eq]
  spawned := by
    obtain ⟨ts, e, hn⟩ := h.spawned
    refine ⟨ts, e, fun t ht => ?_⟩
    obtain ⟨run, args, e, -⟩ := hn t ht
    exact ⟨run, args, e⟩
  suspend := h.suspend

/-- Asking the scheduler for something else than to wake or to notify a thread, or to wait. -/
theorem asks {q : Requests} (hw : q.woken = m.requests.woken)
    (hn : q.notified = m.requests.notified)
    (hs : ∀ s, q.suspend = some s → s.IsWait → m.requests.suspend = some s)
    (ht : ∃ ts, q.spawned = m.requests.spawned ++ ts ∧ ∀ t ∈ ts, t.StartsAtRun) :
    LeavesMonitors m { m with requests := q } :=
  ⟨fun _ => rfl, hw, hn, hs, ht, fun _ _ e => e⟩

instance : Threaded LeavesMonitors where
  refl := .refl
  trans _ _ _ := .trans
  load _ _ := .of_same (fun _ => rfl) rfl rfl
  setStatics _ _ _ := .of_same (fun _ => rfl) rfl rfl
  create _ _ h _ := .of_same (Machine.monitorAt_allocate h.monitor_eq) rfl rfl
  update _ _ _ h _ := .of_same (Machine.monitorAt_update fun o ho => (h o ho).monitor_eq) rfl rfl
  intern _ _ _ _ h _ _ _ := .of_same (Machine.monitorAt_allocate h.monitor_eq) rfl rfl
  classObject _ _ _ _ h _ _ _ := .of_same (Machine.monitorAt_allocate h.monitor_eq) rfl rfl
  print _ _ _ := .of_same (fun _ => rfl) rfl rfl
  attach _ _ _ := .of_same (Machine.monitorAt_update fun _ _ => rfl) rfl rfl
  bind _ _ _ := .of_same (fun _ => rfl) rfl rfl
  pause m s h := by
    refine .asks rfl rfl (fun s' e hw => ?_) ⟨[], by simp, by simp⟩
    cases e
    cases s with
    | wait r count millis => exact absurd rfl (h r count millis)
    | _ => cases hw
  finish _ _ := .asks rfl rfl (fun _ e _ => e) ⟨[], by simp, by simp⟩
  start _ _ _ _ _ hkey := by
    refine .asks rfl rfl (fun _ e _ => e) ⟨_, rfl, fun t ht => ?_⟩
    rw [List.mem_singleton.1 ht]
    exact ⟨_, _, rfl, hkey⟩

instance : StoresBytes LeavesMonitors where
  storeByte _ _ _ _ _ _ _ := .of_same (Machine.monitorAt_update fun _ _ => rfl) rfl rfl

instance : Initializes LeavesMonitors where
  setInit _ _ _ := .of_same (fun _ => rfl) rfl rfl

end LeavesMonitors

/-- An embedder whose natives leave monitors alone. -/
theorem Host.within_leavesLocks {host : Host} (hh : host.Within LeavesMonitors) :
    host.Within LeavesLocks :=
  hh.mono fun _ _ => LeavesMonitors.leavesLocks

/-! ## One monitor -/

namespace Monitor

/-- Some threads without one of them. -/
def others (id : ThreadId) (ts : List ThreadId) : List ThreadId := ts.filter (· ≠ id)

@[simp] theorem mem_others {id u : ThreadId} {ts : List ThreadId} :
    u ∈ others id ts ↔ u ∈ ts ∧ u ≠ id := by simp [others]

/-- What holds of the queue, the successor and the waiters, one thread aside, however that thread uses
    the monitor. -/
structure Lined (id : ThreadId) (m : Monitor) : Prop where
  line_nodup : m.line.Nodup
  waiting_nodup : (others id m.waiting).Nodup
  free_of_successor : m.successor ≠ none → m.owner = none

/-- What the use of a monitor by thread `id` means to the others: some are promoted from the head of
    the queue to successor, and some are taken out of the wait set. -/
structure Served (id : ThreadId) (promoted notified : List ThreadId) (m m' : Monitor) : Prop where
  lined : m'.Lined id
  queue : ∀ u, u ≠ id → u ∈ m'.queue → u ∈ m.queue
  leaves : ∀ u, u ≠ id → u ∈ m.queue → u ∉ m'.queue → m'.successor = some u ∧ u ∈ promoted
  successor : ∀ u, u ≠ id → m.successor = some u → m'.successor = some u
  succeeds : ∀ u, u ≠ id → m'.successor = some u → m.successor = some u ∨ u ∈ m.queue
  waiting : ∀ u, u ≠ id → u ∈ m'.waiting → u ∈ m.waiting
  stirs : ∀ u, u ≠ id → u ∈ m.waiting → u ∉ m'.waiting → u ∈ notified
  promoted_of : ∀ u ∈ promoted, u ∈ m.queue ∧ u ∉ m'.queue
  notified_of : ∀ u ∈ notified, u ≠ id → u ∈ m.waiting ∧ u ∉ m'.waiting

variable {m m' : Monitor} {id : ThreadId}

theorem Lined.successor_eq_none (h : m.Lined id) (ho : m.owner = some id) : m.successor = none := by
  by_contra hs
  have := h.free_of_successor hs
  simp [this] at ho

theorem Lined.not_mem_queue (h : m.Lined id) {u : ThreadId} (hs : m.successor = some u) :
    u ∉ m.queue := by
  have := h.line_nodup
  simp only [line, hs, Option.toList_some, List.singleton_append, List.nodup_cons] at this
  exact this.1

theorem Lined.tryEnter_served (h : m.Lined id) (n : Nat) :
    m.Served id [] [] (m.tryEnter id n).2 := by
  have hs := h.free_of_successor
  rcases tryEnter_cases m id n with ⟨ho, e⟩ | ⟨ho, hs, e⟩ | ⟨ho, hf, e⟩ <;> rw [e]
  · constructor <;> grind [Lined, line]
  · constructor <;> grind [Lined, line]
  · constructor <;> grind [Lined, line, enqueue]

theorem Lined.freed_served (h : m.Lined id) (ho : m.owner = some id) :
    m.Served id m.freed.successor.toList [] m.freed := by
  have hs := h.successor_eq_none ho
  cases hq : m.queue with
  | nil => constructor <;> grind [Lined, line, freed, promote]
  | cons u us => constructor <;> grind [Lined, line, freed, promote]

theorem Lined.exit_served {p : Option ThreadId} (h : m.Lined id) (e : m.exit id = .ok (p, m')) :
    m.Served id p.toList [] m' := by
  obtain ⟨ho, ⟨-, rfl, rfl⟩ | ⟨-, rfl, rfl⟩⟩ := exit_ok e
  · constructor <;> grind [Lined, line]
  · exact h.freed_served ho

theorem Lined.wait_served (h : m.Lined id) (ho : m.owner = some id) :
    m.Served id m.freed.successor.toList [] { m.freed with waiting := m.waiting ++ [id] } := by
  have hf := h.freed_served ho
  have hw : m.freed.waiting = m.waiting := rfl
  constructor <;> grind [Lined, line, Served, others]

theorem Lined.notified_served (h : m.Lined id) (n : Nat) :
    m.Served id [] (m.waiting.take n) { m with waiting := m.waiting.drop n } := by
  have hw : m.waiting = m.waiting.take n ++ m.waiting.drop n := (List.take_append_drop n _).symm
  have hn := h.waiting_nodup
  constructor <;> grind [Lined, line, others]

end Monitor

/-! ## All monitors -/

/-- All monitors are in order, one thread aside. -/
def Machine.Lined (id : ThreadId) (m : Machine) : Prop := ∀ r, (m.monitorAt r).Lined id

/-- What the use of the monitors by thread `id` means to the others: whoever is promoted or taken out
    of a wait set has been reported. -/
structure Served (id : ThreadId) (m m' : Machine) : Prop where
  lined : m'.Lined id
  queue : ∀ r u, u ≠ id → u ∈ (m'.monitorAt r).queue → u ∈ (m.monitorAt r).queue
  leaves : ∀ r u, u ≠ id → u ∈ (m.monitorAt r).queue → u ∉ (m'.monitorAt r).queue →
    (m'.monitorAt r).successor = some u ∧ u ∈ m'.requests.woken
  successor : ∀ r u, u ≠ id → (m.monitorAt r).successor = some u →
    (m'.monitorAt r).successor = some u
  succeeds : ∀ r u, u ≠ id → (m'.monitorAt r).successor = some u →
    (m.monitorAt r).successor = some u ∨ u ∈ (m.monitorAt r).queue
  waiting : ∀ r u, u ≠ id → u ∈ (m'.monitorAt r).waiting → u ∈ (m.monitorAt r).waiting
  stirs : ∀ r u, u ≠ id → u ∈ (m.monitorAt r).waiting → u ∉ (m'.monitorAt r).waiting →
    u ∈ m'.requests.notified
  woken_mono : ∀ u ∈ m.requests.woken, u ∈ m'.requests.woken
  woken_of : ∀ u ∈ m'.requests.woken, u ≠ id → u ∈ m.requests.woken ∨
    ∃ r, u ∈ (m.monitorAt r).queue ∧ u ∉ (m'.monitorAt r).queue
  notified_mono : ∀ u ∈ m.requests.notified, u ∈ m'.requests.notified
  notified_of : ∀ u ∈ m'.requests.notified, u ≠ id → u ∈ m.requests.notified ∨
    ∃ r, u ∈ (m.monitorAt r).waiting ∧ u ∉ (m'.monitorAt r).waiting
  spawned : ∃ ts, m'.requests.spawned = m.requests.spawned ++ ts ∧ ∀ t ∈ ts, t.StartsAtRun
  builtins : ∀ key op, m'.natives.table.get? key = some (.builtin op) →
    m.natives.table.get? key = some (.builtin op)

/-- If all monitors are in order they stay so, and the others are served. -/
def Serves (id : ThreadId) (m m' : Machine) : Prop := m.Lined id → Served id m m'

variable {id : ThreadId} {m m' m'' : Machine} {host : Host}

theorem LeavesMonitors.serves (h : LeavesMonitors m m') : Serves id m m' := by
  intro hl
  have hm := h.monitorAt_eq
  exact
    { lined := fun r => hm r ▸ hl r
      queue := fun r u _ hu => hm r ▸ hu
      leaves := fun r u _ hu hn => absurd (hm r ▸ hu) hn
      successor := fun r u _ hs => hm r ▸ hs
      succeeds := fun r u _ hs => .inl (hm r ▸ hs)
      waiting := fun r u _ hu => hm r ▸ hu
      stirs := fun r u _ hu hn => absurd (hm r ▸ hu) hn
      woken_mono := fun u hu => h.woken_eq ▸ hu
      woken_of := fun u hu _ => .inl (h.woken_eq ▸ hu)
      notified_mono := fun u hu => h.notified_eq ▸ hu
      notified_of := fun u hu _ => .inl (h.notified_eq ▸ hu)
      spawned := h.spawned
      builtins := h.builtins }

namespace Served

theorem trans (h : Served id m m') (h' : Served id m' m'') : Served id m m'' where
  lined := h'.lined
  queue r u hu hq := h.queue r u hu (h'.queue r u hu hq)
  leaves r u hu hq hn := by
    by_cases hq' : u ∈ (m'.monitorAt r).queue
    · exact h'.leaves r u hu hq' hn
    · obtain ⟨hs, hw⟩ := h.leaves r u hu hq hq'
      exact ⟨h'.successor r u hu hs, h'.woken_mono u hw⟩
  successor r u hu hs := h'.successor r u hu (h.successor r u hu hs)
  succeeds r u hu hs := by
    rcases h'.succeeds r u hu hs with hs | hq
    · exact h.succeeds r u hu hs
    · exact .inr (h.queue r u hu hq)
  waiting r u hu hw := h.waiting r u hu (h'.waiting r u hu hw)
  stirs r u hu hw hn := by
    by_cases hw' : u ∈ (m'.monitorAt r).waiting
    · exact h'.stirs r u hu hw' hn
    · exact h'.notified_mono u (h.stirs r u hu hw hw')
  woken_mono u hu := h'.woken_mono u (h.woken_mono u hu)
  woken_of u hw hu := by
    rcases h'.woken_of u hw hu with hw | ⟨r, hq, hn⟩
    · refine (h.woken_of u hw hu).imp_right ?_
      rintro ⟨r, hq, hn⟩
      exact ⟨r, hq, fun hq' => hn (h'.queue r u hu hq')⟩
    · exact .inr ⟨r, h.queue r u hu hq, hn⟩
  notified_mono u hu := h'.notified_mono u (h.notified_mono u hu)
  notified_of u hn hu := by
    rcases h'.notified_of u hn hu with hn | ⟨r, hw, hn⟩
    · refine (h.notified_of u hn hu).imp_right ?_
      rintro ⟨r, hw, hn⟩
      exact ⟨r, hw, fun hw' => hn (h'.waiting r u hu hw')⟩
    · exact .inr ⟨r, h.waiting r u hu hw, hn⟩
  spawned := Thread.exists_added_trans h.spawned h'.spawned
  builtins key op e := h.builtins key op (h'.builtins key op e)

/-- One monitor is used, and what that means to the others is reported. -/
theorem of_monitor {r : Ref} {o : Object} {monitor : Monitor} {q : Requests}
    {promoted notified : List ThreadId} (hl : m.Lined id) (ho : m.heap.get? r = some o)
    (h : o.monitor.Served id promoted notified monitor)
    (hw : q.woken = m.requests.woken ++ promoted)
    (hn : q.notified = m.requests.notified ++ notified)
    (hs : q.spawned = m.requests.spawned) :
    Served id m { Exec.withNewMonitor m r o monitor with requests := q } := by
  -- the used monitor is that of `r`, and the others are what they were
  have used (P : Monitor → Monitor → Prop) (hu : P o.monitor monitor)
      (hp : ∀ r', P (m.monitorAt r') (m.monitorAt r')) (r' : Ref) : P (m.monitorAt r')
        (({ Exec.withNewMonitor m r o monitor with requests := q } : Machine).monitorAt r') := by
    show P _ ((Exec.withNewMonitor m r o monitor).monitorAt r')
    rw [Machine.monitorAt_withNewMonitor ho]
    split
    · next e =>
      rw [← e, Machine.monitorAt_eq ho]
      exact hu
    · exact hp r'
  have self : (({ Exec.withNewMonitor m r o monitor with requests := q } : Machine).monitorAt r) =
      monitor := by
    show (Exec.withNewMonitor m r o monitor).monitorAt r = monitor
    rw [Machine.monitorAt_withNewMonitor ho, if_pos rfl]
  have hmo := Machine.monitorAt_eq ho
  exact
    { lined := fun r' => used (fun _ n => n.Lined id) h.lined hl r'
      queue := fun r' u hu => used (fun n n' => u ∈ n'.queue → u ∈ n.queue) (h.queue u hu)
        (fun _ h => h) r'
      leaves := fun r' u hu => used (fun n n' => u ∈ n.queue → u ∉ n'.queue →
          n'.successor = some u ∧ u ∈ q.woken)
        (fun hq hq' => (h.leaves u hu hq hq').imp_right fun hp => hw ▸ List.mem_append_right _ hp)
        (fun _ hq hq' => absurd hq hq') r'
      successor := fun r' u hu => used (fun n n' => n.successor = some u → n'.successor = some u)
        (h.successor u hu) (fun _ h => h) r'
      succeeds := fun r' u hu => used (fun n n' => n'.successor = some u →
        n.successor = some u ∨ u ∈ n.queue) (h.succeeds u hu) (fun _ => .inl) r'
      waiting := fun r' u hu => used (fun n n' => u ∈ n'.waiting → u ∈ n.waiting) (h.waiting u hu)
        (fun _ h => h) r'
      stirs := fun r' u hu => used (fun n n' => u ∈ n.waiting → u ∉ n'.waiting → u ∈ q.notified)
        (fun hw hw' => hn ▸ List.mem_append_right _ (h.stirs u hu hw hw'))
        (fun _ hw hw' => absurd hw hw') r'
      woken_mono := fun u hu => hw ▸ List.mem_append_left _ hu
      woken_of := fun u hu _ => by
        replace hu : u ∈ q.woken := hu
        rw [hw] at hu
        refine (List.mem_append.1 hu).imp_right fun hp => ⟨r, ?_⟩
        rw [self, hmo]
        exact h.promoted_of u hp
      notified_mono := fun u hu => hn ▸ List.mem_append_left _ hu
      notified_of := fun u hu hne => by
        replace hu : u ∈ q.notified := hu
        rw [hn] at hu
        refine (List.mem_append.1 hu).imp_right fun hp => ⟨r, ?_⟩
        rw [self, hmo]
        exact h.notified_of u hp hne
      spawned := ⟨[], hs.trans (List.append_nil _).symm, by simp⟩
      builtins := fun _ _ e => e }

end Served

namespace Serves

instance : Std.Refl (Serves id) := ⟨fun m => (LeavesMonitors.refl m).serves⟩

instance : IsTrans Machine (Serves id) := ⟨fun _ _ _ h h' hl => (h hl).trans (h' (h hl).lined)⟩

instance : Quiet (Serves id) := .mono fun _ _ => LeavesMonitors.serves

instance : StoresBytes (Serves id) := .mono fun _ _ => LeavesMonitors.serves

instance : Initializes (Serves id) where
  setInit m c init := (Initializes.setInit (R := LeavesMonitors) m c init).serves

end Serves

/-! ## Operations -/

namespace Exec

variable {r : Ref}

theorem tryEnter_serves (n : Nat) : Within (Serves id) (tryEnter r id n) := by
  intro m hl
  rcases withMonitor_cases r (fun m => .ok (m.tryEnter id n)) m with ⟨e, he⟩ |
    ⟨o, a, monitor, ho, hf, he⟩
  · rw [tryEnter, he]
    exact (LeavesMonitors.refl m).serves hl
  · rw [tryEnter, he]
    obtain rfl : (o.monitor.tryEnter id n).2 = monitor := congrArg Prod.snd (Except.ok.inj hf)
    exact .of_monitor hl ho ((Machine.monitorAt_eq ho ▸ hl r).tryEnter_served n)
      (List.append_nil _).symm (List.append_nil _).symm rfl

theorem leaveMonitor_serves : Within (Serves id) (leaveMonitor r id) := by
  intro m hl
  rcases withMonitor_cases r (·.exit id) m with ⟨e, he⟩ | ⟨o, p, monitor, ho, hf, he⟩
  · rw [leaveMonitor, outcome_bind_error he]
    exact (LeavesMonitors.refl m).serves hl
  · rw [leaveMonitor, outcome_bind_ok he]
    exact .of_monitor hl ho ((Machine.monitorAt_eq ho ▸ hl r).exit_served hf) rfl
      (List.append_nil _).symm rfl

end Exec

/-! ## Native methods -/

namespace Machine

/-- The machine in which a thread has given up a monitor for a wait. -/
def parked (m : Machine) (id : ThreadId) (r : Ref) (o : Object) (millis : Option Nat) : Machine :=
  { Exec.withNewMonitor m r o { o.monitor.freed with waiting := o.monitor.waiting ++ [id] } with
    requests := { m.requests with
      woken := m.requests.woken ++ o.monitor.freed.successor.toList
      suspend := some (.wait r o.monitor.count millis) } }

/-- The machine in which the first of those who wait have been notified. -/
def stirred (m : Machine) (r : Ref) (o : Object) (n : Nat) : Machine :=
  { Exec.withNewMonitor m r o { o.monitor with waiting := o.monitor.waiting.drop n } with
    requests := { m.requests with notified := m.requests.notified ++ o.monitor.waiting.take n } }

end Machine

variable {native : Native} {call : NativeCall}

/-- What a call of a native method comes to that uses a monitor.  If it succeeds, the thread owns the
    monitor. -/
inductive NativeCall.Uses (call : NativeCall) (m : Machine) :
    Except Fault (Option Value) × Machine → Prop
  | refused {e : Fault} : Uses call m (.error e, m)
  | waits {r : Ref} {o : Object} {millis : Option Nat} (hr : call.receiver = some r)
      (ho : m.heap.get? r = some o) (hown : o.monitor.owner = some call.thread) :
    Uses call m (.ok none, m.parked call.thread r o millis)
  | notifies {r : Ref} {o : Object} {n : Nat} (hr : call.receiver = some r)
      (ho : m.heap.get? r = some o) (hown : o.monitor.owner = some call.thread) :
    Uses call m (.ok none, m.stirred r o n)

/-- A wait is refused and changes nothing, or its thread owns the monitor and gives it up. -/
theorem NativeCall.wait_parks (call : NativeCall) (millis : Option Nat) (m : Machine) :
    (∃ e, outcome (call.wait millis) m = (.error e, m)) ∨
      ∃ r o, call.receiver = some r ∧ m.heap.get? r = some o ∧
        o.monitor.owner = some call.thread ∧
        outcome (call.wait millis) m = (.ok none, m.parked call.thread r o millis) := by
  cases hr : call.receiver with
  | none => exact .inl ⟨_, NativeCall.wait_static millis m hr⟩
  | some r =>
    unfold NativeCall.wait
    have ht : outcome (liftM call.this : Exec Ref) m = (.ok r, m) := by
      rw [outcome_liftExcept, NativeCall.this, hr]
    rw [outcome_bind_ok ht]
    rcases Exec.withMonitor_cases r (·.wait call.thread) m with ⟨e, he⟩ |
      ⟨o, ⟨c, p⟩, monitor, ho, hf, he⟩
    · exact .inl ⟨e, outcome_bind_error he⟩
    · rw [outcome_bind_ok he]
      obtain ⟨hown, rfl, rfl, rfl⟩ := Monitor.wait_ok hf
      exact .inr ⟨r, o, rfl, ho, hown, rfl⟩

/-- So it goes with the natives that wait. -/
theorem Native.wait_parks (host : Host) (call : NativeCall) (h : native.isWait = true) (m : Machine) :
    (∃ e, outcome (native.run host call) m = (.error e, m)) ∨
      ∃ r o millis, call.receiver = some r ∧ m.heap.get? r = some o ∧
        o.monitor.owner = some call.thread ∧
        outcome (native.run host call) m = (.ok none, m.parked call.thread r o millis) := by
  have wait (millis : Option Nat) : (∃ e, outcome (call.wait millis) m = (.error e, m)) ∨
      ∃ r o millis', call.receiver = some r ∧ m.heap.get? r = some o ∧
        o.monitor.owner = some call.thread ∧
        outcome (call.wait millis) m = (.ok none, m.parked call.thread r o millis') :=
    (call.wait_parks millis m).imp_right fun ⟨r, o, h⟩ => ⟨r, o, millis, h⟩
  rcases native with (_ | op | _ | _ | _ | _ | _ | _ | _) | name
  case builtin.object =>
    cases op with
    | wait => exact wait none
    | waitTimeout =>
      show (∃ e, outcome (ObjectOp.waitTimeout.run call) m = (.error e, m)) ∨ ∃ r o millis, _ ∧ _ ∧ _ ∧
        outcome (ObjectOp.waitTimeout.run call) m = (.ok none, m.parked call.thread r o millis)
      rcases ObjectOp.waitTimeout_cases call m with ⟨e, he⟩ | ⟨millis, he⟩ <;> rw [he]
      · exact .inl ⟨e, rfl⟩
      · exact wait millis
    | _ => cases h
  all_goals cases h

/-- Taking the first waiters out, and reporting them. -/
theorem NativeCall.notify_uses {α : Type} (call : NativeCall)
    (f : Monitor → Except Fault (α × Monitor)) (report : α → List ThreadId) (m : Machine)
    (h : ∀ n a n', f n = .ok (a, n') → n.owner = some call.thread ∧ ∃ k,
      report a = n.waiting.take k ∧ n' = { n with waiting := n.waiting.drop k }) :
    call.Uses m (outcome (do
      let notified ← Exec.withMonitor (← call.this) f
      Exec.reportNotified (report notified)
      return none : Exec (Option Value)) m) := by
  cases hr : call.receiver with
  | none =>
    have ht : outcome (liftM call.this : Exec Ref) m = (.error .nullPointer, m) := by
      rw [outcome_liftExcept, NativeCall.this, hr]
    rw [outcome_bind_error ht]
    exact .refused
  | some r =>
    have ht : outcome (liftM call.this : Exec Ref) m = (.ok r, m) := by
      rw [outcome_liftExcept, NativeCall.this, hr]
    rw [outcome_bind_ok ht]
    rcases Exec.withMonitor_cases r f m with ⟨e, he⟩ | ⟨o, a, monitor, ho, hf, he⟩
    · rw [outcome_bind_error he]
      exact .refused
    · rw [outcome_bind_ok he]
      obtain ⟨hown, k, hreport, rfl⟩ := h _ _ _ hf
      rw [hreport]
      exact .notifies hr ho hown

theorem Native.run_uses (host : Host) (call : NativeCall) (h : native.usesMonitor = true)
    (m : Machine) : call.Uses m (outcome (native.run host call) m) := by
  have waits (h : native.isWait = true) : call.Uses m (outcome (native.run host call) m) := by
    rcases native.wait_parks host call h m with ⟨e, he⟩ | ⟨r, o, millis, hr, ho, hown, he⟩ <;> rw [he]
    · exact .refused
    · exact .waits hr ho hown
  rcases native with (_ | op | _ | _ | _ | _ | _ | _ | _) | name
  case builtin.object =>
    cases op with
    | wait => exact waits rfl
    | waitTimeout => exact waits rfl
    | notify =>
      refine call.notify_uses (·.notify call.thread) Option.toList m fun n a n' e => ?_
      obtain ⟨hown, rfl, rfl⟩ := Monitor.notify_ok e
      exact ⟨hown, 1, by cases n.waiting <;> rfl, by cases n.waiting <;> rfl⟩
    | notifyAll =>
      refine call.notify_uses (·.notifyAll call.thread) (fun ts => ts) m fun n a n' e => ?_
      obtain ⟨hown, rfl, rfl⟩ := Monitor.notifyAll_ok e
      exact ⟨hown, n.waiting.length, by simp, by simp⟩
    | _ => cases h
  all_goals cases h

/-- Native methods serve the others, if those of the embedder leave monitors alone. -/
theorem Native.run_serves (hh : host.Within LeavesMonitors) :
    Within (Serves call.thread) (native.run host call) := by
  cases hm : native.usesMonitor with
  | false => exact (Native.run_threaded hh hm).mono fun _ _ => LeavesMonitors.serves
  | true =>
    intro m hl
    have hu := Native.run_uses host call hm m
    generalize outcome (native.run host call) m = x at hu ⊢
    cases hu with
    | refused => exact (LeavesMonitors.refl m).serves hl
    | waits _ ho hown =>
      exact .of_monitor hl ho ((Machine.monitorAt_eq ho ▸ hl _).wait_served hown) rfl
        (List.append_nil _).symm rfl
    | notifies _ ho =>
      exact .of_monitor hl ho ((Machine.monitorAt_eq ho ▸ hl _).notified_served _)
        (List.append_nil _).symm rfl rfl

/-! ## Steps -/

theorem stepsWithin_serves (hh : host.Within LeavesMonitors) (id : ThreadId) :
    StepsWithin (Serves id) host id where
  native _ _ h := h ▸ Native.run_serves hh
  tryEnter _ := Exec.tryEnter_serves
  leave _ := Exec.leaveMonitor_serves

/-- A step of a thread serves the others. -/
theorem Thread.step_serves (hh : host.Within LeavesMonitors) (t : Thread) (m : Machine) :
    Serves t.id m ((t.step host).run m).2 :=
  (Thread.step_within (stepsWithin_serves hh t.id)).2

end GreenVm
