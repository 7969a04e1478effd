/-
  Who holds which lock, and how often.

  * `Machine.holds m t r`: how often thread `t` holds the monitor of the object `r`.
  * `LeavesLocks`: a relation between machines, of work that leaves all holds as they are, asks for
    no wait and starts only threads that have not run.  Quiet work is of that kind.
  * For the operations that take and release monitors, what becomes of the holds.
-/
import GreenVm.Proofs.FifoLock
import GreenVm.Proofs.Quiet.Threads

namespace GreenVm

/-! ## Holds on a monitor -/

namespace Monitor

variable {m m' : Monitor} {t : ThreadId}

/-- How often a thread holds the monitor. -/
def holds (m : Monitor) (t : ThreadId) : Nat := if m.owner = some t then m.count else 0

/-- Whoever owns the monitor holds it at least once. -/
def Counted (m : Monitor) : Prop := ∀ t, m.owner = some t → 1 ≤ m.count

theorem counted_default : Counted {} := by simp [Counted]

theorem holds_eq_count (h : m.owner = some t) : m.holds t = m.count := if_pos h

theorem holds_eq_zero (h : m.owner ≠ some t) : m.holds t = 0 := if_neg h

/-- The owner is the one thread that holds the monitor. -/
theorem Counted.owner_iff (h : m.Counted) : m.owner = some t ↔ 1 ≤ m.holds t := by
  constructor
  · intro ho
    rw [holds_eq_count ho]
    exact h t ho
  · intro hp
    by_contra ho
    rw [holds_eq_zero ho] at hp
    omega

theorem Counted.of_owner (h : m.Counted) (ho : m'.owner = m.owner) (hc : m'.count = m.count) :
    m'.Counted := fun t ht => by
  rw [hc]; exact h t (ho ▸ ht)

theorem holds_of_owner (ho : m'.owner = m.owner) (hc : m'.count = m.count) (t : ThreadId) :
    m'.holds t = m.holds t := by
  simp only [holds, ho, hc]

theorem enqueue_owner (m : Monitor) (t : ThreadId) :
    (m.enqueue t).owner = m.owner ∧ (m.enqueue t).count = m.count := by
  unfold enqueue
  split <;> exact ⟨rfl, rfl⟩

/-- Entering adds holds of the thread that enters, and of nobody else. -/
theorem tryEnter_true {n : Nat} (e : m.tryEnter t n = (true, m')) (u : ThreadId) :
    m'.holds u = m.holds u + if t = u then n else 0 := by
  rcases tryEnter_cases m t n with ⟨ho, e'⟩ | ⟨ho, -, e'⟩ | ⟨-, -, e'⟩
  · cases e.symm.trans e'
    by_cases hu : t = u
    · subst hu
      simp [holds, ho]
    · simp [holds, ho, hu]
  · cases e.symm.trans e'
    by_cases hu : t = u
    · subst hu
      simp [holds, ho]
    · simp [holds, ho, hu]
  · cases e.symm.trans e'

theorem tryEnter_false {n : Nat} (e : m.tryEnter t n = (false, m')) :
    m'.owner = m.owner ∧ m'.count = m.count := by
  rcases tryEnter_cases m t n with ⟨-, e'⟩ | ⟨-, -, e'⟩ | ⟨-, -, e'⟩
  · cases e.symm.trans e'
  · cases e.symm.trans e'
  · cases e.symm.trans e'
    exact enqueue_owner m t

theorem Counted.tryEnter {n : Nat} (h : m.Counted) (hn : 1 ≤ n) : (m.tryEnter t n).2.Counted := by
  rcases tryEnter_cases m t n with ⟨ho, e⟩ | ⟨-, -, e⟩ | ⟨-, -, e⟩
  · rw [e]
    intro u hu
    have := h t ho
    show 1 ≤ m.count + n
    omega
  · rw [e]
    intro u hu
    exact hn
  · rw [e]
    exact h.of_owner (enqueue_owner m t).1 (enqueue_owner m t).2

/-- Leaving takes one hold of the thread that leaves, and of nobody else. -/
theorem exit_holds {p : Option ThreadId} (e : m.exit t = .ok (p, m'))
    (u : ThreadId) : m'.holds u = m.holds u - if t = u then 1 else 0 := by
  obtain ⟨ho, ⟨hc, -, rfl⟩ | ⟨hc, -, rfl⟩⟩ := exit_ok e
  · by_cases hu : t = u
    · subst hu
      simp [holds, ho]
    · simp [holds, ho, hu]
  · by_cases hu : t = u
    · subst hu
      simp [holds, ho]
      omega
    · simp [holds, ho, hu]

theorem Counted.exit {p : Option ThreadId} (e : m.exit t = .ok (p, m')) :
    m'.Counted := by
  obtain ⟨-, ⟨hc, -, rfl⟩ | ⟨-, -, rfl⟩⟩ := exit_ok e
  · intro u hu
    show 1 ≤ m.count - 1
    omega
  · intro u hu
    cases hu

/-- A thread that waits gives up all its holds, and is told how many. -/
theorem wait_holds {c : Nat} {p : Option ThreadId} (e : m.wait t = .ok ((c, p), m'))
    (u : ThreadId) : c = m.holds t ∧ m'.holds u = if t = u then 0 else m.holds u := by
  obtain ⟨ho, rfl, -, rfl⟩ := wait_ok e
  refine ⟨(holds_eq_count ho).symm, ?_⟩
  by_cases hu : t = u
  · subst hu
    simp [holds]
  · simp [holds, ho, hu]

theorem Counted.wait {a : Nat × Option ThreadId} (e : m.wait t = .ok (a, m')) : m'.Counted := by
  obtain ⟨-, -, -, rfl⟩ := wait_ok e
  intro u hu
  cases hu

end Monitor

/-! ## Holds in a machine -/

namespace Machine

variable {m : Machine} {r r' : Ref} {o : Object}

/-- The monitor of an object; one that nobody has touched if there is no such object. -/
def monitorAt (m : Machine) (r : Ref) : Monitor := ((m.heap.get? r).map Object.monitor).getD {}

/-- How often a thread holds the monitor of an object. -/
def holds (m : Machine) (t : ThreadId) (r : Ref) : Nat := (m.monitorAt r).holds t

/-- Every monitor that has an owner is held. -/
def Counted (m : Machine) : Prop := ∀ r, (m.monitorAt r).Counted

theorem monitorAt_eq (h : m.heap.get? r = some o) : m.monitorAt r = o.monitor := by
  simp [monitorAt, h]

theorem monitorAt_withNewMonitor {monitor : Monitor} (h : m.heap.get? r = some o) :
    (Exec.withNewMonitor m r o monitor).monitorAt r' =
      if r = r' then monitor else m.monitorAt r' := by
  by_cases hr : r = r'
  · subst hr
    simp [Exec.withNewMonitor, monitorAt, Heap.get?_update, h]
  · simp [Exec.withNewMonitor, monitorAt, Heap.get?_update, hr]

/-- Changing objects otherwise than in their monitors. -/
theorem monitorAt_update {f : Object → Object}
    (h : ∀ o, m.heap.get? r = some o → (f o).monitor = o.monitor) (r' : Ref) :
    ({ m with heap := m.heap.update r f } : Machine).monitorAt r' = m.monitorAt r' := by
  by_cases hr : r = r'
  · subst hr
    cases ho : m.heap.get? r with
    | none => simp [monitorAt, Heap.get?_update, ho]
    | some o => simp [monitorAt, Heap.get?_update, ho, h o ho]
  · simp [monitorAt, Heap.get?_update, hr]

/-- A new object is like none at all. -/
theorem monitorAt_allocate {o : Object} (h : o.monitor = {}) (r : Ref) :
    ({ m with heap := (m.heap.allocate o).2 } : Machine).monitorAt r = m.monitorAt r := by
  simp only [monitorAt, Heap.get?_allocate]
  by_cases hr : r.index = m.heap.objects.size
  · have hn : m.heap.get? r = none := by simp [Heap.get?, hr]
    simp [hr, hn, h]
  · simp [hr]

theorem Counted.withNewMonitor {monitor : Monitor} (hm : m.Counted) (h : m.heap.get? r = some o)
    (hc : monitor.Counted) : (Exec.withNewMonitor m r o monitor).Counted := by
  intro r'
  rw [monitorAt_withNewMonitor h]
  split
  · exact hc
  · exact hm r'

end Machine

/-! ## Work that leaves all locks alone -/

/-- A thread that has not run yet. -/
def Thread.IsNew (t : Thread) : Prop := ∃ method args, t = .starting t.id t.name method args

def Suspend.IsWait : Suspend → Prop
  | wait .. => True
  | _ => False

/-- Threads that were added first and those that were added next are all of one sort. -/
theorem Thread.exists_added_trans {P : Thread → Prop} {before between after : List Thread}
    (h : ∃ ts, between = before ++ ts ∧ ∀ t ∈ ts, P t)
    (h' : ∃ ts, after = between ++ ts ∧ ∀ t ∈ ts, P t) :
    ∃ ts, after = before ++ ts ∧ ∀ t ∈ ts, P t := by
  obtain ⟨ts, e, hn⟩ := h
  obtain ⟨ts', e', hn'⟩ := h'
  refine ⟨ts ++ ts', by rw [e', e, List.append_assoc], fun t ht => ?_⟩
  exact (List.mem_append.1 ht).elim (hn t) (hn' t)

/-- All holds are what they were, new threads have not run, and no wait was asked for. -/
structure LeavesLocks (m m' : Machine) : Prop where
  owner_eq : ∀ r, (m'.monitorAt r).owner = (m.monitorAt r).owner
  count_eq : ∀ r, (m'.monitorAt r).count = (m.monitorAt r).count
  spawned : ∃ ts, m'.requests.spawned = m.requests.spawned ++ ts ∧ ∀ t ∈ ts, t.IsNew
  suspend : ∀ s, m'.requests.suspend = some s → s.IsWait → m.requests.suspend = some s

namespace LeavesLocks

variable {m m' : Machine}

theorem of_requests (h : ∀ r, m'.monitorAt r = m.monitorAt r)
    (hs : m'.requests.spawned = m.requests.spawned)
    (hp : m'.requests.suspend = m.requests.suspend) : LeavesLocks m m' where
  owner_eq := fun r => by rw [h r]
  count_eq := fun r => by rw [h r]
  spawned := ⟨[], by simp [hs], by simp⟩
  suspend := fun s e _ => hp ▸ e

theorem of_same (h : ∀ r, m'.monitorAt r = m.monitorAt r) (hq : m'.requests = m.requests) :
    LeavesLocks m m' := of_requests h (by rw [hq]) (by rw [hq])

theorem holds_eq (h : LeavesLocks m m') (t : ThreadId) (r : Ref) : m'.holds t r = m.holds t r :=
  Monitor.holds_of_owner (h.owner_eq r) (h.count_eq r) t

theorem counted (h : LeavesLocks m m') (hm : m.Counted) : m'.Counted :=
  fun r => (hm r).of_owner (h.owner_eq r) (h.count_eq r)

theorem refl (m : Machine) : LeavesLocks m m := of_same (fun _ => rfl) rfl

theorem trans {m'' : Machine} (h : LeavesLocks m m') (h' : LeavesLocks m' m'') :
    LeavesLocks m m'' where
  owner_eq := fun r => (h'.owner_eq r).trans (h.owner_eq r)
  count_eq := fun r => (h'.count_eq r).trans (h.count_eq r)
  spawned := Thread.exists_added_trans h.spawned h'.spawned
  suspend := fun s e hw => h.suspend s (h'.suspend s e hw) hw

/-- Changing monitors, but neither their owners nor the numbers of holds. -/
theorem updateMonitor {r : Ref} {f : Object → Object}
    (h : ∀ o : Object, (f o).monitor.owner = o.monitor.owner ∧
      (f o).monitor.count = o.monitor.count) :
    LeavesLocks m { m with heap := m.heap.update r f } := by
  have hm (r' : Ref) : (({ m with heap := m.heap.update r f } : Machine).monitorAt r').owner =
      (m.monitorAt r').owner ∧ (({ m with heap := m.heap.update r f } : Machine).monitorAt r').count =
      (m.monitorAt r').count := by
    by_cases hr : r = r'
    · subst hr
      cases ho : m.heap.get? r with
      | none => simp [Machine.monitorAt, Heap.get?_update, ho]
      | some o => simp [Machine.monitorAt, Heap.get?_update, ho, h o]
    · simp [Machine.monitorAt, Heap.get?_update, hr]
  exact ⟨fun r' => (hm r').1, fun r' => (hm r').2, ⟨[], by simp, by simp⟩, fun _ e _ => e⟩

end LeavesLocks

instance : Quiet LeavesLocks where
  refl := .refl
  trans _ _ _ := .trans
  load _ _ := .of_same (fun _ => rfl) rfl
  setStatics _ _ _ := .of_same (fun _ => rfl) rfl
  create _ _ h _ := .of_same (Machine.monitorAt_allocate h.monitor_eq) rfl
  update _ _ _ h _ := .of_same (Machine.monitorAt_update fun o ho => (h o ho).monitor_eq) rfl
  intern _ _ _ _ h _ _ _ := .of_same (Machine.monitorAt_allocate h.monitor_eq) rfl
  classObject _ _ _ _ h _ _ _ := .of_same (Machine.monitorAt_allocate h.monitor_eq) rfl
  print _ _ _ := .of_same (fun _ => rfl) rfl

instance : StoresBytes LeavesLocks where
  storeByte _ _ _ _ _ _ _ := .of_same (Machine.monitorAt_update fun _ _ => rfl) rfl

instance : Initializes LeavesLocks where
  setInit _ _ _ := .of_same (fun _ => rfl) rfl

instance : Threaded LeavesLocks where
  attach _ _ _ := .of_same (Machine.monitorAt_update fun _ _ => rfl) rfl
  bind _ _ _ := .of_same (fun _ => rfl) rfl
  pause _ s h := ⟨fun _ => rfl, fun _ => rfl, ⟨[], by simp, by simp⟩, fun s' e hw => by
    cases e
    cases s with
    | wait r count millis => exact absurd rfl (h r count millis)
    | _ => cases hw⟩
  finish _ _ := .of_requests (fun _ => rfl) rfl rfl
  start _ _ _ _ _ _ := ⟨fun _ => rfl, fun _ => rfl, ⟨_, rfl, fun t ht => by
    rw [List.mem_singleton.1 ht]
    exact ⟨_, _, rfl⟩⟩, fun _ e _ => e⟩

namespace Exec

variable {α : Type} {r : Ref} {t : ThreadId}

/-! ### Changes of monitors -/

theorem request_leavesLocks {f : Requests → Requests} (hs : ∀ q, (f q).spawned = q.spawned)
    (hp : ∀ q, (f q).suspend = q.suspend) : Within LeavesLocks (request f) :=
  fun _ => .of_requests (fun _ => rfl) (hs _) (hp _)

/-- Changing a monitor, but neither its owner nor the number of holds. -/
theorem withNewMonitor_leavesLocks {m : Machine} {o : Object} {monitor : Monitor}
    (ho : m.heap.get? r = some o) (h₁ : monitor.owner = o.monitor.owner)
    (h₂ : monitor.count = o.monitor.count) : LeavesLocks m (withNewMonitor m r o monitor) := by
  have hmo := Machine.monitorAt_eq ho
  refine ⟨fun r' => ?_, fun r' => ?_, ⟨[], by simp [withNewMonitor], by simp⟩, fun _ e _ => e⟩
  · rw [Machine.monitorAt_withNewMonitor ho]
    split
    · next hr => rw [h₁, ← hr, hmo]
    · rfl
  · rw [Machine.monitorAt_withNewMonitor ho]
    split
    · next hr => rw [h₂, ← hr, hmo]
    · rfl

theorem withMonitor_leavesLocks {f : Monitor → Except Fault (α × Monitor)}
    (h : ∀ m a m', f m = .ok (a, m') → m'.owner = m.owner ∧ m'.count = m.count) :
    Within LeavesLocks (withMonitor r f) := by
  intro m
  rcases withMonitor_cases r f m with ⟨e, he⟩ | ⟨o, a, monitor, ho, hf, he⟩
  · rw [he]; exact .refl m
  · rw [he]
    obtain ⟨h₁, h₂⟩ := h _ _ _ hf
    exact withNewMonitor_leavesLocks ho h₁ h₂

/-! ### Taking and releasing -/

variable {m m' : Machine} {b : Bool} {n : Nat}

/-- What becomes of the holds when a thread tries to take a monitor. -/
theorem tryEnter_holds (h : outcome (tryEnter r t n) m = (.ok b, m')) (u : ThreadId) (r' : Ref) :
    m'.holds u r' = m.holds u r' + if b = true ∧ t = u ∧ r = r' then n else 0 := by
  rcases withMonitor_cases r (fun m => .ok (m.tryEnter t n)) m with ⟨e, he⟩ | ⟨o, a, monitor, ho,
    hf, he⟩
  · cases h.symm.trans he
  · cases h.symm.trans he
    have he := Except.ok.inj hf
    simp only [Machine.holds, Machine.monitorAt_withNewMonitor ho]
    by_cases hr : r = r'
    · subst hr
      rw [if_pos rfl, Machine.monitorAt_eq ho]
      cases b with
      | true => simp [Monitor.tryEnter_true he u]
      | false =>
        obtain ⟨h₁, h₂⟩ := Monitor.tryEnter_false he
        simp [Monitor.holds_of_owner h₁ h₂]
    · simp [hr]

/-- Whoever has entered a monitor owns it, as often as it wanted to. -/
theorem tryEnter_owner (h : outcome (tryEnter r t n) m = (.ok true, m')) :
    (m'.monitorAt r).owner = some t ∧ n ≤ (m'.monitorAt r).count := by
  rcases withMonitor_cases r (fun m => .ok (m.tryEnter t n)) m with ⟨e, he⟩ | ⟨o, a, monitor, ho,
    hf, he⟩
  · cases h.symm.trans he
  · cases h.symm.trans he
    rw [Machine.monitorAt_withNewMonitor ho, if_pos rfl]
    have he := Except.ok.inj hf
    rcases Monitor.tryEnter_cases o.monitor t n with ⟨hown, e⟩ | ⟨-, -, e⟩ | ⟨-, -, e⟩
    · cases e.symm.trans he
      exact ⟨hown, Nat.le_add_left _ _⟩
    · cases e.symm.trans he
      exact ⟨rfl, le_rfl⟩
    · cases e.symm.trans he

theorem tryEnter_counted (h : outcome (tryEnter r t n) m = (.ok b, m')) (hm : m.Counted)
    (hn : 1 ≤ n) : m'.Counted := by
  rcases withMonitor_cases r (fun m => .ok (m.tryEnter t n)) m with ⟨e, he⟩ | ⟨o, a, monitor, ho,
    hf, he⟩
  · cases h.symm.trans he
  · cases h.symm.trans he
    refine hm.withNewMonitor ho ?_
    rw [show monitor = (o.monitor.tryEnter t n).2 by rw [Except.ok.inj hf]]
    exact (Machine.monitorAt_eq ho ▸ hm r).tryEnter hn

/-- An attempt that fails leaves all holds as they are. -/
theorem tryEnter_refused (h : outcome (tryEnter r t n) m = (.ok false, m')) :
    LeavesLocks m m' := by
  rcases withMonitor_cases r (fun m => .ok (m.tryEnter t n)) m with ⟨e, he⟩ | ⟨o, a, monitor, ho,
    hf, he⟩
  · cases h.symm.trans he
  · cases h.symm.trans he
    obtain ⟨h₁, h₂⟩ := Monitor.tryEnter_false (Except.ok.inj hf)
    exact withNewMonitor_leavesLocks ho h₁ h₂

/-- Taking a monitor asks for nothing, and if it is refused nothing has changed. -/
theorem tryEnter_requests (r : Ref) (t : ThreadId) (n : Nat) (m : Machine) :
    (outcome (tryEnter r t n) m).2.requests = m.requests ∧
      ∀ e m', outcome (tryEnter r t n) m = (.error e, m') → m' = m := by
  rcases withMonitor_cases r (fun m => .ok (m.tryEnter t n)) m with ⟨e, he⟩ | ⟨o, a, monitor, -,
    -, he⟩
  · refine ⟨by rw [tryEnter, he], fun e' m' h => ?_⟩
    cases h.symm.trans he; rfl
  · refine ⟨by rw [tryEnter, he]; rfl, fun e' m' h => ?_⟩
    cases h.symm.trans he

/-- Releasing takes one hold of the thread, if it has any, and reports at most whom to wake. -/
theorem release_spec (r : Ref) (t : ThreadId) (m : Machine) :
    ∃ m', outcome (release t r) m = (.ok (), m') ∧ (m.Counted → m'.Counted) ∧
      (∀ u r', m'.holds u r' = m.holds u r' - if t = u ∧ r = r' then 1 else 0) ∧
      ∃ ts, m'.requests = { m.requests with woken := m.requests.woken ++ ts } := by
  have same : ∃ ts, m.requests = { m.requests with woken := m.requests.woken ++ ts } :=
    ⟨[], by simp⟩
  have unheld (h : m.holds t r = 0) (u : ThreadId) (r' : Ref) :
      m.holds u r' = m.holds u r' - if t = u ∧ r = r' then 1 else 0 := by
    split
    · next e => obtain ⟨rfl, rfl⟩ := e; omega
    · rfl
  unfold release
  rw [outcome_bind_ok (outcome_get m)]
  cases ho : m.heap.get? r with
  | none =>
    exact ⟨m, rfl, id, unheld (by simp [Machine.holds, Machine.monitorAt, ho, Monitor.holds]), same⟩
  | some o =>
    have hmo := Machine.monitorAt_eq ho
    cases hx : o.monitor.exit t with
    | error e =>
      refine ⟨m, by simp only [hx, outcome_pure], id, unheld ?_, same⟩
      rw [Machine.holds, hmo]
      refine Monitor.holds_eq_zero fun hown => ?_
      simp [Monitor.exit, Monitor.isOwnedBy_iff.2 hown] at hx
      split at hx <;> cases hx
    | ok a =>
      obtain ⟨promoted, monitor⟩ := a
      refine ⟨{ withNewMonitor m r o monitor with
        requests := { m.requests with woken := m.requests.woken ++ promoted.toList } },
        by simp only [hx]; rfl, fun hm => hm.withNewMonitor ho (Monitor.Counted.exit hx),
        fun u r' => ?_, _, rfl⟩
      show ((withNewMonitor m r o monitor).monitorAt r').holds u = _
      rw [Machine.monitorAt_withNewMonitor ho]
      by_cases hr : r = r'
      · subst hr
        rw [if_pos rfl, Monitor.exit_holds hx u, Machine.holds, hmo]
        simp
      · simp [hr, Machine.holds]

end Exec

/-! ## Native methods -/

/-- Whether a native method is one that waits. -/
def Native.isWait : Native → Bool
  | .builtin (.object .wait) | .builtin (.object .waitTimeout) => true
  | _ => false

/-- Thread `t` has given up its `c` holds on a monitor and asks to wait there. -/
structure GaveUp (t : ThreadId) (r : Ref) (c : Nat) (m m' : Machine) : Prop where
  owner_eq : (m.monitorAt r).owner = some t
  count_eq : c = m.holds t r
  holds_eq : ∀ u r', m'.holds u r' = if t = u ∧ r = r' then 0 else m.holds u r'
  owner_iff : ∀ u, u ≠ t → ∀ r', (m'.monitorAt r').owner = some u ↔ (m.monitorAt r').owner = some u
  counted : m.Counted → m'.Counted
  spawned : m'.requests.spawned = m.requests.spawned
  suspend : ∃ millis, m'.requests.suspend = some (.wait r c millis)

theorem GaveUp.count_pos {t : ThreadId} {r : Ref} {c : Nat} {m m' : Machine}
    (h : GaveUp t r c m m') (hm : m.Counted) : 1 ≤ c := by
  rw [h.count_eq]
  exact (hm r).owner_iff.1 h.owner_eq

namespace NativeCall

open Exec

variable {call : NativeCall}

/-- Without a receiver there is nothing to wait for. -/
theorem wait_static (millis : Option Nat) (m : Machine) (h : call.receiver = none) :
    outcome (call.wait millis) m = (.error .nullPointer, m) :=
  outcome_bind_error (by rw [outcome_liftExcept, this, h])

/-- A wait is refused and changes nothing, or it gives up the monitor of the receiver. -/
theorem wait_cases (millis : Option Nat) (m : Machine) :
    (∃ e, outcome (call.wait millis) m = (.error e, m)) ∨
      ∃ r c m', call.receiver = some r ∧ outcome (call.wait millis) m = (.ok none, m') ∧
        GaveUp call.thread r c m m' := by
  cases hr : call.receiver with
  | none => exact .inl ⟨.nullPointer, wait_static millis m hr⟩
  | some r =>
    unfold NativeCall.wait
    have ht : outcome (liftM call.this : Exec Ref) m = (.ok r, m) := by
      rw [outcome_liftExcept, this, hr]
    rw [outcome_bind_ok ht]
    rcases withMonitor_cases r (·.wait call.thread) m with ⟨e, he⟩ | ⟨o, ⟨c, p⟩, monitor, ho, hf,
      he⟩
    · exact .inl ⟨e, outcome_bind_error he⟩
    · rw [outcome_bind_ok he]
      have hmo := Machine.monitorAt_eq ho
      have hold := Monitor.wait_holds hf
      have hown := (Monitor.wait_ok hf).1
      refine .inr ⟨r, c, _, rfl, rfl, ?_, ?_, fun u r' => ?_, fun u hu r' => ?_, fun hm => ?_, rfl,
        millis, rfl⟩
      · rw [hmo]
        exact hown
      · rw [Machine.holds, hmo]
        exact (hold call.thread).1
      · show ((withNewMonitor m r o monitor).monitorAt r').holds u = _
        rw [Machine.monitorAt_withNewMonitor ho]
        by_cases hr' : r = r'
        · subst hr'
          rw [if_pos rfl, (hold u).2, Machine.holds, hmo]
          simp
        · simp [hr', Machine.holds]
      · show ((withNewMonitor m r o monitor).monitorAt r').owner = _ ↔ _
        rw [Machine.monitorAt_withNewMonitor ho]
        by_cases hr' : r = r'
        · subst hr'
          rw [if_pos rfl, hmo, hown, (Monitor.wait_ok hf).2.2.2]
          simp [hu.symm]
        · rw [if_neg hr']
      · exact hm.withNewMonitor ho (Monitor.Counted.wait hf)

end NativeCall

theorem ObjectOp.notify_leavesLocks {call : NativeCall} :
    Within LeavesLocks (ObjectOp.notify.run call) := by
  refine .bind (.liftExcept _) fun _ => .bind (Exec.withMonitor_leavesLocks fun m a m' h => ?_)
    fun _ => .bind (Exec.request_leavesLocks (fun _ => rfl) fun _ => rfl) fun _ => .pure _
  obtain ⟨-, -, rfl⟩ := Monitor.notify_ok h
  exact ⟨rfl, rfl⟩

theorem ObjectOp.notifyAll_leavesLocks {call : NativeCall} :
    Within LeavesLocks (ObjectOp.notifyAll.run call) := by
  refine .bind (.liftExcept _) fun _ => .bind (Exec.withMonitor_leavesLocks fun m a m' h => ?_)
    fun _ => .bind (Exec.request_leavesLocks (fun _ => rfl) fun _ => rfl) fun _ => .pure _
  obtain ⟨-, -, rfl⟩ := Monitor.notifyAll_ok h
  exact ⟨rfl, rfl⟩

variable {host : Host} {native : Native} {call : NativeCall}

/-- Every native method but the waits leaves all locks alone. -/
theorem Native.run_leavesLocks (hh : host.Within LeavesLocks) (h : native.isWait = false) :
    Within LeavesLocks (native.run host call) := by
  cases hm : native.usesMonitor with
  | false => exact Native.run_threaded hh hm
  | true =>
    rcases native with (_ | op | _ | _ | _ | _ | _ | _ | _) | name
    case builtin.object =>
      cases op with
      | wait => cases h
      | waitTimeout => cases h
      | notify => exact ObjectOp.notify_leavesLocks
      | notifyAll => exact ObjectOp.notifyAll_leavesLocks
      | _ => cases hm
    all_goals cases hm

/-- A wait with a time limit is refused and changes nothing, or it is a wait. -/
theorem ObjectOp.waitTimeout_cases (call : NativeCall) (m : Machine) :
    (∃ e, outcome (ObjectOp.waitTimeout.run call) m = (.error e, m)) ∨
      ∃ millis, outcome (ObjectOp.waitTimeout.run call) m = outcome (call.wait millis) m := by
  simp only [ObjectOp.run]
  rcases outcome_bind_cases (liftM (call.arg 0) : Exec Value) _ m with ⟨e, m', h₁, h₂⟩ |
    ⟨v, m', h₁, h₂⟩ <;> obtain ⟨-, rfl⟩ := Prod.mk.inj ((outcome_liftExcept _ _).symm.trans h₁)
  · exact .inl ⟨e, h₂⟩
  · rw [h₂]
    rcases outcome_bind_cases (liftM v.asLong : Exec Int64) _ m with ⟨e, m', h₁, h₂⟩ |
      ⟨millis, m', h₁, h₂⟩ <;> obtain ⟨-, rfl⟩ := Prod.mk.inj ((outcome_liftExcept _ _).symm.trans h₁)
    · exact .inl ⟨e, h₂⟩
    · rw [h₂]
      by_cases hn : millis < 0
      · simp only [hn, if_true]
        exact .inl ⟨.negativeTimeout, outcome_bind_error (outcome_throw _ _)⟩
      · simp only [hn, if_false]
        exact .inr ⟨_, rfl⟩

/-- A native method leaves all locks alone, or it is a wait and gives up the monitor of its
    receiver. -/
theorem Native.run_cases (hh : host.Within LeavesLocks) (m : Machine) :
    LeavesLocks m (outcome (native.run host call) m).2 ∨
      ∃ r c m', native.isWait = true ∧ call.receiver = some r ∧
        outcome (native.run host call) m = (.ok none, m') ∧ GaveUp call.thread r c m m' := by
  have wait (millis : Option Nat) : LeavesLocks m (outcome (call.wait millis) m).2 ∨
      ∃ r c m', call.receiver = some r ∧ outcome (call.wait millis) m = (.ok none, m') ∧
        GaveUp call.thread r c m m' := by
    rcases NativeCall.wait_cases millis m with ⟨e, he⟩ | h
    · rw [he]; exact .inl (.refl m)
    · exact .inr h
  rcases native with (_ | op | _ | _ | _ | _ | _ | _ | _) | name
  case builtin.object =>
    cases op with
    | wait =>
      rcases wait none with h | ⟨r, c, m', h⟩
      · exact .inl h
      · exact .inr ⟨r, c, m', rfl, h⟩
    | waitTimeout =>
      rcases ObjectOp.waitTimeout_cases call m with ⟨e, he⟩ | ⟨millis, he⟩
      · refine .inl ?_
        show LeavesLocks m (outcome (ObjectOp.waitTimeout.run call) m).2
        rw [he]; exact .refl m
      · rcases wait millis with h | ⟨r, c, m', h⟩
        · exact .inl (he ▸ h)
        · exact .inr ⟨r, c, m', rfl, h.1, he.trans h.2.1, h.2.2⟩
    | _ => exact .inl (Native.run_leavesLocks hh rfl m)
  all_goals exact .inl (Native.run_leavesLocks hh rfl m)

/-- The natives that stand for class initializers have no receiver that they could wait for. -/
theorem initializesWithin_leavesLocks (hh : host.Within LeavesLocks) (thread : ThreadId) :
    InitializesWithin LeavesLocks host thread := by
  intro native owner m
  by_cases h : native.isWait = true
  · rcases native with (_ | op | _ | _ | _ | _ | _ | _ | _) | name
    case builtin.object =>
      cases op with
      | wait =>
        show LeavesLocks m (outcome (NativeCall.wait _ none) m).2
        rw [NativeCall.wait_static none m rfl]; exact .refl m
      | waitTimeout =>
        show LeavesLocks m (outcome (ObjectOp.waitTimeout.run _) m).2
        rcases ObjectOp.waitTimeout_cases _ m with ⟨e, he⟩ | ⟨millis, he⟩
        · rw [he]; exact .refl m
        · rw [he, NativeCall.wait_static millis m rfl]; exact .refl m
      | _ => cases h
    all_goals cases h
  · exact Native.run_leavesLocks hh (by simpa using h) m

end GreenVm
