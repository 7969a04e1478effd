/-
  Monitors are first-in-first-out reentrant locks.

  * `Sound`: what holds of the fields of every monitor that is only changed by its operations.
  * `FifoLock`: what each operation does, said of the line and not of the queue and the successor
    it is made of.
  * `fifoLock_perform`: after any operations of any threads a monitor is a `FifoLock`, and a thread
    in the line keeps its place until it enters.
-/
import GreenVm.Proofs.Objects
import Mathlib.Data.List.Nodup
import Mathlib.Data.List.TakeWhile

namespace GreenVm

namespace Monitor

/-! ## Histories -/

/-- An operation on a monitor. -/
inductive Op
  | tryEnter (count : Nat)
  | exit
  | wait
  | notify
  | notifyAll
  | removeWaiter
  deriving DecidableEq, Repr, Inhabited

/-- Entering takes the monitor at least once. -/
def Op.Counts : Op → Prop
  | tryEnter count => 1 ≤ count
  | _ => True

/-- The monitor an operation leaves behind; one that is refused leaves it as it was. -/
def after {α : Type} (m : Monitor) : Except Fault (α × Monitor) → Monitor
  | .ok (_, m') => m'
  | .error _ => m

/-- The monitor after an operation of a thread. -/
def step (m : Monitor) (t : ThreadId) : Op → Monitor
  | .tryEnter count => (m.tryEnter t count).2
  | .exit => m.after (m.exit t)
  | .wait => m.after (m.wait t)
  | .notify => m.after (m.notify t)
  | .notifyAll => m.after (m.notifyAll t)
  | .removeWaiter => (m.removeWaiter t).2

/-- The monitor after operations of threads, the first one first. -/
def perform (m : Monitor) (ops : List (ThreadId × Op)) : Monitor :=
  ops.foldl (fun m o => m.step o.1 o.2) m

/-- The threads that are in the line before a thread. -/
def ahead (m : Monitor) (t : ThreadId) : List ThreadId := m.line.takeWhile (· ≠ t)

/-! ## The fields -/

/-- What holds of the fields of a monitor after any operations. -/
structure Sound (m : Monitor) : Prop where
  free_iff : m.owner = none ↔ m.count = 0
  line_nodup : m.line.Nodup
  owner_not_mem : ∀ t, m.owner = some t → t ∉ m.line
  /-- A monitor that is held has no successor. -/
  free_of_successor : m.successor ≠ none → m.owner = none
  /-- A monitor that is free and has no successor has no queue. -/
  queue_of_free : m.owner = none → m.successor = none → m.queue = []

theorem sound_default : Sound {} := by
  constructor <;> simp [line]

variable {m m' : Monitor} {t : ThreadId}

theorem isOwnedBy_iff : m.isOwnedBy t = true ↔ m.owner = some t := by
  simp [isOwnedBy]

theorem Sound.successor_eq_none (h : m.Sound) (ho : m.owner = some t) : m.successor = none := by
  by_contra hs
  have := h.free_of_successor hs
  simp [this] at ho

/-- The line of a monitor that is held is its queue. -/
theorem Sound.line_eq_queue (h : m.Sound) (ho : m.owner = some t) : m.line = m.queue := by
  simp [line, h.successor_eq_none ho]

theorem Sound.count_pos (h : m.Sound) (ho : m.owner = some t) : 1 ≤ m.count := by
  have : m.count ≠ 0 := fun hc => by simp [h.free_iff.2 hc] at ho
  omega

/-- The head of the line of a free monitor is its successor. -/
theorem Sound.head?_line (h : m.Sound) (ho : m.owner = none) : m.line.head? = m.successor := by
  cases hs : m.successor with
  | some s => simp [line, hs]
  | none => simp [line, hs, h.queue_of_free ho hs]

theorem Sound.line_eq_nil_iff (h : m.Sound) (ho : m.owner = none) :
    m.line = [] ↔ m.successor = none := by
  rw [← h.head?_line ho, List.head?_eq_none_iff]

/-! ## Giving up a monitor -/

/-- Promotion moves the head of the queue to the front of the line, where it was. -/
theorem line_promote (hs : m.successor = none) : m.promote.line = m.line := by
  cases hq : m.queue <;> simp [promote, line, hs, hq]

theorem sound_promote (hn : m.line.Nodup) (ho : m.owner = none) (hc : m.count = 0)
    (hs : m.successor = none) : m.promote.Sound where
  free_iff := by simp [promote, ho, hc]
  line_nodup := by rw [line_promote hs]; exact hn
  owner_not_mem := by simp [promote, ho]
  free_of_successor := fun _ => by simp [promote, ho]
  queue_of_free := fun _ h => by
    cases hq : m.queue <;> simp_all [promote]

/-! ## Entering -/

theorem enqueue_line (hs : m.successor ≠ some t) :
    (m.enqueue t).line = if t ∈ m.line then m.line else m.line ++ [t] := by
  have hq : t ∈ m.line ↔ t ∈ m.queue := by
    cases h : m.successor with
    | none => simp [line, h]
    | some s =>
      have : t ≠ s := fun e => hs (by rw [h, e])
      simp [line, h, this]
  by_cases h : t ∈ m.queue
  · simp [enqueue, h, hq]
  · simp [enqueue, h, hs, line]

theorem Sound.enqueue (h : m.Sound) (hs : m.successor ≠ some t) (ho : m.owner ≠ some t)
    (hf : m.owner = none → m.successor ≠ none) : (m.enqueue t).Sound := by
  have hl := enqueue_line hs
  by_cases hq : t ∈ m.queue
  · rw [Monitor.enqueue, if_pos hq]; exact h
  · have ht : t ∉ m.line := by
      intro hm
      rcases List.mem_append.1 hm with hm | hm
      · exact hs (by simpa using hm)
      · exact hq hm
    have he : m.enqueue t = { m with queue := m.queue ++ [t] } := if_neg hq
    rw [if_neg ht] at hl
    refine ⟨?_, ?_, ?_, ?_, ?_⟩
    · rw [he]; exact h.free_iff
    · rw [hl]
      exact h.line_nodup.append (List.nodup_singleton t) (by simpa using ht)
    · intro u hu
      rw [he] at hu
      rw [hl]
      have : u ≠ t := fun e => ho (e ▸ hu)
      simpa [this] using h.owner_not_mem u hu
    · rw [he]; exact h.free_of_successor
    · rw [he]; exact fun hn hsn => absurd hsn (hf hn)

/-- What an attempt to enter comes to. -/
theorem tryEnter_cases (m : Monitor) (t : ThreadId) (n : Nat) :
    (m.owner = some t ∧ m.tryEnter t n = (true, { m with count := m.count + n })) ∨
    (m.owner = none ∧ (m.successor = none ∨ m.successor = some t) ∧
      m.tryEnter t n = (true, { m with
        successor := none, queue := m.queue.filter (· ≠ t), owner := some t, count := n })) ∨
    (m.owner ≠ some t ∧ (m.owner = none → m.successor ≠ none ∧ m.successor ≠ some t) ∧
      m.tryEnter t n = (false, m.enqueue t)) := by
  unfold tryEnter
  cases ho : m.owner with
  | some o =>
    by_cases e : o = t
    · simp [e]
    · simp [e]
  | none =>
    by_cases hs : m.successor = none ∨ m.successor = some t
    · exact .inr (.inl ⟨rfl, hs, by simp [hs]⟩)
    · exact .inr (.inr ⟨by simp, fun _ => not_or.1 hs, by simp [hs]⟩)

/-- The line of a free monitor that a thread may take, without the thread. -/
theorem Sound.filter_queue (h : m.Sound) (ho : m.owner = none)
    (hs : m.successor = none ∨ m.successor = some t) :
    m.queue.filter (· ≠ t) = m.line.tail := by
  rcases hs with hs | hs
  · simp [line, hs, h.queue_of_free ho hs]
  · have ht : t ∉ m.queue := by
      have := h.line_nodup
      simp [line, hs] at this
      exact this.1
    simp only [line, hs, Option.toList_some, List.cons_append, List.nil_append, List.tail_cons]
    exact List.filter_eq_self.2 fun u hu => by
      have : u ≠ t := fun e => ht (e ▸ hu)
      simpa using this

theorem Sound.tryEnter (h : m.Sound) {n : Nat} (hn : 1 ≤ n) : (m.tryEnter t n).2.Sound := by
  rcases tryEnter_cases m t n with ⟨ho, e⟩ | ⟨ho, hs, e⟩ | ⟨ho, hf, e⟩
  · rw [e]
    have hc := h.count_pos ho
    exact ⟨by simp [ho]; omega, h.line_nodup, h.owner_not_mem, h.free_of_successor,
      h.queue_of_free⟩
  · rw [e]
    refine ⟨by simp; omega, ?_, ?_, by simp, by simp⟩
    · simpa [line] using (h.line_nodup.sublist (List.sublist_append_right _ _)).filter _
    · rintro u ⟨⟩
      simp [line]
  · rw [e]
    refine h.enqueue (fun hs => ?_) ho fun hn => (hf hn).1
    exact (hf (h.free_of_successor (by simp [hs]))).2 hs

/-! ## The other operations -/

/-- The monitor once its owner has given up all holds. -/
def freed (m : Monitor) : Monitor := { m with count := 0, owner := none }.promote

@[simp] theorem freed_owner (m : Monitor) : m.freed.owner = none := rfl

@[simp] theorem freed_count (m : Monitor) : m.freed.count = 0 := rfl

/-- What a successful release comes to. -/
theorem exit_ok {p : Option ThreadId} (e : m.exit t = .ok (p, m')) :
    m.owner = some t ∧ ((1 < m.count ∧ p = none ∧ m' = { m with count := m.count - 1 }) ∨
      (m.count ≤ 1 ∧ p = m.freed.successor ∧ m' = m.freed)) := by
  simp only [Monitor.exit] at e
  split at e
  case isFalse => cases e
  case isTrue ho =>
    refine ⟨isOwnedBy_iff.1 ho, ?_⟩
    split at e
    case isTrue hc => cases e; exact .inl ⟨hc, rfl, rfl⟩
    case isFalse hc => cases e; exact .inr ⟨Nat.le_of_not_lt hc, rfl, rfl⟩

theorem wait_ok {c : Nat} {p : Option ThreadId} (e : m.wait t = .ok ((c, p), m')) :
    m.owner = some t ∧ c = m.count ∧ p = m.freed.successor ∧
      m' = { m.freed with waiting := m.waiting ++ [t] } := by
  simp only [Monitor.wait] at e
  split at e
  case isFalse => cases e
  case isTrue ho => cases e; exact ⟨isOwnedBy_iff.1 ho, rfl, rfl, rfl⟩

theorem notify_ok {a : Option ThreadId} (e : m.notify t = .ok (a, m')) :
    m.owner = some t ∧ a = m.waiting.head? ∧ m' = { m with waiting := m.waiting.tail } := by
  simp only [Monitor.notify] at e
  split at e
  case isFalse => cases e
  case isTrue ho => cases e; exact ⟨isOwnedBy_iff.1 ho, rfl, rfl⟩

theorem notifyAll_ok {a : List ThreadId} (e : m.notifyAll t = .ok (a, m')) :
    m.owner = some t ∧ a = m.waiting ∧ m' = { m with waiting := [] } := by
  simp only [Monitor.notifyAll] at e
  split at e
  case isFalse => cases e
  case isTrue ho => cases e; exact ⟨isOwnedBy_iff.1 ho, rfl, rfl⟩

/-- Who waits to be notified has nothing to do with the rest. -/
theorem Sound.withWaiting (h : m.Sound) (ts : List ThreadId) : { m with waiting := ts }.Sound :=
  ⟨h.free_iff, h.line_nodup, h.owner_not_mem, h.free_of_successor, h.queue_of_free⟩

/-- Giving up a monitor leaves the line as it is. -/
theorem Sound.line_freed (h : m.Sound) (ho : m.owner = some t) : m.freed.line = m.line :=
  line_promote (h.successor_eq_none ho)

/-- The thread that is promoted is the head of the line. -/
theorem Sound.successor_freed (h : m.Sound) (ho : m.owner = some t) :
    m.freed.successor = m.line.head? := by
  simp [freed, promote, h.line_eq_queue ho]

theorem Sound.freed (h : m.Sound) (ho : m.owner = some t) : m.freed.Sound :=
  sound_promote h.line_nodup rfl rfl (h.successor_eq_none ho)

theorem Sound.exit {p : Option ThreadId} (h : m.Sound) (e : m.exit t = .ok (p, m')) :
    m'.Sound := by
  obtain ⟨ho, ⟨hc, -, rfl⟩ | ⟨-, -, rfl⟩⟩ := exit_ok e
  · exact ⟨by simp [ho]; omega, h.line_nodup, h.owner_not_mem, h.free_of_successor,
      h.queue_of_free⟩
  · exact h.freed ho

theorem Sound.wait {a : Nat × Option ThreadId} (h : m.Sound) (e : m.wait t = .ok (a, m')) :
    m'.Sound := by
  obtain ⟨ho, -, -, rfl⟩ := wait_ok e
  exact (h.freed ho).withWaiting _

theorem Sound.notify {a : Option ThreadId} (h : m.Sound) (e : m.notify t = .ok (a, m')) :
    m'.Sound := by
  obtain ⟨-, -, rfl⟩ := notify_ok e
  exact h.withWaiting _

theorem Sound.notifyAll {a : List ThreadId} (h : m.Sound) (e : m.notifyAll t = .ok (a, m')) :
    m'.Sound := by
  obtain ⟨-, -, rfl⟩ := notifyAll_ok e
  exact h.withWaiting _

/-- What holds of a monitor and of what an operation makes of it holds after the operation. -/
theorem after_induction {α : Type} {P : Monitor → Prop} {r : Except Fault (α × Monitor)}
    (h : P m) (hr : ∀ a m', r = .ok (a, m') → P m') : P (m.after r) := by
  match r with
  | .ok (a, m') => exact hr a m' rfl
  | .error _ => exact h

theorem Sound.step (h : m.Sound) {op : Op} (hop : op.Counts) : (m.step t op).Sound := by
  cases op with
  | tryEnter n => exact h.tryEnter hop
  | exit => exact after_induction h fun _ _ => h.exit
  | wait => exact after_induction h fun _ _ => h.wait
  | notify => exact after_induction h fun _ _ => h.notify
  | notifyAll => exact after_induction h fun _ _ => h.notifyAll
  | removeWaiter => exact h.withWaiting _

theorem Sound.perform (h : m.Sound) {ops : List (ThreadId × Op)} (hops : ∀ o ∈ ops, o.2.Counts) :
    (m.perform ops).Sound := by
  induction ops generalizing m with
  | nil => exact h
  | cons o ops ih =>
    have ho : o.2.Counts := hops o (List.mem_cons_self ..)
    exact ih (h.step ho) fun o' ho' => hops o' (List.mem_cons_of_mem _ ho')

/-! ## The line -/

theorem line_after {α : Type} {r : Except Fault (α × Monitor)}
    (hr : ∀ a m', r = .ok (a, m') → m'.line = m.line) : (m.after r).line = m.line :=
  after_induction (P := fun m' => m'.line = m.line) rfl hr

/-- What an operation does to the line: nothing, or it lets a new thread join at its end, or it
    lets the first thread enter. -/
theorem Sound.line_step (h : m.Sound) (t : ThreadId) (op : Op) :
    (m.step t op).line = m.line ∨ (t ∉ m.line ∧ (m.step t op).line = m.line ++ [t]) ∨
      (m.line = t :: (m.step t op).line ∧ (m.step t op).owner = some t) := by
  cases op with
  | tryEnter n =>
    rcases tryEnter_cases m t n with ⟨ho, e⟩ | ⟨ho, hs, e⟩ | ⟨ho, hf, e⟩
    · exact .inl (by simp only [Monitor.step, e, line])
    · have hl := h.filter_queue ho hs
      rcases hs with hs | hs
      · exact .inl (by simp [Monitor.step, e, line, hs, h.queue_of_free ho hs])
      · refine .inr (.inr ⟨?_, by simp [Monitor.step, e]⟩)
        simp only [Monitor.step, e, line, Option.toList_none, List.nil_append, hl]
        simp [hs]
    · have hs : m.successor ≠ some t := fun hs =>
        (hf (h.free_of_successor (by simp [hs]))).2 hs
      simp only [Monitor.step, e, enqueue_line hs]
      by_cases ht : t ∈ m.line
      · exact .inl (if_pos ht)
      · exact .inr (.inl ⟨ht, if_neg ht⟩)
  | exit =>
    refine .inl (line_after fun p m' e => ?_)
    obtain ⟨ho, ⟨-, -, rfl⟩ | ⟨-, -, rfl⟩⟩ := exit_ok e
    · rfl
    · exact h.line_freed ho
  | wait =>
    refine .inl (line_after fun p m' e => ?_)
    obtain ⟨ho, -, -, rfl⟩ := wait_ok e
    exact h.line_freed ho
  | notify => exact .inl (line_after fun p m' e => by rw [(notify_ok e).2.2]; rfl)
  | notifyAll => exact .inl (line_after fun p m' e => by rw [(notifyAll_ok e).2.2]; rfl)
  | removeWaiter => exact .inl rfl

/-- One operation takes nobody out of the line but the first, who enters, and puts nobody ahead of
    a thread. -/
theorem Sound.ahead_step (h : m.Sound) {u : ThreadId} {op : Op} (hu : u ∈ m.line)
    (ho : (m.step t op).owner ≠ some u) :
    u ∈ (m.step t op).line ∧ (m.step t op).ahead u <:+ m.ahead u := by
  unfold ahead
  rcases h.line_step t op with e | ⟨-, e⟩ | ⟨e, ho'⟩
  · rw [e]; exact ⟨hu, List.suffix_refl _⟩
  · have hl : (m.line.takeWhile (· ≠ u)).length ≠ m.line.length := fun hl => by
      have := (List.takeWhile_prefix _).eq_of_length hl
      simpa using List.takeWhile_eq_self_iff.1 this u hu
    rw [e, List.takeWhile_append, if_neg hl]
    exact ⟨List.mem_append_left _ hu, List.suffix_refl _⟩
  · have htu : t ≠ u := fun e => ho (e ▸ ho')
    rw [e] at hu
    refine ⟨(List.mem_cons.1 hu).resolve_left htu.symm, ?_⟩
    rw [e, List.takeWhile_cons_of_pos (by simpa using htu)]
    exact List.suffix_cons _ _

/-- A thread in the line keeps its place, and nobody comes ahead of it, as long as it does not
    enter. -/
theorem Sound.ahead_perform (h : m.Sound) {u : ThreadId} {ops : List (ThreadId × Op)}
    (hops : ∀ o ∈ ops, o.2.Counts) (hu : u ∈ m.line)
    (ho : ∀ k, (m.perform (ops.take k)).owner ≠ some u) :
    u ∈ (m.perform ops).line ∧ (m.perform ops).ahead u <:+ m.ahead u := by
  induction ops generalizing m with
  | nil => exact ⟨hu, List.suffix_refl _⟩
  | cons o ops ih =>
    have hc : o.2.Counts := hops o (List.mem_cons_self ..)
    obtain ⟨hu', hs⟩ := h.ahead_step hu (ho 1)
    obtain ⟨hu'', hs'⟩ := ih (h.step hc) (fun o' ho' => hops o' (List.mem_cons_of_mem _ ho')) hu'
      fun k => ho (k + 1)
    exact ⟨hu'', hs'.trans hs⟩

/-! ## The lock -/

/-- A first-in-first-out reentrant lock: what every operation does, in terms of the owner, the
    number of its holds, the line and the waiters. -/
structure FifoLock (m : Monitor) : Prop where
  free_iff : m.owner = none ↔ m.count = 0
  line_nodup : m.line.Nodup
  owner_not_mem : ∀ t, m.owner = some t → t ∉ m.line
  successor_iff : m.successor ≠ none ↔ m.owner = none ∧ m.line ≠ []
  reenters : ∀ t n, m.owner = some t → m.tryEnter t n = (true, { m with count := m.count + n })
  enters_iff : ∀ t n, m.owner ≠ some t →
    ((m.tryEnter t n).1 = true ↔ m.owner = none ∧ (m.line = [] ∨ m.line.head? = some t))
  enters : ∀ t n m', m.owner ≠ some t → m.tryEnter t n = (true, m') →
    m'.owner = some t ∧ m'.count = n ∧ m'.line = m.line.tail ∧ m'.waiting = m.waiting
  queues : ∀ t n m', m.tryEnter t n = (false, m') →
    m'.line = (if t ∈ m.line then m.line else m.line ++ [t]) ∧ m'.owner = m.owner ∧
      m'.count = m.count ∧ m'.successor = m.successor ∧ m'.waiting = m.waiting
  exits : ∀ t, m.owner = some t → ∃ p m', m.exit t = .ok (p, m') ∧ m'.count = m.count - 1 ∧
    m'.owner = (if m.count = 1 then none else some t) ∧ m'.line = m.line ∧
      m'.waiting = m.waiting ∧ p = if m'.owner = none then m.line.head? else none
  waits : ∀ t, m.owner = some t → ∃ p m', m.wait t = .ok ((m.count, p), m') ∧ m'.count = 0 ∧
    m'.owner = none ∧ m'.line = m.line ∧ m'.waiting = m.waiting ++ [t] ∧ p = m.line.head?
  notifies : ∀ t, m.owner = some t →
    m.notify t = .ok (m.waiting.head?, { m with waiting := m.waiting.tail })
  notifiesAll : ∀ t, m.owner = some t →
    m.notifyAll t = .ok (m.waiting, { m with waiting := [] })
  removes : ∀ t, m.removeWaiter t =
    (decide (t ∈ m.waiting), { m with waiting := m.waiting.filter (· ≠ t) })
  refuses : ∀ t, m.owner ≠ some t → m.exit t = .error .notOwner ∧ m.wait t = .error .notOwner ∧
    m.notify t = .error .notOwner ∧ m.notifyAll t = .error .notOwner

theorem Sound.successor_iff (h : m.Sound) :
    m.successor ≠ none ↔ m.owner = none ∧ m.line ≠ [] := by
  constructor
  · intro hs
    have ho := h.free_of_successor hs
    exact ⟨ho, fun hl => hs ((h.line_eq_nil_iff ho).1 hl)⟩
  · rintro ⟨ho, hl⟩ hs
    exact hl ((h.line_eq_nil_iff ho).2 hs)

theorem Sound.enters_iff (h : m.Sound) {n : Nat} (ht : m.owner ≠ some t) :
    (m.tryEnter t n).1 = true ↔ m.owner = none ∧ (m.line = [] ∨ m.line.head? = some t) := by
  rcases tryEnter_cases m t n with ⟨ho, -⟩ | ⟨ho, hs, e⟩ | ⟨-, hf, e⟩
  · exact absurd ho ht
  · simpa [e, ho, h.line_eq_nil_iff ho, h.head?_line ho] using hs
  · simp only [e, Bool.false_eq_true, false_iff, not_and]
    intro ho
    rw [h.line_eq_nil_iff ho, h.head?_line ho]
    exact not_or.2 (hf ho)

theorem Sound.enters (h : m.Sound) {n : Nat} (ht : m.owner ≠ some t)
    (e : m.tryEnter t n = (true, m')) :
    m'.owner = some t ∧ m'.count = n ∧ m'.line = m.line.tail ∧ m'.waiting = m.waiting := by
  rcases tryEnter_cases m t n with ⟨ho, -⟩ | ⟨ho, hs, e'⟩ | ⟨-, -, e'⟩
  · exact absurd ho ht
  · cases e.symm.trans e'
    refine ⟨rfl, rfl, ?_, rfl⟩
    rw [← h.filter_queue ho hs]
    rfl
  · cases e.symm.trans e'

theorem Sound.queues (h : m.Sound) {n : Nat} (e : m.tryEnter t n = (false, m')) :
    m'.line = (if t ∈ m.line then m.line else m.line ++ [t]) ∧ m'.owner = m.owner ∧
      m'.count = m.count ∧ m'.successor = m.successor ∧ m'.waiting = m.waiting := by
  rcases tryEnter_cases m t n with ⟨-, e'⟩ | ⟨-, -, e'⟩ | ⟨-, hf, e'⟩
  · cases e.symm.trans e'
  · cases e.symm.trans e'
  · cases e.symm.trans e'
    have hs : m.successor ≠ some t := fun hs => (hf (h.free_of_successor (by simp [hs]))).2 hs
    refine ⟨enqueue_line hs, ?_⟩
    unfold Monitor.enqueue
    split <;> exact ⟨rfl, rfl, rfl, rfl⟩

theorem Sound.exits (h : m.Sound) (ho : m.owner = some t) :
    ∃ p m', m.exit t = .ok (p, m') ∧ m'.count = m.count - 1 ∧
      m'.owner = (if m.count = 1 then none else some t) ∧ m'.line = m.line ∧
      m'.waiting = m.waiting ∧ p = if m'.owner = none then m.line.head? else none := by
  have hc := h.count_pos ho
  by_cases h1 : m.count = 1
  · refine ⟨m.freed.successor, m.freed, ?_, ?_, ?_, h.line_freed ho, rfl, ?_⟩
    · rw [Monitor.exit, if_pos (isOwnedBy_iff.2 ho), if_neg (by omega)]
      rfl
    · simp [h1]
    · simp [h1]
    · rw [h.successor_freed ho, freed_owner, if_pos rfl]
  · have h2 : 1 < m.count := by omega
    refine ⟨none, { m with count := m.count - 1 }, ?_, rfl, ?_, rfl, rfl, ?_⟩
    · simp [Monitor.exit, isOwnedBy_iff.2 ho, h2]
    · simp [h1, ho]
    · simp [ho]

theorem Sound.waits (h : m.Sound) (ho : m.owner = some t) :
    ∃ p m', m.wait t = .ok ((m.count, p), m') ∧ m'.count = 0 ∧ m'.owner = none ∧
      m'.line = m.line ∧ m'.waiting = m.waiting ++ [t] ∧ p = m.line.head? := by
  refine ⟨m.freed.successor, { m.freed with waiting := m.waiting ++ [t] }, ?_, rfl, rfl,
    h.line_freed ho, rfl, h.successor_freed ho⟩
  rw [Monitor.wait, if_pos (isOwnedBy_iff.2 ho)]
  rfl

theorem Sound.fifoLock (h : m.Sound) : m.FifoLock where
  free_iff := h.free_iff
  line_nodup := h.line_nodup
  owner_not_mem := h.owner_not_mem
  successor_iff := h.successor_iff
  reenters := fun t n ho => by simp [Monitor.tryEnter, ho]
  enters_iff := fun _ _ => h.enters_iff
  enters := fun _ _ _ => h.enters
  queues := fun _ _ _ => h.queues
  exits := fun _ => h.exits
  waits := fun _ => h.waits
  notifies := fun t ho => by simp [Monitor.notify, isOwnedBy_iff.2 ho]
  notifiesAll := fun t ho => by simp [Monitor.notifyAll, isOwnedBy_iff.2 ho]
  removes := fun _ => rfl
  refuses := fun t ht => by
    have : m.isOwnedBy t = false := by simpa [isOwnedBy] using ht
    simp [Monitor.exit, Monitor.wait, Monitor.notify, Monitor.notifyAll, this]

end Monitor

end GreenVm
