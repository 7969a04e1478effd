/-
  The holds of a thread and the monitors its frames have recorded, in the middle of a step of the
  thread and after it.

  * `Busy id extra fs`: the state in the middle of a step of thread `id`, with frames `fs`: every
    hold of the thread is recorded in a frame, but for those in `extra`.
  * `Rested id`: the state after the step, when the thread may have to wait.
-/
import GreenVm.Proofs.Calls

namespace GreenVm

/-! ## The two sides of the ledger -/

/-- The holds that come with a blocker. -/
def Blocker.saved : Blocker → Ref → Nat
  | wait object count _, r => if object = r then count else 0
  | _, _ => 0

namespace Thread

/-- How many holds on a monitor a thread takes back once it has waited. -/
def saved (t : Thread) (r : Ref) : Nat :=
  ((t.blocker.map (·.saved r)).getD 0) +
    ((t.reacquire.map fun p => if p.1 = r then p.2 else 0).getD 0)

/-- How often a monitor is recorded in some frames. -/
def recordedIn (fs : List Frame) (r : Ref) : Nat := (fs.flatMap Frame.monitors).count r

/-- How often a monitor is recorded in the frames of a thread. -/
def recorded (t : Thread) (r : Ref) : Nat := recordedIn t.frames r

@[simp] theorem recordedIn_nil (r : Ref) : recordedIn [] r = 0 := rfl

@[simp] theorem recordedIn_cons (f : Frame) (fs : List Frame) (r : Ref) :
    recordedIn (f :: fs) r = f.monitors.count r + recordedIn fs r := by
  simp [recordedIn, List.count_append]

theorem recordedIn_append (fs gs : List Frame) (r : Ref) :
    recordedIn (fs ++ gs) r = recordedIn fs r + recordedIn gs r := by
  simp [recordedIn, List.count_append]

/-- What holds of a thread between its steps. -/
structure Orderly (t : Thread) : Prop where
  unblocked : t.status = .runnable → t.blocker = none
  blocker_pos : ∀ r c d, t.blocker = some (.wait r c d) → 1 ≤ c
  reacquire_pos : ∀ r c, t.reacquire = some (r, c) → 1 ≤ c
  ended : t.status = .terminated → t.frames = [] ∧ t.blocker = none ∧ t.reacquire = none

end Thread

/-- The holds that the step under way wants to take back after a wait. -/
def Machine.pending (m : Machine) (r : Ref) : Nat :=
  match m.requests.suspend with
  | some (.wait object count _) => if object = r then count else 0
  | _ => 0

theorem Machine.pending_eq_zero {m : Machine}
    (h : ∀ s, m.requests.suspend = some s → ¬ s.IsWait) (r : Ref) : m.pending r = 0 := by
  unfold pending
  split
  · next e => exact absurd trivial (h _ e)
  · rfl
/-! ## States in and after a step -/

/-- In a step of thread `id`. -/
structure InStep (id : ThreadId) (s : Thread × Machine) : Prop where
  id_eq : s.1.id = id
  counted : s.2.Counted

/-- The thread is at work on the frames `fs`, which record all its holds but those in `extra`. -/
structure Busy (id : ThreadId) (extra : List Ref) (fs : List Frame)
    (s : Thread × Machine) : Prop extends InStep id s where
  status_eq : s.1.status = .runnable
  blocker_eq : s.1.blocker = none
  reacquire_eq : s.1.reacquire = none
  frames_eq : s.1.frames = fs
  noWait : ∀ w, s.2.requests.suspend = some w → ¬ w.IsWait
  balanced : ∀ r, s.2.holds id r ≤ Thread.recordedIn fs r + extra.count r

/-- The thread is about to make a step.  The holds to be taken back count too. -/
structure Steady (id : ThreadId) (s : Thread × Machine) : Prop
    extends InStep id s where
  status_eq : s.1.status = .runnable
  noWait : ∀ w, s.2.requests.suspend = some w → ¬ w.IsWait
  balanced : ∀ r, s.2.holds id r + s.1.saved r ≤ s.1.recorded r
  orderly : s.1.Orderly

/-- The step is over.  The holds to be taken back count too. -/
structure Rested (id : ThreadId) (s : Thread × Machine) : Prop
    extends InStep id s where
  balanced : ∀ r, s.2.holds id r + s.1.saved r + s.2.pending r ≤ s.1.recorded r
  orderly : s.1.Orderly
  pending_pos : ∀ r c d, s.2.requests.suspend = some (.wait r c d) → 1 ≤ c

/-- The step has gone wrong, and the thread still has frames to leave. -/
def Failing (id : ThreadId) (s : Thread × Machine) : Prop :=
  ∃ fs, Busy id [] fs s
section

variable {m m' : Machine} {id : ThreadId} {extra : List Ref} {f : Frame} {fs rest : List Frame}
  {t : Thread} {s : Thread × Machine} {α : Type} {r : Ref}

namespace Busy

theorem failing (h : Busy id [] fs s) : Failing id s := ⟨fs, h⟩

/-- Work that leaves the locks alone keeps the ledger. -/
theorem machine (h : Busy id extra fs (t, m)) (hl : LeavesLocks m m') :
    Busy id extra fs (t, m') where
  id_eq := h.id_eq
  counted := hl.counted h.counted
  status_eq := h.status_eq
  blocker_eq := h.blocker_eq
  reacquire_eq := h.reacquire_eq
  frames_eq := h.frames_eq
  noWait := fun w e hw => h.noWait w (hl.suspend w e hw) hw
  balanced := fun r => by rw [hl.holds_eq]; exact h.balanced r

/-- The thread goes on with frames that record as much. -/
theorem withFrames {fs' : List Frame} {t' : Thread} (h : Busy id extra fs (t, m))
    (hr : ∀ r, Thread.recordedIn fs r = Thread.recordedIn fs' r)
    (ht : t' = { t with frames := fs', depth := t'.depth, entry := t'.entry }) :
    Busy id extra fs' (t', m) where
  id_eq := by rw [ht]; exact h.id_eq
  counted := h.counted
  status_eq := by rw [ht]; exact h.status_eq
  blocker_eq := by rw [ht]; exact h.blocker_eq
  reacquire_eq := by rw [ht]; exact h.reacquire_eq
  frames_eq := by rw [ht]
  noWait := h.noWait
  balanced := fun r => hr r ▸ h.balanced r

/-- The step may end here. -/
theorem rested (h : Busy id [] fs s) : Rested id s where
  toInStep := h.toInStep
  balanced := fun r => by
    have := h.balanced r
    simp only [List.count_nil] at this
    rw [Machine.pending_eq_zero h.noWait, Thread.saved, h.blocker_eq, h.reacquire_eq,
      Thread.recorded, h.frames_eq]
    simpa using this
  orderly :=
    { unblocked := fun _ => h.blocker_eq
      blocker_pos := fun r c d e => by rw [h.blocker_eq] at e; cases e
      reacquire_pos := fun r c e => by rw [h.reacquire_eq] at e; cases e
      ended := fun e => by rw [h.status_eq] at e; cases e }
  pending_pos := fun r c d e => absurd trivial (h.noWait _ e)

/-- The step may end by making the thread wait for something that holds nothing back. -/
theorem rested_blocked {b : Option Blocker} {status : ThreadStatus} {t' : Thread}
    (h : Busy id [] fs (t, m))
    (ht : t' = { t with status, blocker := b, completion := t'.completion })
    (hb : ∀ r c d, b ≠ some (.wait r c d)) (hs : status = .runnable → b = none)
    (he : status = .terminated → fs = [] ∧ b = none) : Rested id (t', m) where
  id_eq := by rw [ht]; exact h.id_eq
  counted := h.counted
  balanced := fun r => by
    have := h.balanced r
    simp only [List.count_nil] at this
    have hsaved : t'.saved r = 0 := by
      rw [ht]
      simp only [Thread.saved]
      rw [h.reacquire_eq]
      cases hb' : b with
      | none => rfl
      | some b' =>
        cases b' with
        | wait r c d => exact absurd hb' (hb r c d)
        | _ => rfl
    rw [Machine.pending_eq_zero h.noWait, hsaved, Thread.recorded]
    have hf : t'.frames = fs := by rw [ht]; exact h.frames_eq
    rw [hf]
    simpa using this
  orderly :=
    { unblocked := fun e => by rw [ht] at e ⊢; exact hs e
      blocker_pos := fun r c d e => by rw [ht] at e; exact absurd e (hb r c d)
      reacquire_pos := fun r c e => by
        rw [ht] at e
        cases h.reacquire_eq.symm.trans e
      ended := fun e => by
        rw [ht] at e ⊢
        obtain ⟨h₁, h₂⟩ := he e
        exact ⟨h.frames_eq.trans h₁, h₂, h.reacquire_eq⟩ }
  pending_pos := fun r c d e => absurd trivial (h.noWait _ e)

/-- The step may end by giving up a monitor for a wait, with which the holds are saved. -/
theorem gaveUp {c : Nat} {stack : OperandStack} {pc : Nat} (h : Busy id [] (f :: rest) (t, m))
    (hw : GaveUp id r c m m') :
    Rested id ({ t with frames := { f with stack, pc } :: t.frames.tail }, m') where
  id_eq := h.id_eq
  counted := hw.counted h.counted
  balanced := fun r' => by
    obtain ⟨millis, hp⟩ := hw.suspend
    have hb := h.balanced r'
    have hc := hw.count_eq
    have hsaved : t.saved r' = 0 := by
      rw [Thread.saved, show t.blocker = none from h.blocker_eq,
        show t.reacquire = none from h.reacquire_eq]
      rfl
    simp only [Thread.recordedIn_cons, List.count_nil] at hb
    show m'.holds id r' + t.saved r' + m'.pending r' ≤ Thread.recordedIn (_ :: t.frames.tail) r'
    rw [show t.frames = f :: rest from h.frames_eq, hsaved, hw.holds_eq, Machine.pending, hp]
    simp only [Thread.recordedIn_cons, List.tail_cons]
    by_cases hr : r = r'
    · subst hr
      simp only [and_self, if_true]
      omega
    · simp only [hr, and_false, if_false]
      omega
  orderly :=
    { unblocked := fun _ => h.blocker_eq
      blocker_pos := fun r c d e => by cases h.blocker_eq.symm.trans e
      reacquire_pos := fun r c e => by cases h.reacquire_eq.symm.trans e
      ended := fun e => by cases h.status_eq.symm.trans e }
  pending_pos := fun r' c' d e => by
    obtain ⟨millis, hp⟩ := hw.suspend
    cases hp.symm.trans e
    exact hw.count_pos h.counted

/-- Work on the machine that leaves the locks alone. -/
theorem lift {x : Exec α} (hx : Within LeavesLocks x) :
    Leads (Busy id extra fs) (liftM x : ThreadM α) (fun _ => Busy id extra fs)
      (Busy id extra fs) := by
  rintro ⟨t, m⟩ h
  rw [outcome_liftThread]
  have := h.machine (hx m)
  split <;> next e => obtain ⟨-, rfl⟩ := Prod.mk.inj e; exact this

/-- A monitor that has been taken is a hold that is not recorded yet. -/
theorem taken (h : Busy id extra fs (t, m))
    (e : outcome (Exec.tryEnter r id 1) m = (.ok true, m')) :
    Busy id (r :: extra) fs (t, m') := by
  have hh := Exec.tryEnter_holds e
  have hq := (Exec.tryEnter_requests r id 1 m).1
  rw [e] at hq
  exact
    { id_eq := h.id_eq
      counted := Exec.tryEnter_counted e h.counted le_rfl
      status_eq := h.status_eq
      blocker_eq := h.blocker_eq
      reacquire_eq := h.reacquire_eq
      frames_eq := h.frames_eq
      noWait := fun w ew => h.noWait w (hq ▸ ew)
      balanced := fun r' => by
        have : m.holds id r' ≤ _ := h.balanced r'
        rw [hh id r']
        by_cases hr : r = r'
        · subst hr
          simp only [and_self, if_true, List.count_cons_self]
          omega
        · simpa [hr] using this }

/-- The frame on top records the hold. -/
theorem record (h : Busy id (r :: extra) (f :: rest) (t, m)) (stack : OperandStack) :
    Busy id extra ({ f with stack, monitors := r :: f.monitors } :: rest)
      ({ t with frames := { f with stack, monitors := r :: f.monitors } :: rest }, m) where
  id_eq := h.id_eq
  counted := h.counted
  status_eq := h.status_eq
  blocker_eq := h.blocker_eq
  reacquire_eq := h.reacquire_eq
  frames_eq := rfl
  noWait := h.noWait
  balanced := fun r' => by
    have := h.balanced r'
    simp only [Thread.recordedIn_cons, List.count_cons] at this ⊢
    omega

end Busy

namespace Steady

/-- A thread that has nothing to take back is at work on its frames. -/
theorem busy (h : Steady id s) (hr : s.1.reacquire = none) : Busy id [] s.1.frames s where
  toInStep := h.toInStep
  status_eq := h.status_eq
  blocker_eq := h.orderly.unblocked h.status_eq
  reacquire_eq := hr
  frames_eq := rfl
  noWait := h.noWait
  balanced := fun r => by
    have : s.2.holds id r + s.1.saved r ≤ Thread.recordedIn s.1.frames r := h.balanced r
    rw [List.count_nil]
    omega

/-- Without the holds that it takes back, the ledger of the thread is balanced all the more. -/
theorem letGo (h : Steady id (t, m)) :
    Busy id [] t.frames ({ t with reacquire := none }, m) where
  id_eq := h.id_eq
  counted := h.counted
  status_eq := h.status_eq
  blocker_eq := h.orderly.unblocked h.status_eq
  reacquire_eq := rfl
  frames_eq := rfl
  noWait := h.noWait
  balanced := fun r => by
    have : m.holds id r + t.saved r ≤ Thread.recordedIn t.frames r := h.balanced r
    show m.holds id r ≤ _
    rw [List.count_nil]
    omega

variable {c : Nat}

theorem saved_eq (h : Steady id (t, m)) (hr : t.reacquire = some (r, c)) (r' : Ref) :
    t.saved r' = if r = r' then c else 0 := by
  rw [Thread.saved, h.orderly.unblocked h.status_eq, hr]
  simp

/-- The thread has its monitor back. -/
theorem takenBack (h : Steady id (t, m)) (hr : t.reacquire = some (r, c))
    (e : outcome (Exec.tryEnter r id c) m = (.ok true, m')) :
    Busy id [] t.frames ({ t with reacquire := none }, m') := by
  have hh := Exec.tryEnter_holds e
  have hq := (Exec.tryEnter_requests r id c m).1
  rw [e] at hq
  exact
    { id_eq := h.id_eq
      counted := Exec.tryEnter_counted e h.counted (h.orderly.reacquire_pos r c hr)
      status_eq := h.status_eq
      blocker_eq := h.orderly.unblocked h.status_eq
      reacquire_eq := rfl
      frames_eq := rfl
      noWait := fun w ew => h.noWait w (hq ▸ ew)
      balanced := fun r' => by
        have hb : m.holds id r' + t.saved r' ≤ Thread.recordedIn t.frames r' := h.balanced r'
        rw [h.saved_eq hr] at hb
        show m'.holds id r' ≤ _
        rw [hh id r', List.count_nil]
        simpa using hb }

/-- The thread does not get its monitor back yet. -/
theorem refused (h : Steady id (t, m)) (hr : t.reacquire = some (r, c))
    (e : outcome (Exec.tryEnter r id c) m = (.ok false, m')) :
    Rested id ({ t with status := .blocked, blocker := some (.monitor r),
                           reacquire := some (r, c) }, m') := by
  have hb := h.letGo.machine (Exec.tryEnter_refused e)
  have hl := Exec.tryEnter_refused e
  exact
    { id_eq := h.id_eq
      counted := hb.counted
      balanced := fun r' => by
        have hb' : m.holds id r' + t.saved r' ≤ Thread.recordedIn t.frames r' := h.balanced r'
        rw [h.saved_eq hr] at hb'
        show m'.holds id r' + (0 + if r = r' then c else 0) + m'.pending r' ≤
          Thread.recordedIn t.frames r'
        rw [Machine.pending_eq_zero hb.noWait, hl.holds_eq]
        simpa using hb'
      orderly :=
        { unblocked := nofun
          blocker_pos := nofun
          reacquire_pos := fun r' c' e => h.orderly.reacquire_pos r' c' (hr.trans e)
          ended := nofun }
      pending_pos := fun r' c' d e => absurd trivial (hb.noWait _ e) }

end Steady

end

end GreenVm
