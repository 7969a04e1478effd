/-
  What the scheduler does to each thread before it chooses one.

  * `Thread.Wakes`: a thread is left alone, or its waiting is over; one whose time to wait for a
    notification is up leaves the wait set.
  * `WakesAll`: so it goes with all threads, one after another.
-/
import GreenVm.Proofs.Runs

namespace GreenVm

/-- The machine in which a thread is taken out of the wait set of an object. -/
def Machine.unwaited (m : Machine) (r : Ref) (id : ThreadId) : Machine :=
  { m with heap := m.heap.update r fun o => { o with monitor := (o.monitor.removeWaiter id).2 } }

/-- What a thread waits for has come, at a time when some threads have ended. -/
def Blocker.Due (clock : Nat) (ended : ThreadId → Bool) (m : Machine) : Blocker → Prop
  | .monitor _ => False
  | .wait _ _ deadline => ∃ d ∈ deadline, d ≤ clock
  | .join target => ended target = true
  | .sleep deadline => deadline ≤ clock
  | .classInit c => ¬ ∃ id, (Exec.stateOf m c).init = .inProgress id

/-- What waking does to a thread: its waiting is over if what it waits for has come. -/
inductive Thread.Wakes (clock : Nat) (ended : ThreadId → Bool) (t : Thread) (m : Machine) :
    Thread × Machine → Prop
  | stays (h : ∀ b, t.status = .waiting → t.blocker = some b → ¬ b.Due clock ended m) :
    Wakes clock ended t m (t, m)
  | resumes {b : Blocker} (hs : t.status = .waiting) (hb : t.blocker = some b)
      (hw : ∀ r count deadline, b ≠ .wait r count deadline) (hd : b.Due clock ended m) :
    Wakes clock ended t m (t.resumed, m)
  | timesOut {r : Ref} {count deadline : Nat} (hs : t.status = .waiting)
      (hb : t.blocker = some (.wait r count (some deadline))) (hd : deadline ≤ clock) :
    Wakes clock ended t m (t.notified, m.unwaited r t.id)

theorem Thread.Wakes.eases {clock : Nat} {ended : ThreadId → Bool} {t u : Thread} {m m' : Machine}
    (h : t.Wakes clock ended m (u, m')) : t.Eases u := by
  cases h with
  | stays => exact .same
  | resumes hs => exact .resumed .same (.inr hs)
  | timesOut => exact .notified .same

/-- Waking some threads, one after another. -/
inductive WakesAll (clock : Nat) (ended : ThreadId → Bool) :
    List Thread → Machine → List Thread × Machine → Prop
  | nil {m : Machine} : WakesAll clock ended [] m ([], m)
  | cons {t u : Thread} {ts us : List Thread} {m m₁ m₂ : Machine}
      (h : t.Wakes clock ended m (u, m₁)) (hs : WakesAll clock ended ts m₁ (us, m₂)) :
    WakesAll clock ended (t :: ts) m (u :: us, m₂)

namespace Vm

theorem wakeThread_wakes (clock : Nat) (ended : ThreadId → Bool) (t : Thread) (m : Machine) :
    t.Wakes clock ended m ((wakeThread clock ended t).run m) := by
  have stays {b : Blocker} (hb : t.blocker = some b) (hd : ¬ b.Due clock ended m) :
      t.Wakes clock ended m (t, m) := .stays fun b' _ hb' => by
    cases hb.symm.trans hb'
    exact hd
  unfold wakeThread
  by_cases hs : t.status = .waiting
  · simp only [hs, ne_eq, not_true_eq_false, if_false]
    split
    · next deadline hb =>
      split
      · next hd => exact .resumes hs hb (by simp) hd
      · next hd => exact stays hb hd
    · next target hb =>
      split
      · next hd => exact .resumes hs hb (by simp) hd
      · next hd => exact stays hb hd
    · next c hb =>
      simp only [StateT.run_bind, StateT.run_get, pure_bind]
      split
      · next id hi => exact stays hb (not_not.2 ⟨id, hi⟩)
      · next hi => exact .resumes hs hb (by simp) (not_exists.2 hi)
    · next r count deadline hb =>
      split
      · next hd => exact .timesOut hs hb hd
      · next hd =>
        refine stays hb ?_
        rintro ⟨d, hm, h⟩
        exact hd (Option.some.inj hm ▸ h)
    · next hsleep hjoin hinit hwait =>
      refine .stays fun b _ hb hd => ?_
      cases b with
      | monitor => exact hd
      | wait r count deadline =>
        obtain ⟨d, rfl, -⟩ := hd
        exact hwait r count d hb
      | join target => exact hjoin target hb
      | sleep deadline => exact hsleep deadline hb
      | classInit c => exact hinit c hb
  · simp only [ne_eq, hs, not_false_eq_true, if_true]
    exact .stays fun _ h => absurd h hs

theorem wakeDue_wakes (vm : Vm) : WakesAll vm.clock (hasEnded vm.threads) vm.threads.toList vm.machine
    (vm.wakeDue.threads.toList, vm.wakeDue.machine) := by
  have go : ∀ (l : List Thread) (m : Machine), WakesAll vm.clock (hasEnded vm.threads) l m
      ((l.mapM (wakeThread vm.clock (hasEnded vm.threads))).run m) := by
    intro l
    induction l with
    | nil => exact fun m => .nil
    | cons t l ih =>
      intro m
      rw [List.mapM_cons]
      exact .cons (wakeThread_wakes vm.clock (hasEnded vm.threads) t m) (ih _)
  rw [wakeDue_eq]
  exact go vm.threads.toList vm.machine

/-- The next thread is chosen just after waking. -/
theorem choose_woken (vm : Vm) : ∃ vm' : Vm, vm.choose.2 = vm'.wakeDue := by
  unfold choose
  dsimp only
  split
  · exact ⟨vm, rfl⟩
  · split
    · exact ⟨vm, rfl⟩
    · exact ⟨_, rfl⟩

/-- What waking and setting the clock keep, choosing keeps. -/
theorem choose_keeps {P : Vm → Prop} (hw : ∀ vm, P vm → P vm.wakeDue)
    (hc : ∀ vm clock, P vm → P { vm with clock }) {vm : Vm} (h : P vm) : P vm.choose.2 := by
  have woken := hw vm h
  unfold choose
  dsimp only
  split
  · exact woken
  · split
    · exact woken
    · exact hw _ (hc _ _ woken)

end Vm

namespace WakesAll

variable {clock : Nat} {ended : ThreadId → Bool} {ts us : List Thread} {m m' : Machine} {u : Thread}

/-- Each thread there was is woken, or left alone, at some time. -/
theorem get? (h : WakesAll clock ended ts m (us, m')) {j : Nat} {t : Thread} (ht : ts[j]? = some t) :
    ∃ u m₁ m₂, us[j]? = some u ∧ t.Wakes clock ended m₁ (u, m₂) := by
  generalize hx : (us, m') = x at h
  induction h generalizing us j with
  | nil => cases ht
  | cons h _ ih =>
    cases hx
    cases j with
    | zero =>
      cases ht
      exact ⟨_, _, _, rfl, h⟩
    | succ j =>
      rw [List.getElem?_cons_succ] at ht ⊢
      exact ih ht rfl

/-- Waking initializes nothing. -/
theorem classStates_eq (h : WakesAll clock ended ts m (us, m')) : m'.classStates = m.classStates := by
  generalize hx : (us, m') = x at h
  induction h generalizing us with
  | nil =>
    cases hx
    rfl
  | cons h _ ih =>
    cases hx
    refine (ih rfl).trans ?_
    cases h <;> rfl

/-- A thread that is left waiting for the initialization of a class waits for one that is under
    way. -/
theorem inProgress (h : WakesAll clock ended ts m (us, m')) (hu : u ∈ us) (hs : u.status = .waiting) {c : Class}
    (hb : u.blocker = some (.classInit c)) :
    ∃ id, (Exec.stateOf m' c).init = .inProgress id := by
  generalize hx : (us, m') = x at h
  induction h generalizing us with
  | nil =>
    cases hx
    cases hu
  | cons h hr ih =>
    cases hx
    rcases List.mem_cons.1 hu with rfl | hu
    · have same := hr.classStates_eq
      cases h with
      | stays hc =>
        obtain ⟨id, hi⟩ := not_not.1 (hc _ hs hb)
        refine ⟨id, ?_⟩
        rw [← hi, Exec.stateOf, Exec.stateOf, same]
      | resumes => cases hs
      | timesOut _ hb' _ =>
        rw [Thread.notified, hb'] at hs
        cases hs
    · exact ih hu rfl

/-- If nothing has come that a thread waits for, all are left alone. -/
theorem still (h : WakesAll clock ended ts m (us, m')) (hd : ∀ t ∈ ts, ∀ b, t.status = .waiting →
    t.blocker = some b → ¬ b.Due clock ended m) : us = ts ∧ m' = m := by
  generalize hx : (us, m') = x at h
  induction h generalizing us with
  | nil =>
    cases hx
    exact ⟨rfl, rfl⟩
  | cons h _ ih =>
    cases hx
    have hd' := hd _ (List.mem_cons_self ..)
    cases h with
    | stays =>
      obtain ⟨rfl, rfl⟩ := ih (fun t ht => hd t (List.mem_cons_of_mem _ ht)) rfl
      exact ⟨rfl, rfl⟩
    | resumes hs hb _ hdue => exact absurd hdue (hd' _ hs hb)
    | timesOut hs hb hle => exact absurd ⟨_, rfl, hle⟩ (hd' _ hs hb)

/-- If no thread can run afterwards, all were left alone. -/
theorem unmoved (h : WakesAll clock ended ts m (us, m')) (hr : ∀ u ∈ us, u.status ≠ .runnable) :
    us = ts ∧ m' = m ∧ ∀ t ∈ ts, ∀ b, t.status = .waiting → t.blocker = some b →
      ¬ b.Due clock ended m := by
  generalize hx : (us, m') = x at h
  induction h generalizing us with
  | nil =>
    cases hx
    exact ⟨rfl, rfl, fun _ ht => by cases ht⟩
  | cons h _ ih =>
    cases hx
    have hr' := hr _ (List.mem_cons_self ..)
    cases h with
    | stays hd =>
      obtain ⟨rfl, rfl, hrest⟩ := ih (fun u hu => hr u (List.mem_cons_of_mem _ hu)) rfl
      refine ⟨rfl, rfl, fun t ht => ?_⟩
      rcases List.mem_cons.1 ht with rfl | ht
      · exact hd
      · exact hrest t ht
    | resumes => exact absurd rfl hr'
    | timesOut _ hb =>
      rw [Thread.notified, hb] at hr'
      exact absurd rfl hr'

end WakesAll

end GreenVm
