/-
  A step of one thread leaves the holds of all others alone.

  * `SparesOthers id`: a relation between machines: nobody's holds have changed but those of thread
    `id`, and threads that are to be started have not run.
  * `Thread.step_sparesOthers`: every step of a thread stays within it, however it ends.
-/
import GreenVm.Proofs.Quiet.Steps
import GreenVm.Proofs.Locks

namespace GreenVm

/-- Nobody's holds have changed but those of one thread, and new threads have not run. -/
structure SparesOthers (id : ThreadId) (m m' : Machine) : Prop where
  holds_eq : ∀ u, u ≠ id → ∀ r, m'.holds u r = m.holds u r
  owner_iff : ∀ u, u ≠ id → ∀ r,
    (m'.monitorAt r).owner = some u ↔ (m.monitorAt r).owner = some u
  spawned : ∃ ts, m'.requests.spawned = m.requests.spawned ++ ts ∧ ∀ t ∈ ts, t.IsNew

variable {id : ThreadId} {m m' m'' : Machine} {host : Host}

theorem LeavesLocks.sparesOthers (h : LeavesLocks m m') : SparesOthers id m m' where
  holds_eq := fun u _ r => h.holds_eq u r
  owner_iff := fun u _ r => by rw [h.owner_eq r]
  spawned := h.spawned

theorem GaveUp.sparesOthers {r : Ref} {c : Nat} (h : GaveUp id r c m m') :
    SparesOthers id m m' where
  holds_eq := fun u hu r' => by rw [h.holds_eq, if_neg fun e => hu e.1.symm]
  owner_iff := h.owner_iff
  spawned := ⟨[], by simp [h.spawned], by simp⟩

namespace SparesOthers

theorem refl (m : Machine) : SparesOthers id m m := (LeavesLocks.refl m).sparesOthers

theorem trans (h : SparesOthers id m m') (h' : SparesOthers id m' m'') :
    SparesOthers id m m'' where
  holds_eq := fun u hu r => (h'.holds_eq u hu r).trans (h.holds_eq u hu r)
  owner_iff := fun u hu r => (h'.owner_iff u hu r).trans (h.owner_iff u hu r)
  spawned := Thread.exists_added_trans h.spawned h'.spawned

instance : Std.Refl (SparesOthers id) := ⟨.refl⟩

instance : IsTrans Machine (SparesOthers id) := ⟨fun _ _ _ => .trans⟩

instance : Quiet (SparesOthers id) := .mono fun _ _ => LeavesLocks.sparesOthers

instance : StoresBytes (SparesOthers id) := .mono fun _ _ => LeavesLocks.sparesOthers

instance : Initializes (SparesOthers id) where
  setInit m c init := (Initializes.setInit (R := LeavesLocks) m c init).sparesOthers

end SparesOthers

/-! ## Operations on monitors -/

namespace Monitor

variable {m m' : Monitor} {u : ThreadId}

/-- A thread that tries to enter a monitor takes it from nobody. -/
theorem tryEnter_others (m : Monitor) (n : Nat) (hu : u ≠ id) :
    (m.tryEnter id n).2.holds u = m.holds u ∧
      ((m.tryEnter id n).2.owner = some u ↔ m.owner = some u) := by
  rcases tryEnter_cases m id n with ⟨ho, e⟩ | ⟨ho, -, e⟩ | ⟨-, -, e⟩ <;> rw [e]
  · simp [holds, ho, hu.symm]
  · simp [holds, ho, hu.symm]
  · obtain ⟨ho, hc⟩ := enqueue_owner m id
    exact ⟨holds_of_owner ho hc u, by rw [ho]⟩

/-- A thread that leaves a monitor has been its owner, so that nobody else had a hold. -/
theorem exit_others {p : Option ThreadId} (e : m.exit id = .ok (p, m')) (hu : u ≠ id) :
    m'.holds u = m.holds u ∧ (m'.owner = some u ↔ m.owner = some u) := by
  obtain ⟨ho, ⟨-, -, rfl⟩ | ⟨-, -, rfl⟩⟩ := exit_ok e <;> simp [holds, ho, hu.symm]

end Monitor

namespace Exec

theorem withMonitor_sparesOthers {α : Type} {r : Ref} {f : Monitor → Except Fault (α × Monitor)}
    (h : ∀ m a m', f m = .ok (a, m') → ∀ u, u ≠ id →
      m'.holds u = m.holds u ∧ (m'.owner = some u ↔ m.owner = some u)) :
    Within (SparesOthers id) (withMonitor r f) := by
  intro m
  rcases withMonitor_cases r f m with ⟨e, he⟩ | ⟨o, a, monitor, ho, hf, he⟩
  · rw [he]
    exact .refl m
  · rw [he]
    have hr {u : ThreadId} (hu : u ≠ id) (r' : Ref) :
        ((withNewMonitor m r o monitor).monitorAt r').holds u = (m.monitorAt r').holds u ∧
          (((withNewMonitor m r o monitor).monitorAt r').owner = some u ↔
            (m.monitorAt r').owner = some u) := by
      rw [Machine.monitorAt_withNewMonitor ho]
      split
      · next e =>
        subst e
        rw [Machine.monitorAt_eq ho]
        exact h _ _ _ hf u hu
      · exact ⟨rfl, Iff.rfl⟩
    exact ⟨fun u hu r' => (hr hu r').1, fun u hu r' => (hr hu r').2, [], by simp [withNewMonitor],
      by simp⟩

end Exec

/-! ## Steps -/

theorem stepsWithin_sparesOthers (hh : host.Within LeavesLocks) (id : ThreadId) :
    StepsWithin (SparesOthers id) host id where
  native native call h m := by
    subst h
    rcases Native.run_cases hh m with hl | ⟨r, c, m', -, -, he, hg⟩
    · exact hl.sparesOthers
    · rw [he]
      exact hg.sparesOthers
  tryEnter r n := Exec.withMonitor_sparesOthers fun m a m' e u hu => by
    have := Monitor.tryEnter_others m n hu
    rwa [Except.ok.inj e] at this
  leave r := .bind (Exec.withMonitor_sparesOthers fun _ _ _ e _ => Monitor.exit_others e) fun _ _ =>
    ⟨fun _ _ _ => rfl, fun _ _ _ => Iff.rfl, [], by simp [Exec.wake, Exec.request], by simp⟩

/-- A step changes nobody's holds but those of its thread. -/
theorem Thread.step_sparesOthers (hh : host.Within LeavesLocks) (t : Thread) (m : Machine) :
    SparesOthers t.id m ((t.step host).run m).2 :=
  (Thread.step_within (stepsWithin_sparesOthers hh t.id)).2

end GreenVm
