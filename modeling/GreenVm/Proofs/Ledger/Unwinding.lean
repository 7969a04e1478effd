/-
  What becomes of the ledger of a thread when it leaves frames: when it throws, and when it is ended
  by an engine error.
-/
import GreenVm.Proofs.Ledger.States

namespace GreenVm

namespace ThreadM

variable {id : ThreadId} {extra : List Ref} {f : Frame} {fs rest : List Frame}
  {α : Type} {r : Ref}

/-! ## Leaving frames -/

/-- Releasing takes a hold that was not recorded out of the ledger. -/
theorem release_leads : Leads (Busy id (r :: extra) fs)
    (liftM (Exec.release id r) : ThreadM Unit) (fun _ => Busy id extra fs) (fun _ => False) := by
  rintro ⟨t, m⟩ h
  obtain ⟨m', e, hc, hh, ts, hq⟩ := Exec.release_spec r id m
  rw [outcome_liftThread]
  simp only [e]
  exact
    { id_eq := h.id_eq
      counted := hc h.counted
      status_eq := h.status_eq
      blocker_eq := h.blocker_eq
      reacquire_eq := h.reacquire_eq
      frames_eq := h.frames_eq
      noWait := fun w ew => h.noWait w (by rw [hq] at ew; exact ew)
      balanced := fun r' => by
        have := h.balanced r'
        rw [hh id r']
        by_cases hr : r = r'
        · subst hr
          simp only [List.count_cons_self] at this
          simp only [and_self, if_true]
          omega
        · rw [List.count_cons_of_ne hr] at this
          simpa [hr] using this }

theorem releaseAll_leads (rs : List Ref) : Leads (Busy id (rs ++ extra) fs) (releaseAll rs)
    (fun _ => Busy id extra fs) (fun _ => False) :=
  releaseAll_rule (P := fun rs => Busy id (rs ++ extra) fs) (fun _ _ h => h.id_eq)
    (fun _ _ => release_leads) rs

/-- A frame that is left takes the holds with it that it has recorded. -/
theorem leaveFrame_leads : Leads (Busy id extra (f :: rest)) (leaveFrame f rest)
    (fun _ => Busy id extra rest) (fun _ => False) := by
  rintro ⟨t, m⟩ h
  rw [leaveFrame, outcome_bind_ok (outcome_modifyThread _ _)]
  refine releaseAll_leads f.monitors _ ?_
  exact
    { id_eq := h.id_eq
      counted := h.counted
      status_eq := h.status_eq
      blocker_eq := h.blocker_eq
      reacquire_eq := h.reacquire_eq
      frames_eq := rfl
      noWait := h.noWait
      balanced := fun r => by
        have : m.holds id r ≤ _ := h.balanced r
        rw [Thread.recordedIn_cons] at this
        rw [List.count_append]
        show m.holds id r ≤ _
        omega }

/-- The end of a thread that has left all its frames. -/
theorem terminate_leads {c : Completion} : Leads (Busy id [] []) (terminate c)
    (fun _ => Rested id) (Failing id) := by
  rintro ⟨t, m⟩ h
  rw [terminate, outcome_modifyThread]
  exact h.rested_blocked rfl (fun _ _ _ => nofun) (fun _ => rfl) fun _ => ⟨rfl, rfl⟩

theorem blockOn_leads : Leads (Busy id [] fs) (blockOn r)
    (fun _ => Rested id) (Failing id) := by
  rintro ⟨t, m⟩ h
  rw [blockOn, outcome_modifyThread]
  exact h.rested_blocked rfl (fun _ _ _ => nofun) nofun nofun

theorem awaitInit_leads {c : Class} : Leads (Busy id [] fs) (awaitInit c)
    (fun _ => Rested id) (Failing id) := by
  rintro ⟨t, m⟩ h
  rw [awaitInit, outcome_modifyThread]
  exact h.rested_blocked rfl (fun _ _ _ => nofun) nofun nofun

/-- Changing the entry of the thread. -/
theorem modifyEntry_leads {g : Thread → Thread}
    (hg : ∀ t, g t = { t with entry := (g t).entry }) :
    Leads (Busy id extra fs) (modifyThe Thread g : ThreadM Unit)
      (fun _ => Busy id extra fs) (fun _ => False) := by
  rintro ⟨t, m⟩ h
  rw [outcome_modifyThread]
  refine h.withFrames (fun _ => rfl) ?_
  conv_lhs => rw [hg t]
  have := h.frames_eq
  subst this
  rw [hg t]

/-! ## Unwinding -/

/-- Work on the machine that leaves the locks alone, while all holds are recorded. -/
theorem lift_leads {x : Exec α} (hx : Within LeavesLocks x) :
    Leads (Busy id [] fs) (liftM x : ThreadM α) (fun _ => Busy id [] fs) (Failing id) :=
  (Busy.lift hx).failing fun _ => Busy.failing

theorem liftExcept_leads (x : Except Fault α) :
    Leads (Busy id [] fs) (liftM x : ThreadM α) (fun _ => Busy id [] fs) (Failing id) :=
  .liftExcept x (fun _ _ _ h => h) fun _ => Busy.failing

theorem setInit_leads {c : Class} {init : InitState} :
    Leads (Busy id [] fs) (liftM (Exec.setInit c init) : ThreadM Unit)
      (fun _ => Busy id [] fs) (fun _ => False) := by
  rintro ⟨t, m⟩ h
  exact h.machine (Exec.setInit_within m)

/-- The top frame is replaced by one that records as much. -/
theorem setTop_leads (f f' : Frame) (hf : f'.monitors = f.monitors) :
    Leads (Busy id extra (f :: rest)) (setTop f') (fun _ => Busy id extra (f' :: rest))
      (fun _ => False) := by
  rintro ⟨t, m⟩ h
  rw [setTop, outcome_modifyThread]
  refine h.withFrames (fun r => by simp [hf]) ?_
  simp only [show t.frames = f :: rest from h.frames_eq, List.tail_cons]

theorem unwindFrom_leads : ∀ (fs : List Frame) (r : Ref),
    Leads (Busy id [] fs) (unwindFrom r fs) (fun _ => Rested id) (Failing id)
  | [], r => by
    rw [unwindFrom]
    refine .bind ((modifyEntry_leads fun _ => rfl).failing fun _ => False.elim) fun _ => ?_
    exact .bind (lift_leads Exec.get_within) fun _ => terminate_leads
  | f :: rest, r => by
    rw [unwindFrom]
    refine .bind (lift_leads Exec.findHandler?_within) fun handler => ?_
    cases handler with
    | some handler =>
      refine .bind (liftExcept_leads _) fun stack => ?_
      exact (setTop_leads f { f with stack, pc := handler } rfl).weaken (fun _ h => h)
        (fun _ _ => Busy.rested) fun _ => False.elim
    | none =>
      refine .bind (leaveFrame_leads.failing fun _ => False.elim) fun _ => ?_
      split
      · exact unwindFrom_leads rest r
      · exact .bind (lift_leads Exec.setInit_within) fun _ =>
          .bind (lift_leads Exec.initializerFailure_within) fun _ => unwindFrom_leads rest _

/-- Unwinding from the frames the thread has. -/
theorem unwind_leads (e : Throwable) :
    Leads (Failing id) (unwind e) (fun _ => Rested id) (Failing id) := by
  rintro s ⟨fs, h⟩
  have materialized : Leads (Busy id [] fs) (liftM (Exec.materialize e) : ThreadM Ref)
      (fun _ => Busy id [] fs) (Failing id) := lift_leads Exec.materialize_within
  refine materialized.bind (fun r => ?_) s h
  intro s h
  rw [outcome_bind_ok (outcome_getThread s), h.frames_eq]
  exact unwindFrom_leads fs r s h

theorem leaveAll_leads : ∀ fs : List Frame,
    Leads (Busy id [] fs) (leaveAll fs) (fun _ => Busy id [] []) (fun _ => False)
  | [] => .pure _ fun _ h => h
  | f :: rest => by
    rw [leaveAll]
    refine .bind leaveFrame_leads fun _ => ?_
    split
    · exact .bind setInit_leads fun _ => leaveAll_leads rest
    · exact leaveAll_leads rest

/-- Ending a thread with an engine error takes all its frames and holds from it. -/
theorem abort_leads (e : EngineError) :
    Leads (Failing id) (abort e) (fun _ => Rested id) (Failing id) := by
  rintro s ⟨fs, h⟩
  rw [abort, outcome_bind_ok (outcome_getThread s), h.frames_eq]
  refine Leads.bind ((leaveAll_leads fs).failing fun _ => False.elim) (fun _ => ?_) s h
  refine .bind (Q := fun _ => Busy id [] []) ?_ fun _ => terminate_leads
  rintro ⟨t, m⟩ h
  rw [outcome_modifyThread]
  exact
    { id_eq := h.id_eq
      counted := h.counted
      status_eq := h.status_eq
      blocker_eq := h.blocker_eq
      reacquire_eq := rfl
      frames_eq := h.frames_eq
      noWait := h.noWait
      balanced := h.balanced }

end ThreadM

end GreenVm
