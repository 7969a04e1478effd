/-
  Instructions that are put off run again as if they had not been tried.

  * `Thread.PutsOff t t'`: in the step from `t` to `t'` the thread has come to an obstacle: a monitor
    that is taken, a class that another thread initializes, or one that it has to initialize itself.
  * `Thread.StandsAt t f rest`: the frame `f` is on top of the thread, or beneath an initializer that
    has to run first.
  * `Vm.putsOff_after`: the step has left the frame of the instruction and all holds as they were, and
    the frame stays so until the instruction runs again from it for good, or something fails.
-/
import GreenVm.Proofs.Nesting

namespace GreenVm

namespace Thread

variable {host : Host} {t u : Thread} {m m' m₁ : Machine} {f g : Frame} {rest : List Frame}
  {r : MethodRef}

/-- From `t` to `t'` a thread has come to an obstacle. -/
inductive PutsOff (t t' : Thread) : Prop
  /-- It waits for a monitor. -/
  | blocks (hs : t'.status = .blocked)
  /-- It waits for another thread to initialize a class. -/
  | awaits (hs : t'.status = .waiting)
  /-- It has pushed the frame of an initializer. -/
  | initializes {g : Frame} {gs : List Frame} (hf : t'.frames = g :: gs) (hk : g.kind = .classInit)
      (hl : gs.length = t.frames.length)

/-- The frame is on top, or beneath the initializer of a class. -/
def StandsAt (t : Thread) (f : Frame) (rest : List Frame) : Prop :=
  t.frames = f :: rest ∨ ∃ g, g.kind = .classInit ∧ t.Inside g (f :: rest)

theorem StandsAt.frames_ne_nil (h : t.StandsAt f rest) : t.frames ≠ [] := by
  rcases h with hf | ⟨g, -, above, g', hf, -⟩ <;> rw [hf] <;> simp

theorem StandsAt.of_frames (h : t.StandsAt f rest) (hf : u.frames = t.frames) : u.StandsAt f rest :=
  h.imp hf.trans fun ⟨g, hk, hi⟩ => ⟨g, hk, hi.of_frames hf⟩

/-! ## No obstacle -/

/-- A thread that can go on, or has ended, and has no more frames than before. -/
theorem not_putsOff (hs : u.status = .runnable ∨ u.status = .terminated)
    (hl : u.frames.length ≤ t.frames.length) : ¬ t.PutsOff u := by
  intro h
  cases h with
  | blocks h => rcases hs with hs | hs <;> cases hs.symm.trans h
  | awaits h => rcases hs with hs | hs <;> cases hs.symm.trans h
  | initializes hf _ h =>
    rw [hf, List.length_cons] at hl
    omega

theorem Unwinds.status {o : Ref} {fs : List Frame} {x : Except Fault Unit × Thread × Machine}
    (hu : t.Unwinds m o fs x) (hs : t.status = .runnable) :
    x.2.1.status = .runnable ∨ x.2.1.status = .terminated := by
  induction hu with
  | unhandled => exact .inr rfl
  | passes _ _ _ ih => exact ih hs
  | fails _ _ _ _ ih => exact ih hs
  | _ => exact .inl hs

theorem Recovers.status {e : Fault} (hr : t.Recovers m e (u, m')) (hs : t.status = .runnable) :
    u.status = .runnable ∨ u.status = .terminated := by
  cases hr with
  | throws _ hu => exact hu.status hs
  | _ => exact .inr rfl

theorem Attempts.status_of_error {e : Fault} (ha : t.Attempts host m (.error e, u, m'))
    (hf : t.frames = f :: rest) : u.status = t.status := by
  cases ha with
  | dangling => rfl
  | starts _ hf' => cases hf.symm.trans hf'
  | executes _ _ hx =>
    cases hx with
    | failed => rfl
    | initializes _ hb => cases hb; rfl
    | invokes _ hi =>
      cases hi with
      | unlocked => rfl
      | unguarded _ hc => cases hc <;> rfl
      | guarded _ hc => cases hc <;> rfl
    | returns _ hr => cases hr; rfl

/-! ## The obstacle -/

/-- Calls that are made push no initializer. -/
theorem Calls.not_putsOff {lock : Option Ref} (hc : t.Calls host f m r lock (.ok (), u, m'))
    (hs : t.status = .runnable) (hf : t.frames = f :: rest) : ¬ t.PutsOff u := by
  cases hc with
  | entered _ _ _ he =>
    intro h
    cases h with
    | blocks h => cases hs.symm.trans h
    | awaits h => cases hs.symm.trans h
    | initializes hf hk _ =>
      obtain ⟨rfl, -⟩ := List.cons.inj hf
      cases (Frame.enter_ok he).2.1.symm.trans hk
  | returned =>
    refine Thread.not_putsOff (.inl hs) ?_
    rw [show (Thread.withTop _ _).frames = _ :: t.frames.tail from rfl, hf]
    exact le_rfl

/-- Coming to a call or to an obstacle changes no hold. -/
theorem execute_leavesLocks (hh : host.Within LeavesLocks) {id : ThreadId} {f' : Frame} {next : Next}
    (h : outcome (Frame.execute host id) (f, m) = (.ok next, f', m₁))
    (hl : next.leavesFrame = true) : LeavesLocks m m₁ := by
  rw [Frame.execute, outcome_bind_ok (outcome_getFrame _)] at h
  cases hi : f.code.instructions[f.pc]? with
  | none =>
    simp only [hi] at h
    cases (outcome_throw _ _).symm.trans h
  | some i =>
    simp only [hi] at h
    by_cases he : i = .monitorEnter
    · subst he
      have hm := FrameM.monitorEnter_spec id f m
      rw [show FrameM.monitorEnter id = FrameM.execute host id .monitorEnter from rfl, h] at hm
      cases hm with
      | busy _ he => exact Exec.tryEnter_refused he
      | entered => cases hl
    · by_cases hx : i = .monitorExit
      · subst hx
        have hp := FrameM.andAdvance_plain _ _ _ h
        rw [Next.isPlain.not_leavesFrame hp] at hl
        cases hl
      · exact ((FrameM.execute_quiet (initializesWithin_leavesLocks hh id) he hx
          fun _ => inferInstance).of_eq h).2

/-- **An instruction that is put off has taken nothing from its frame, or from the frames beneath, and
    has changed no hold.** -/
theorem Executes.putsOff (hx : t.Executes host f m rest (.ok (), u, m')) (hs : t.status = .runnable)
    (hf : t.frames = f :: rest) (hp : t.PutsOff u) :
    (u.frames = f :: rest ∨ ∃ g, g.kind = .classInit ∧ u.frames = g :: f :: rest) ∧
      (host.Within LeavesLocks → LeavesLocks m m') := by
  -- a call that is made is no obstacle
  have called {f' : Frame} {r : MethodRef} {lock : Option Ref} {m₂ : Machine}
      (hc : ({ t with frames := f' :: rest } : Thread).Calls host f' m₂ r lock (.ok (), u, m')) :
      False := by
    refine hc.not_putsOff hs rfl ?_
    cases hp with
    | blocks h => exact .blocks h
    | awaits h => exact .awaits h
    | initializes hg hk hl => exact .initializes hg hk (hl.trans (by simp [hf]))
  have goesOn (hs : u.status = .runnable ∨ u.status = .terminated)
      (hl : u.frames.length ≤ rest.length + 1) : False :=
    not_putsOff hs (by rw [hf]; exact hl) hp
  cases hx with
  | advances => exact (goesOn (.inl hs) le_rfl).elim
  | jumps => exact (goesOn (.inl hs) le_rfl).elim
  | blocks hx =>
    cases Frame.execute_same hx rfl
    exact ⟨.inl rfl, fun hh => execute_leavesLocks hh hx rfl⟩
  | awaits hx =>
    cases Frame.execute_same hx rfl
    exact ⟨.inl rfl, fun hh => execute_leavesLocks hh hx rfl⟩
  | initializes hx hb =>
    cases Frame.execute_same hx rfl
    cases hb with
    | pushed he =>
      exact ⟨.inr ⟨_, (Frame.enter_ok he).2.1, rfl⟩, fun hh => execute_leavesLocks hh hx rfl⟩
  | invokes hx hi =>
    cases Frame.execute_same hx rfl
    cases hi with
    | busy hl =>
      refine ⟨.inl rfl, fun hh => (execute_leavesLocks hh hx rfl).trans ?_⟩
      cases hl with
      | busy _ hl he =>
        have found : LeavesLocks _ _ := MethodRef.lock_within.of_eq hl
        exact found.trans (Exec.tryEnter_refused he)
    | unguarded _ hc => exact (called hc).elim
    | guarded _ hc => exact (called hc).elim
  | returns hx hr =>
    refine (?_ : False).elim
    cases hr with
    | initialized => exact goesOn (.inl hs) (Nat.le_succ _)
    | returned => exact goesOn (.inl hs) (Nat.le_succ _)
    | started => exact goesOn (.inl hs) (Nat.zero_le _)
    | ended => exact goesOn (.inr rfl) (Nat.zero_le _)

/-- So it is with a step of a thread that executes an instruction. -/
theorem step_putsOff (hr : t.reacquire = none) (hf : t.frames = f :: rest)
    (hp : t.PutsOff ((t.step host).run m).1) :
    (((t.step host).run m).1.frames = f :: rest ∨
        ∃ g, g.kind = .classInit ∧ ((t.step host).run m).1.frames = g :: f :: rest) ∧
      (host.Within LeavesLocks → LeavesLocks m ((t.step host).run m).2) := by
  by_cases hs : t.status = .runnable
  · have ha := ThreadM.tryStep_attempts host t m
    rcases ho : outcome (ThreadM.tryStep host) (t, m) with ⟨e | _, t₁, m₁⟩ <;> rw [ho] at ha
    · have hrec := step_of_error hs ho
      refine (not_putsOff (hrec.status ((ha.status_of_error hf).trans hs)) ?_ hp).elim
      have hl : t₁.frames.length ≤ t.frames.length := by
        rcases ha.frames_of_error hf with ⟨f', hf', -⟩ | hf' <;> rw [hf', hf]
        · exact le_rfl
        · exact Nat.le_succ _
      exact hrec.frames_length.trans hl
    · rw [step_of_ok hs ho] at hp ⊢
      exact (ha.executes_of hr hf).putsOff hs hf hp
  · rw [step_of_not_runnable hs]
    exact ⟨.inl hf, fun _ => .refl m⟩

end Thread

namespace Thread

variable {host : Host} {t : Thread} {m : Machine} {f : Frame} {rest : List Frame}

/-- The instruction is executed again from the same frame, and not put off, or something fails before
    that: the initializer, or the thread as a whole. -/
inductive Resumes (host : Host) (f : Frame) (rest : List Frame) (t : Thread) (m : Machine) : Prop
  | executes (hr : t.reacquire = none) (hf : t.frames = f :: rest)
      (hp : ¬ t.PutsOff ((t.step host).run m).1)
  | fails (hx : (outcome (ThreadM.tryStep host) (t, m)).1 ≠ .ok ())
      (hl : ((t.step host).run m).1.frames.length ≤ rest.length + 1)

/-- Until then it stands at the instruction. -/
theorem StandsAt.step (h : t.StandsAt f rest) (host : Host) (m : Machine) :
    ((t.step host).run m).1.StandsAt f rest ∨ t.Resumes host f rest m := by
  rcases h with hf | ⟨g, hk, hi⟩
  · cases hr : t.reacquire with
    | none =>
      by_cases hp : t.PutsOff ((t.step host).run m).1
      · obtain ⟨h | ⟨g, hk, h⟩, -⟩ := step_putsOff hr hf hp
        · exact .inl (.inl h)
        · exact .inl (.inr ⟨g, hk, [], g, h, .refl g⟩)
      · exact .inr (.executes hr hf hp)
    | some p =>
      -- it has a monitor to take back first, which leaves the frames alone
      by_cases hs : t.status = .runnable
      · have ha := ThreadM.tryStep_attempts host t m
        rcases ho : outcome (ThreadM.tryStep host) (t, m) with ⟨e | _, t₁, m₁⟩ <;> rw [ho] at ha
        · refine .inr (.fails (by rw [ho]; nofun) ?_)
          have hl := (step_of_error hs ho).frames_length
          cases ha with
          | dangling => exact hl.trans (congrArg List.length hf).le
          | starts hr' => cases hr.symm.trans hr'
          | executes hr' => cases hr.symm.trans hr'
        · rw [step_of_ok hs ho]
          cases ha with
          | reacquires => exact .inl (.inl hf)
          | blocksAgain => exact .inl (.inl hf)
          | starts hr' => cases hr.symm.trans hr'
          | executes hr' => cases hr.symm.trans hr'
      · rw [step_of_not_runnable hs]
        exact .inl (.inl hf)
  · rcases hi.step host m with h | ⟨-, -, -, h⟩ | ⟨hx, -, hl⟩
    · exact .inl (.inr ⟨g, hk, h⟩)
    · exact .inl (.inl (h hk))
    · exact .inr (.fails hx hl)

end Thread

namespace Vm

variable {host : Host} {f : Frame} {rest : List Frame}

/-- **An instruction that is put off runs again as if it had not been tried.**  If its thread comes to
    a monitor that is taken, or to a class that has to be initialized first, by itself or by another
    thread, then the frame of the instruction is left as it is, with all frames beneath, and no hold on
    a monitor is taken.  Whatever all threads do from then on, the frame stays so until the instruction
    is executed from it again and not put off, or until something fails on the way there. -/
theorem putsOff_after (host : Host) (t : Thread) (m : Machine) (f : Frame) (rest : List Frame)
    (hr : t.reacquire = none) (hf : t.frames = f :: rest)
    (hp : t.PutsOff ((t.step host).run m).1) :
    (((t.step host).run m).1.frames = f :: rest ∨
        ∃ g, g.kind = .classInit ∧ ((t.step host).run m).1.frames = g :: f :: rest) ∧
      (host.Within LeavesLocks → ∀ u r, ((t.step host).run m).2.holds u r = m.holds u r) ∧
      ∀ vm i as, Takes vm i t m →
        (∃ u, ((vm.turn host).2.after host as).threads[i]? = some u ∧ u.StandsAt f rest) ∨
          ∃ bs cs u m', as = bs ++ .turn :: cs ∧ Takes ((vm.turn host).2.after host bs) i u m' ∧
            u.StandsAt f rest ∧ u.Resumes host f rest m' := by
  obtain ⟨hframes, hlocks⟩ := Thread.step_putsOff hr hf hp
  refine ⟨hframes, fun hh u r => (hlocks hh).holds_eq u r, fun vm i as ht => ?_⟩
  have stands : ((t.step host).run m).1.StandsAt f rest :=
    hframes.imp_right fun ⟨g, hk, h⟩ => ⟨g, hk, [], g, h, .refl g⟩
  obtain ⟨v, hv, hvf⟩ := ht.frames_eq host
  rcases after_until (P := (·.StandsAt f rest)) (fun _ _ e h => h.of_frames e) hv
    (stands.of_frames hvf) with h | ⟨bs, cs, u, m', e, hu, h, hend⟩
  · exact .inl h
  · exact .inr ⟨bs, cs, u, m', e, hu, h, (h.step host m').resolve_left hend⟩

/-- The second of two threads that call a synchronized method has to wait for the first, and calls it
    then. -/
theorem putsOff_after_contention :
    let vm := (ofCaller "()V" []).after .idle
      ([.spawn "A" "main" "()V" [], .spawn "A" "main" "()V" []] ++ List.replicate 3 .turn)
    ∃ t m f rest, Takes vm 1 t m ∧ t.frames = f :: rest ∧ ((t.step .idle).run m).1.status = .blocked ∧
      (((t.step .idle).run m).1.frames = f :: rest ∨
        ∃ g, g.kind = .classInit ∧ ((t.step .idle).run m).1.frames = g :: f :: rest) ∧
      (∀ u r, ((t.step .idle).run m).2.holds u r = m.holds u r) ∧
      ∃ bs cs u m', List.replicate 9 .turn = bs ++ .turn :: cs ∧
        Takes ((vm.turn .idle).2.after .idle bs) 1 u m' ∧ u.StandsAt f rest ∧
        u.Resumes .idle f rest m' := by
  intro vm
  have h : vm.picked? = some 1 ∧ (vm.choose.2.threads[1]?.any fun t =>
      t.reacquire = none ∧ t.frames.isEmpty = false ∧
        ((t.step .idle).run vm.choose.2.machine).1.status = .blocked) ∧
      ((vm.turn .idle).2.after .idle (List.replicate 9 .turn)).threads[1]?.all fun u =>
        u.frames.isEmpty := by
    decide +kernel
  obtain ⟨hp, hany, hend⟩ := h
  obtain ⟨t, ht, hany⟩ := (Option.any_eq_true _ _).1 hany
  obtain ⟨hr, hne, hb⟩ := of_decide_eq_true hany
  obtain ⟨f, rest, hf⟩ := List.exists_cons_of_ne_nil (l := t.frames) fun e => by simp [e] at hne
  have takes : Takes vm 1 t vm.choose.2.machine := ⟨hp, ht, rfl⟩
  obtain ⟨hframes, hholds, hruns⟩ := putsOff_after .idle t _ f rest hr hf (.blocks hb)
  refine ⟨t, _, f, rest, takes, hf, hb, hframes, hholds Host.idle_within, ?_⟩
  refine (hruns vm 1 (List.replicate 9 .turn) takes).resolve_left ?_
  rintro ⟨u, hu, h⟩
  rw [hu] at hend
  exact h.frames_ne_nil (List.isEmpty_iff.1 hend)

end Vm

end GreenVm
