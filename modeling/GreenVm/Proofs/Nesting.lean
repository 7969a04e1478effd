/-
  What the work of a thread does to the frames beneath its top frame.

  * `Thread.Inside t g fs`: the thread is in the call of the frame `g`, which lies on the frames `fs`,
    or in calls that this one has made.
  * `Thread.Completes`: the next instruction of a thread returns from that call.
  * `Thread.Inside.step`: inside a call nothing happens to the frames it lies on; it ends by a return,
    or by a failure that takes its frame off.
  * `Vm.Inside.after`: so it is over every run, whatever other threads do.
-/
import GreenVm.Proofs.Dispatch
import GreenVm.Proofs.Fairness
import GreenVm.Proofs.Steps

namespace GreenVm

theorem Frame.Keeps.trans {f f' f'' : Frame} (h : f.Keeps f') (h' : f'.Keeps f'') : f.Keeps f'' :=
  ⟨h'.method_eq.trans h.method_eq, h'.code_eq.trans h.code_eq, h'.kind_eq.trans h.kind_eq⟩

/-- An instruction leaves a frame that of the same call. -/
theorem Frame.execute_keeps {host : Host} {id : ThreadId} {f f' : Frame} {m m₁ : Machine}
    {x : Except Fault Next} (h : outcome (Frame.execute host id) (f, m) = (x, f', m₁)) :
    f.Keeps f' := by
  have hp := Frame.execute_performs host id f m
  rw [h] at hp
  cases hp with
  | acts hf => exact hf
  | calls hf => exact hf
  | refused => exact .refl f
  | awaits => exact .refl f
  | initializes => exact .refl f
  | uses _ _ hf => exact hf
  | callsStatic => exact .refl f
  | creates _ _ hf => exact hf

namespace Thread

variable {host : Host} {t t' u : Thread} {m m' : Machine} {f g : Frame} {fs rest : List Frame}
  {r : MethodRef}

/-- What work that succeeds makes of the frames of a thread that has some. -/
inductive Reframes (host : Host) (t : Thread) (m : Machine) : List Frame → Prop
  | stays {f f' : Frame} {rest : List Frame} (hf : t.frames = f :: rest) (hk : f.Keeps f') :
    Reframes host t m (f' :: rest)
  | pushes {f f' g : Frame} {rest : List Frame} (hf : t.frames = f :: rest) (hk : f.Keeps f') :
    Reframes host t m (g :: f' :: rest)
  | leaves {f f' : Frame} {rest fs : List Frame} {value : Option Value} {m₁ : Machine}
      (hr : t.reacquire = none) (hf : t.frames = f :: rest)
      (hx : outcome (Frame.execute host t.id) (f, m) = (.ok (.leave value), f', m₁))
      (hc : f.kind = .classInit → fs = rest)
      (hfs : ∀ caller callers, rest = caller :: callers →
        ∃ caller', fs = caller' :: callers ∧ caller.Keeps caller') : Reframes host t m fs

theorem Calls.reframes {lock : Option Ref} {f₀ : Frame} {m₀ m₁ : Machine}
    (hc : t.Calls host f m₁ r lock (.ok (), t', m')) (hf : t.frames = f :: rest)
    (hu : u.frames = f₀ :: rest) (hk : f₀.Keeps f) : u.Reframes host m₀ t'.frames := by
  have keeps (stack : OperandStack) (pc : Nat) : f₀.Keeps { f with stack, pc } :=
    ⟨hk.method_eq, hk.code_eq, hk.kind_eq⟩
  cases hc with
  | entered =>
    rw [show (Thread.pushed _ _).frames = _ :: _ :: t.frames.tail from rfl, hf]
    exact .pushes hu (keeps _ f.pc)
  | returned =>
    rw [show (Thread.withTop _ _).frames = _ :: t.frames.tail from rfl, hf]
    exact .stays hu (keeps _ _)

theorem Executes.reframes (hx : t.Executes host f m rest (.ok (), t', m'))
    (hr : t.reacquire = none) (hf : t.frames = f :: rest) : t.Reframes host m t'.frames := by
  cases hx with
  | advances hx => exact .stays hf ((Frame.execute_keeps hx).trans (Frame.moved_moves _ _).keeps)
  | jumps hx => exact .stays hf ((Frame.execute_keeps hx).trans (Frame.moved_moves _ _).keeps)
  | blocks hx => exact .stays hf (Frame.execute_keeps hx)
  | awaits hx => exact .stays hf (Frame.execute_keeps hx)
  | initializes hx hb =>
    cases hb with
    | pushed => exact .pushes hf (Frame.execute_keeps hx)
  | invokes hx hi =>
    cases hi with
    | busy => exact .stays hf (Frame.execute_keeps hx)
    | unguarded _ hc => exact hc.reframes rfl hf (Frame.execute_keeps hx)
    | guarded _ hc => exact hc.reframes rfl hf (Frame.execute_keeps hx)
  | returns hx hret =>
    have hk := (Frame.execute_keeps hx).kind_eq
    cases hret with
    | initialized =>
      refine .leaves hr hf hx (fun _ => rfl) fun caller callers e => ⟨caller, e, .refl caller⟩
    | returned hm =>
      refine .leaves hr hf hx (fun hc => ?_) fun caller callers e => ?_
      · rw [hk, hc] at hm
        cases hm
      · cases e
        exact ⟨_, rfl, rfl, rfl, rfl⟩
    | started => exact .leaves hr hf hx (fun _ => rfl) nofun
    | ended => exact .leaves hr hf hx (fun _ => rfl) nofun

theorem Attempts.reframes (ha : t.Attempts host m (.ok (), t', m')) (hf : t.frames = f :: rest) :
    t.Reframes host m t'.frames := by
  have same (h : t'.frames = t.frames) : t.Reframes host m t'.frames := by
    rw [h, hf]
    exact .stays hf (.refl f)
  cases ha with
  | reacquires => exact same rfl
  | blocksAgain => exact same rfl
  | starts _ hf' => cases hf.symm.trans hf'
  | executes hr hf' hx =>
    cases hf.symm.trans hf'
    exact hx.reframes hr hf'

/-- Handing an object on pushes nothing. -/
theorem Unwinds.frames_length {o : Ref} {x : Except Fault Unit × Thread × Machine}
    (hu : t.Unwinds m o t.frames x) : x.2.1.frames.length ≤ t.frames.length := by
  generalize hf : t.frames = rest at hu
  induction hu with
  | unhandled => exact le_of_eq (congrArg _ hf)
  | lost => exact le_of_eq (congrArg _ hf)
  | overflowed => exact le_of_eq (congrArg _ hf)
  | unmade => exact Nat.le_succ _
  | caught => simp [withTop, hf]
  | passes _ _ _ ih => exact (ih rfl).trans (Nat.le_succ _)
  | fails _ _ _ _ ih => exact (ih rfl).trans (Nat.le_succ _)

theorem Recovers.frames_length {e : Fault} (hr : t.Recovers m e (u, m')) :
    u.frames.length ≤ t.frames.length := by
  cases hr with
  | throws _ hu => exact hu.frames_length
  | _ => exact Nat.zero_le _

/-- Work that fails leaves the frames as they are but for the top one, which may be gone. -/
theorem Calls.frames_of_error {lock : Option Ref} {e : Fault} {m₁ : Machine}
    (hc : t.Calls host f m₁ r lock (.error e, t', m')) (hf : t.frames = f :: rest) :
    ∃ f', t'.frames = f' :: rest ∧ f.Keeps f' := by
  have popped (stack : OperandStack) :
      ∃ f', (t.withTop { f with stack }).frames = f' :: rest ∧ f.Keeps f' :=
    ⟨_, congrArg (_ :: List.tail ·) hf, rfl, rfl, rfl⟩
  cases hc with
  | starved => exact ⟨f, hf, .refl f⟩
  | _ => exact popped _

theorem Executes.frames_of_error {e : Fault} (hx : t.Executes host f m rest (.error e, t', m')) :
    (∃ f', t'.frames = f' :: rest ∧ f.Keeps f') ∨ t'.frames = rest := by
  have called {f' : Frame} {r : MethodRef} {m₁ : Machine} {lock : Option Ref}
      (hc : ({ t with frames := f' :: rest } : Thread).Calls host f' m₁ r lock (.error e, t', m'))
      (hk : f.Keeps f') : ∃ f', t'.frames = f' :: rest ∧ f.Keeps f' := by
    obtain ⟨f'', hf, hk'⟩ := hc.frames_of_error rfl
    exact ⟨f'', hf, hk.trans hk'⟩
  cases hx with
  | failed hx => exact .inl ⟨_, rfl, Frame.execute_keeps hx⟩
  | initializes hx hb =>
    cases hb with
    | unentered => exact .inl ⟨_, rfl, Frame.execute_keeps hx⟩
  | invokes hx hi =>
    cases hi with
    | unlocked => exact .inl ⟨_, rfl, Frame.execute_keeps hx⟩
    | unguarded _ hc => exact .inl (called hc (Frame.execute_keeps hx))
    | guarded _ hc => exact .inl (called hc (Frame.execute_keeps hx))
  | returns hx hr =>
    cases hr with
    | overflowed => exact .inr rfl

theorem Attempts.frames_of_error {e : Fault} (ha : t.Attempts host m (.error e, t', m'))
    (hf : t.frames = f :: rest) :
    (∃ f', t'.frames = f' :: rest ∧ f.Keeps f') ∨ t'.frames = rest := by
  cases ha with
  | dangling => exact .inl ⟨f, hf, .refl f⟩
  | starts _ hf' => cases hf.symm.trans hf'
  | executes _ hf' hx =>
    cases hf.symm.trans hf'
    exact hx.frames_of_error

/-! ## Inside a call -/

/-- The thread is in the call of a frame that lies on others, or in calls that this one has made. -/
def Inside (t : Thread) (g : Frame) (fs : List Frame) : Prop :=
  ∃ above g', t.frames = above ++ g' :: fs ∧ g.Keeps g'

/-- The instruction that the thread executes next returns from that call. -/
structure Completes (host : Host) (t : Thread) (m : Machine) (g : Frame) (fs : List Frame)
    (value : Option Value) : Prop where
  reacquire_eq : t.reacquire = none
  leaves : ∃ g' f' m₁, t.frames = g' :: fs ∧ g.Keeps g' ∧
    outcome (Frame.execute host t.id) (g', m) = (.ok (.leave value), f', m₁)

namespace Inside

theorem of_frames (h : t.Inside g fs) (hf : u.frames = t.frames) : u.Inside g fs := by
  obtain ⟨above, g', hg, hk⟩ := h
  exact ⟨above, g', hf.trans hg, hk⟩

/-- The top frame may move on, and others may come on top of it. -/
theorem above {f f' : Frame} {rest : List Frame} (h : t.Inside g fs) (hf : t.frames = f :: rest)
    (hk : f.Keeps f') (new : List Frame) (hu : u.frames = new ++ f' :: rest) : u.Inside g fs := by
  obtain ⟨above, g', hg, hk'⟩ := h
  rw [hf] at hg
  rcases List.cons_eq_append_iff.1 hg with ⟨rfl, e⟩ | ⟨above, rfl, rfl⟩
  · cases e
    exact ⟨new, f', hu, hk'.trans hk⟩
  · exact ⟨new ++ f' :: above, g', by simpa using hu, hk'⟩

/-- Work that succeeds stays inside the call, or returns from it. -/
theorem reframes (h : t.Inside g fs) (hr : t.Reframes host m u.frames) :
    u.Inside g fs ∨ (∃ value, t.Completes host m g fs value) ∧
      (g.kind = .classInit → u.frames = fs) := by
  generalize hu : u.frames = us at hr
  cases hr with
  | stays hf hk =>
    exact .inl (h.above hf hk [] hu)
  | @pushes f f' g' rest hf hk =>
    exact .inl (h.above hf hk [g'] hu)
  | @leaves f f' rest us value m₁ hnone hf hx hc hfs =>
    obtain ⟨above, g', hg, hk⟩ := h
    rw [hf] at hg
    rcases List.cons_eq_append_iff.1 hg with ⟨rfl, e⟩ | ⟨above, rfl, rfl⟩
    · cases e
      exact .inr ⟨⟨value, hnone, f, f', m₁, hf, hk, hx⟩, fun hkind => hc (hk.kind_eq.trans hkind)⟩
    · -- a call made inside the call has come back
      cases above with
      | nil =>
        obtain ⟨g'', rfl, hk''⟩ := hfs g' fs rfl
        exact .inl ⟨[], g'', hu, hk.trans hk''⟩
      | cons caller above =>
        obtain ⟨caller', rfl, -⟩ := hfs caller (above ++ g' :: fs) rfl
        exact .inl ⟨caller' :: above, g', hu, hk⟩

/-- Leaving the top frame stays inside the call, or leaves it. -/
theorem leaves {f : Frame} {rest : List Frame} (h : t.Inside g fs) (hf : t.frames = f :: rest)
    (hu : u.frames = rest) : u.Inside g fs ∨ rest = fs := by
  obtain ⟨above, g', hg, hk⟩ := h
  rw [hf] at hg
  rcases List.cons_eq_append_iff.1 hg with ⟨rfl, e⟩ | ⟨above, rfl, rfl⟩
  · cases e
    exact .inr rfl
  · exact .inl ⟨above, g', hu, hk⟩

/-- Handing an object on stays inside the call, or takes its frame off. -/
theorem unwinds {x : Except Fault Unit} {o : Ref} (h : t.Inside g fs) (hf : t.frames = rest)
    (hu : t.Unwinds m o rest (x, u, m')) : u.Inside g fs ∨ u.frames.length ≤ fs.length := by
  generalize hx : (x, u, m') = y at hu
  have hux : u = y.2.1 := congrArg (·.2.1) hx
  rw [hux]
  clear hx hux
  induction hu with
  | unhandled =>
    obtain ⟨above, g', hg, -⟩ := h
    simp [hf] at hg
  | lost => exact .inl h
  | overflowed => exact .inl h
  | @caught t _ _ _ f rest handler stack =>
    have hk : f.Keeps { f with stack, pc := handler } := ⟨rfl, rfl, rfl⟩
    exact .inl (h.above hf hk [] (congrArg (_ :: List.tail ·) hf))
  | passes _ _ hu ih =>
    rcases h.leaves (u := (_ : Thread).left _) hf rfl with h | rfl
    · exact ih h rfl
    · exact .inr hu.frames_length
  | fails _ _ _ hu ih =>
    rcases h.leaves (u := (_ : Thread).left _) hf rfl with h | rfl
    · exact ih h rfl
    · exact .inr hu.frames_length
  | unmade =>
    rcases h.leaves (u := (_ : Thread).left _) hf rfl with h | rfl
    · exact .inl h
    · exact .inr le_rfl

/-- What fails inside the call stays inside it, or takes its frame off. -/
theorem recovers {e : Fault} (h : t.Inside g fs ∨ t.frames.length ≤ fs.length)
    (hr : t.Recovers m e (u, m')) : u.Inside g fs ∨ u.frames.length ≤ fs.length := by
  rcases h with h | h
  · cases hr with
    | throws _ hu => exact h.unwinds rfl hu
    | _ => exact .inr (Nat.zero_le _)
  · exact .inr (hr.frames_length.trans h)

/-- **A step inside a call stays inside it, returns from it, or fails and takes its frame off.** -/
theorem step (h : t.Inside g fs) (host : Host) (m : Machine) :
    ((t.step host).run m).1.Inside g fs ∨
      ((outcome (ThreadM.tryStep host) (t, m)).1 = .ok () ∧ t.status = .runnable ∧
        (∃ value, t.Completes host m g fs value) ∧
        (g.kind = .classInit → ((t.step host).run m).1.frames = fs)) ∨
      ((outcome (ThreadM.tryStep host) (t, m)).1 ≠ .ok () ∧ t.status = .runnable ∧
        ((t.step host).run m).1.frames.length ≤ fs.length) := by
  have nonempty : t.frames ≠ [] := by
    obtain ⟨above, g', hg, -⟩ := h
    simp [hg]
  obtain ⟨f, rest, hf⟩ := List.exists_cons_of_ne_nil nonempty
  by_cases hs : t.status = .runnable
  · have ha := ThreadM.tryStep_attempts host t m
    rcases ho : outcome (ThreadM.tryStep host) (t, m) with ⟨e | _, t₁, m₁⟩ <;> rw [ho] at ha
    · have hr := step_of_error hs ho
      have failed : t₁.Inside g fs ∨ t₁.frames.length ≤ fs.length := by
        rcases ha.frames_of_error hf with ⟨f', hf', hk⟩ | hf'
        · exact .inl (h.above hf hk [] hf')
        · exact (h.leaves hf hf').imp_right fun e => (congrArg List.length (hf'.trans e)).le
      rcases recovers failed hr with h | h
      · exact .inl h
      · exact .inr (.inr ⟨nofun, hs, h⟩)
    · rw [step_of_ok hs ho]
      rcases h.reframes (ha.reframes hf) with h | ⟨hc, hi⟩
      · exact .inl h
      · exact .inr (.inl ⟨rfl, hs, hc, hi⟩)
  · rw [step_of_not_runnable hs]
    exact .inl h

end Inside

end Thread

/-! ## Runs -/

namespace Vm

variable {host : Host} {vm : Vm} {i : Nat} {t : Thread}

/-- The thread in a place has the next turn, and finds the machine so. -/
structure Takes (vm : Vm) (i : Nat) (t : Thread) (m : Machine) : Prop where
  picked : vm.picked? = some i
  thread : vm.choose.2.threads[i]? = some t
  machine : vm.choose.2.machine = m

/-- After its turn a thread has the frames that its step has left. -/
theorem Takes.frames_eq {m : Machine} (h : vm.Takes i t m) (host : Host) :
    ∃ u, (vm.turn host).2.threads[i]? = some u ∧ u.frames = ((t.step host).run m).1.frames := by
  obtain ⟨hp, ht, rfl⟩ := h
  rw [(turn_of_picked host hp).2.2]
  obtain ⟨u, hu, ⟨hne, -⟩ | ⟨-, w, hw, hcase⟩⟩ := runThread_get?_of_get? host ht ht
  · exact absurd rfl hne
  · refine ⟨u, hu, ?_⟩
    rcases hcase with rfl | ⟨s, b, -, -, rfl⟩
    · exact hw.frames_eq
    · rw [(Thread.suspended_id w b).2, hw.frames_eq]

/-- The frames of a thread change in its own turns only. -/
theorem act_frames (host : Host) (a : Action) (ht : vm.threads[i]? = some t) :
    ∃ u, (vm.act host a).threads[i]? = some u ∧ (u.frames = t.frames ∨ a = .turn ∧
      ∃ v m, vm.Takes i v m ∧ v.frames = t.frames ∧ u.frames = ((v.step host).run m).1.frames) := by
  by_cases ha : a = .turn
  · subst ha
    show ∃ u, (vm.turn host).2.threads[i]? = some u ∧ _
    obtain ⟨v, hv, htv⟩ := (choose_eased wakesWithin_anything vm).1.get?_of_get? ht
    cases hp : vm.picked? with
    | none =>
      rcases turn_of_not_picked host hp with ⟨-, e⟩ | ⟨-, -, e⟩ <;> rw [e]
      · exact ⟨t, ht, .inl rfl⟩
      · exact ⟨v, hv, .inl htv.frames_eq⟩
    | some j =>
      by_cases hj : j = i
      · subst hj
        have takes : vm.Takes j v vm.choose.2.machine := ⟨hp, hv, rfl⟩
        obtain ⟨u, hu, hf⟩ := takes.frames_eq host
        exact ⟨u, hu, .inr ⟨rfl, v, _, takes, htv.frames_eq, hf⟩⟩
      · rw [(turn_of_picked host hp).2.2]
        have hchosen := choose_runnable vm (turn_of_picked host hp).2.1
        obtain ⟨w, hw, -⟩ := hchosen
        obtain ⟨u, hu, ⟨-, he⟩ | ⟨e, -⟩⟩ := runThread_get?_of_get? host hw hv
        · exact ⟨u, hu, .inl (he.frames_eq.trans htv.frames_eq)⟩
        · exact absurd e.symm hj
  · obtain ⟨machine, new, e, -⟩ := act_appends host vm ha
    rw [e]
    exact ⟨t, (Array.getElem?_append_left (Array.getElem?_eq_some_iff.1 ht).1).trans ht, .inl rfl⟩

/-- What holds of the frames of a thread holds until a turn of its own ends it. -/
theorem after_until {P : Thread → Prop}
    (hP : ∀ t u : Thread, u.frames = t.frames → P t → P u) {as : List Action}
    (ht : vm.threads[i]? = some t) (h : P t) :
    (∃ u, (vm.after host as).threads[i]? = some u ∧ P u) ∨
      ∃ bs cs v m, as = bs ++ .turn :: cs ∧ (vm.after host bs).Takes i v m ∧ P v ∧
        ¬ P ((v.step host).run m).1 := by
  induction as generalizing vm t with
  | nil => exact .inl ⟨t, ht, h⟩
  | cons a as ih =>
    obtain ⟨u, hu, hcase⟩ := act_frames host a ht
    have goesOn (hPu : P u) :
        (∃ u, (vm.after host (a :: as)).threads[i]? = some u ∧ P u) ∨
          ∃ bs cs v m, a :: as = bs ++ .turn :: cs ∧ (vm.after host bs).Takes i v m ∧ P v ∧
            ¬ P ((v.step host).run m).1 :=
      (ih hu hPu).imp_right fun ⟨bs, cs, v, m, e, hv⟩ =>
        ⟨a :: bs, cs, v, m, congrArg (a :: ·) e, hv⟩
    rcases hcase with hf | ⟨rfl, v, m, hv, hf, hstep⟩
    · exact goesOn (hP t u hf h)
    · by_cases hend : P ((v.step host).run m).1
      · exact goesOn (hP _ u hstep hend)
      · exact .inr ⟨[], as, v, m, rfl, hv, hP t v hf h, hend⟩

end Vm

end GreenVm
