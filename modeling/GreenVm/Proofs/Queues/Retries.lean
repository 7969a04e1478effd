/-
  A thread that was refused a monitor tries to enter the same monitor when it runs again.

  * `Later id`: a relation between machines, of what other threads may have done meanwhile to what
    thread `id` relies on.
  * `Frame.execute_again`: an instruction that has come to call a method comes to call the same
    method later on, from the same frame.
  * `Thread.Tries t m r`: the next step of the thread tries to enter the monitor of `r`.
  * `Thread.Tries.acquires`: if the monitor is free for it, it takes the monitor then.
-/
import GreenVm.Proofs.Initialization.Use
import GreenVm.Proofs.Throwing

namespace GreenVm

open Exec

/-! ## What a thread can rely on -/

/-- Definitions are retained, and the thread may use the classes that it might use. -/
structure Later (id : ThreadId) (m m' : Machine) : Prop where
  retains : Retains m m'
  ready : ∀ c, m.Ready id c → m'.Ready id c

variable {host : Host} {id : ThreadId} {m m₁ m₂ m' m'' : Machine} {f f' : Frame} {c : Class}
  {r : Ref} {method : MethodRef} {index : Nat} {t : Thread}

namespace Later

theorem of_keeps (h : KeepsInit m m') : Later id m m' := ⟨h.toRetains, fun _ => h.ready_iff.2⟩

theorem refl (m : Machine) : Later id m m := of_keeps (refl_of KeepsInit m)

theorem trans (h : Later id m m') (h' : Later id m' m'') : Later id m m'' :=
  ⟨h.retains.trans h'.retains, fun c hc => h'.ready c (h.ready c hc)⟩

/-- What another thread initializes is not ready for this one before. -/
theorem of_path {u : ThreadId} {es : List InitEvent} (h : InitPath u m es m') (hu : u ≠ id) :
    Later id m m' := by
  refine ⟨h.retains, fun c hc => ?_⟩
  have entered {m₁ m' : Machine} {d : Class} {init : InitState} (hc : m₁.Ready id c)
      (hd : m₁.progress d.name = .uninitialized ∨ m₁.progress d.name = .inProgress u)
      (hk : KeepsInit (m₁.withInit d init) m') : m'.Ready id c := by
    refine hk.ready_iff.2 ?_
    have hne : d.name ≠ c.name := by
      intro e
      rw [e] at hd
      rcases hc with hc | hc <;> rcases hd with hd | hd <;> cases hc.symm.trans hd
      exact hu rfl
    rw [Machine.Ready, Machine.progress_withInit, if_neg hne]
    exact hc
  induction h with
  | keeps hk => exact hk.ready_iff.2 hc
  | begins _ _ hun _ hk ih => exact entered ih (.inl hun) hk
  | ends _ _ hp _ hk ih => exact entered ih (.inr hp) hk

end Later

/-! ## Doing the same again -/

namespace Exec

/-- Loading a class that could be loaded before. -/
theorem loadClass_again {name : String} (hg : m.Grounded)
    (h : outcome (loadClass name) m = (.ok c, m₁)) (hr : Retains m m') :
    ∃ m'', outcome (loadClass name) m' = (.ok c, m'') ∧ Loads m' m'' := by
  have hload : (outcome (Loader.load (sources m) [] name) m.loaded).1 = .ok c := congrArg Prod.fst h
  obtain ⟨loaded, hc⟩ := outcome_loadClass (hr.grounded hg)
    (hr.sources_extends.defines ((Loader.load_iff hg.loaded).1 hload))
  have hload' := Retains.load m' name
  rw [hc] at hload'
  exact ⟨_, hc, hload', loaded, rfl⟩

theorem mentioned_again {current : Class} {name : String} (hg : m.Grounded)
    (h : outcome (mentioned current name) m = (.ok c, m₁)) (hr : Retains m m') :
    ∃ m'', outcome (mentioned current name) m' = (.ok c, m'') ∧ Loads m' m'' := by
  unfold mentioned at h ⊢
  split at h
  · next hn =>
    cases (outcome_pure _ _).symm.trans h
    rw [if_pos hn]
    exact ⟨m', outcome_pure _ _, .refl m'⟩
  · next hn =>
    rw [if_neg hn]
    exact loadClass_again hg h hr

theorem methodOf_again {current : Class} {member : MemberRef} (hg : m.Grounded)
    (h : outcome (methodOf current member) m = (.ok method, m₁)) (hr : Retains m m') :
    ∃ m'', outcome (methodOf current member) m' = (.ok method, m'') ∧ Loads m' m'' := by
  obtain ⟨owner, m₂, ho, h⟩ := outcome_bind_eq_ok h
  obtain ⟨m'', ho', hl⟩ := mentioned_again hg ho hr
  refine ⟨m'', ?_, hl⟩
  rw [methodOf, outcome_bind_ok ho']
  split at h
  · cases (outcome_pure _ _).symm.trans h
    rfl
  · cases (outcome_throw _ _).symm.trans h

theorem resolveMethod_again {current : Class} (hg : m.Grounded)
    (h : outcome (resolveMethod current index) m = (.ok method, m₁)) (hr : Retains m m') :
    ∃ m'', outcome (resolveMethod current index) m' = (.ok method, m'') ∧ Loads m' m'' := by
  unfold resolveMethod at h ⊢
  obtain ⟨k, m₂, hk, h⟩ := outcome_bind_eq_ok h
  obtain ⟨hconstant, hm₂⟩ := Prod.mk.inj ((outcome_liftExcept _ _).symm.trans hk)
  have hk' : outcome (liftM (current.constant index) : Exec Constant) m' = (.ok k, m') :=
    (outcome_liftExcept _ _).trans (Prod.ext hconstant rfl)
  rw [← hm₂] at h
  rw [outcome_bind_ok hk']
  split at h
  · exact methodOf_again hg h hr
  · exact methodOf_again hg h hr
  · cases (outcome_throw _ _).symm.trans h

/-- A class that is ready for a thread has nothing done to it. -/
theorem readyClass_again (h : m.Ready id c) :
    outcome (readyClass host id c) m = (.ok .ready, m) := by
  have ready (above : Exec Readiness) :
      outcome (readyAfter host id c above) m = (.ok .ready, m) := by
    unfold readyAfter
    rw [outcome_bind_ok (outcome_classState c m), Machine.stateOf_init]
    rcases h with h | h <;> rw [h]
    · rfl
    · simp only [if_true]
      rfl
  obtain ⟨declared, superClass, interfaces, element⟩ := c
  cases superClass with
  | none => rw [readyClass]; exact ready _
  | some s => rw [readyClass]; exact ready _

end Exec

namespace FrameM

/-- What lies on the stack lies there again. -/
theorem receiver_again {n : Nat} {s : Frame × Machine}
    (h : outcome (receiver n) (f, m) = (.ok r, s)) (m' : Machine) :
    outcome (receiver n) (f, m') = (.ok r, f, m') := by
  cases n with
  | zero => cases (outcome_throw _ _).symm.trans h
  | succ n =>
    unfold receiver at h ⊢
    obtain ⟨v, s₁, hv, h⟩ := outcome_bind_eq_ok h
    obtain ⟨hr, -⟩ := Prod.mk.inj ((outcome_liftExcept (M := FrameM) _ _).symm.trans h)
    obtain ⟨hv, -⟩ := Prod.mk.inj ((outcome_peek n (f, m)).symm.trans hv)
    have hv' : outcome (peek n) (f, m') = (.ok v, f, m') :=
      (outcome_peek n (f, m')).trans (Prod.ext hv rfl)
    rw [outcome_bind_ok hv', outcome_liftExcept, hr]

theorem invokeSpecial_again (hg : m.Grounded)
    (h : outcome (invokeSpecial index) (f, m) = (.ok (.invoke method), f', m₁))
    (hr : Retains m m') : f' = f ∧
      ∃ m'', outcome (invokeSpecial index) (f, m') = (.ok (.invoke method), f, m'') ∧ Loads m' m'' := by
  unfold invokeSpecial at h ⊢
  rw [outcome_bind_ok (outcome_owner _)] at h ⊢
  obtain ⟨resolved, m₂, hm, h⟩ := outcome_frame_bind_eq_ok h
  obtain ⟨m'', hm', hl⟩ := resolveMethod_again hg hm hr
  obtain ⟨_, s, hd, h⟩ := outcome_bind_eq_ok h
  cases (outcome_pure _ _).symm.trans h
  rw [outcome_discard] at hd
  obtain ⟨hd₁, hd₂⟩ := Prod.mk.inj hd
  obtain ⟨o, ho, -⟩ := except_map_eq_ok.1 hd₁
  have hreceiver : outcome (receiver (specialTarget f.owner resolved).method.argumentCount) (f, m₂) =
      (.ok o, f', m₁) := Prod.ext ho hd₂
  have same := receiver_same hreceiver
  refine ⟨congrArg Prod.fst same, m'', ?_, hl⟩
  have hd' : outcome (discard (receiver (specialTarget f.owner resolved).method.argumentCount))
      (f, m'') = (.ok (), f, m'') := by
    rw [outcome_discard, receiver_again hreceiver]
    rfl
  rw [outcome_frame_bind_ok hm', outcome_bind_ok hd', outcome_pure]

theorem invokeVirtual_again (hg : m.Grounded)
    (h : outcome (invokeVirtual index) (f, m) = (.ok (.invoke method), f', m₁))
    (hr : Retains m m') : f' = f ∧
      ∃ m'', outcome (invokeVirtual index) (f, m') = (.ok (.invoke method), f, m'') ∧ Loads m' m'' := by
  unfold invokeVirtual at h ⊢
  rw [outcome_bind_ok (outcome_owner _)] at h ⊢
  obtain ⟨resolved, m₂, hm, h⟩ := outcome_frame_bind_eq_ok h
  obtain ⟨m'', hm', hl⟩ := resolveMethod_again hg hm hr
  rw [outcome_frame_bind_ok hm']
  -- finding the method has only loaded classes, so that the receiver is what it was
  have heap : m₂.heap = m.heap := by
    obtain ⟨_, e, -, loaded, rfl⟩ := resolveMethod_again hg hm (.refl m)
    cases hm.symm.trans e
    rfl
  dsimp only at h ⊢
  split at h
  · obtain ⟨_, _, h, -⟩ := outcome_bind_eq_ok h
    cases (outcome_throw _ _).symm.trans h
  · next hs =>
    rw [if_neg hs]
    obtain ⟨o, s, ho, hrest⟩ := outcome_bind_eq_ok h
    rw [receiver_same ho] at hrest
    obtain ⟨c, m₃, htype, hanswer⟩ := outcome_frame_bind_eq_ok hrest
    obtain ⟨object, hobject, hc, hm₃⟩ := Exec.typeOf_ok htype
    obtain ⟨object', hobject', htype'⟩ := (hr.trans hl.retains).types o object (heap ▸ hobject)
    have typed : outcome (Exec.typeOf o) m'' = (.ok c, m'') := by
      rw [outcome_typeOf hobject', htype', hc]
    rw [outcome_bind_ok (receiver_again ho _), outcome_frame_bind_ok typed]
    split at hanswer
    · obtain ⟨_, _, ht, -⟩ := outcome_bind_eq_ok hanswer
      cases (outcome_throw _ _).symm.trans ht
    · next hi =>
      cases (outcome_pure _ _).symm.trans hanswer
      rw [if_neg hi]
      exact ⟨rfl, m'', outcome_pure _ _, hl⟩

theorem invokeStatic_again (hg : m.Grounded)
    (h : outcome (invokeStatic host id index) (f, m) = (.ok (.invoke method), f', m₁))
    (hr : Retains m m') (hready : ∀ c, m₁.Ready id c → m'.Ready id c) : f' = f ∧
      ∃ m'', outcome (invokeStatic host id index) (f, m') = (.ok (.invoke method), f, m'') ∧
        Loads m' m'' := by
  unfold invokeStatic at h ⊢
  rw [outcome_bind_ok (outcome_owner _)] at h ⊢
  obtain ⟨resolved, m₂, hm, h⟩ := outcome_frame_bind_eq_ok h
  obtain ⟨m'', hm', hl⟩ := resolveMethod_again hg hm hr
  rw [outcome_frame_bind_ok hm']
  dsimp only at h ⊢
  split at h
  · obtain ⟨_, _, h, -⟩ := outcome_bind_eq_ok h
    cases (outcome_throw _ _).symm.trans h
  · next hs =>
    rw [if_neg hs, outcome_whenReady]
    rw [outcome_whenReady] at h
    split at h
    · next m₃ hc =>
      cases (outcome_pure _ _).symm.trans h
      have hc' : m''.Ready id method.owner := by
        obtain ⟨-, loaded, rfl⟩ := hl
        exact hready _ (Exec.readyClass_ready hc)
      rw [Exec.readyClass_again hc']
      exact ⟨rfl, m'', outcome_pure _ _, hl⟩
    · cases h
    · cases h
    · cases h

/-- Whatever has come to call a method calls the same method later on. -/
theorem execute_again {i : Instruction} (hg : m.Grounded)
    (h : outcome (execute host id i) (f, m) = (.ok (.invoke method), f', m₁))
    (hr : Retains m m') (hready : ∀ c, m₁.Ready id c → m'.Ready id c) : f' = f ∧
      ∃ m'', outcome (execute host id i) (f, m') = (.ok (.invoke method), f, m'') ∧ Loads m' m'' := by
  have other {x : FrameM Next} (hx : Answers x fun next => ∀ r, next ≠ .invoke r)
      (h : outcome x (f, m) = (.ok (.invoke method), f', m₁)) : False := hx _ _ _ h _ rfl
  have use {c : Class} {x : FrameM Next} (hx : Answers x fun next => ∀ r, next ≠ .invoke r) :
      Answers (whenReady host id c x) fun next => ∀ r, next ≠ .invoke r :=
    whenReady_answers hx nofun nofun
  have plain {x : FrameM Next} (hx : Answers x fun next => next.isLocal) :
      Answers x fun next => ∀ r, next ≠ .invoke r :=
    hx.mono fun next hp r e => by rw [e] at hp; cases hp
  cases i with
  | invokeStatic => exact invokeStatic_again hg h hr hready
  | invokeVirtual => exact invokeVirtual_again hg h hr
  | invokeInterface => exact invokeVirtual_again hg h hr
  | invokeSpecial => exact invokeSpecial_again hg h hr
  | getStatic =>
    refine (other ?_ h).elim
    exact .bind fun _ => use (.bind fun _ => .bind fun _ => .pure nofun)
  | putStatic =>
    refine (other ?_ h).elim
    exact .bind fun _ => use (.bind fun _ => .bind fun _ => .pure nofun)
  | new =>
    have create {c : Class} : Answers (do
        push (.ofRef (← Exec.instantiate c))
        return .advance : FrameM Next) fun next => ∀ r, next ≠ .invoke r :=
      .bind fun _ => .bind fun _ => .pure nofun
    refine (other (.bind fun c => ?_) h).elim
    dsimp only
    split
    · exact create
    · exact use create
  | _ =>
    refine (other (plain ?_) h).elim
    exact execute_local rfl nofun nofun nofun

end FrameM

/-- An instruction that has come to call a method comes to call the same method later on. -/
theorem Frame.execute_again (hg : m.Grounded)
    (h : outcome (Frame.execute host id) (f, m) = (.ok (.invoke method), f', m₁))
    (hr : Retains m m') (hready : ∀ c, m₁.Ready id c → m'.Ready id c) : f' = f ∧
      ∃ m'', outcome (Frame.execute host id) (f, m') = (.ok (.invoke method), f, m'') ∧
        Loads m' m'' := by
  unfold Frame.execute at h ⊢
  rw [outcome_bind_ok (outcome_getFrame _)] at h ⊢
  cases hi : f.code.instructions[f.pc]? with
  | some i =>
    simp only [hi] at h ⊢
    exact FrameM.execute_again hg h hr hready
  | none =>
    simp only [hi] at h
    cases (outcome_throw _ _).symm.trans h

/-- An instruction that comes to call a method has taken no definition back. -/
theorem Frame.execute_retains (hh : host.Within KeepsInit)
    (h : outcome (Frame.execute host id) (f, m) = (.ok (.invoke method), f', m₁)) :
    Retains m m₁ := by
  have natives : InitializesWithin Retains host id := fun native _ =>
    Native.run_within (hh.mono fun _ _ => KeepsInit.toRetains)
  have hp := Frame.execute_performs host id f m
  rw [h] at hp
  cases hp with
  | acts _ _ hx => cases hx _ rfl
  | calls _ hm => exact hm.within
  | uses _ _ _ _ hx => cases hx _ rfl
  | callsStatic hc hr =>
    have hfound : Retains m _ := hc.change.within
    exact hfound.trans ((Exec.readyClass_within natives).of_eq hr)
  | creates _ _ _ hx => cases hx _ rfl

/-- The lock of a call is found again. -/
theorem MethodRef.lock_again (hg : m.Grounded) (h : outcome (method.lock f) m = (.ok r, m₁))
    (hr : Retains m₁ m') (hr' : Retains m m') :
    ∃ m'', outcome (method.lock f) m' = (.ok r, m'') ∧ Loads m' m'' := by
  unfold MethodRef.lock at h ⊢
  split at h
  · next hs =>
    rw [if_pos hs]
    have hobject := hr.classObjects _ _ (Exec.classObject_ok h)
    obtain ⟨c, m₂, hc, -⟩ := outcome_bind_eq_ok h
    obtain ⟨m'', hc', hl⟩ := loadClass_again hg hc hr'
    refine ⟨m'', ?_, hl⟩
    rw [Exec.classObject, outcome_bind_ok hc', outcome_bind_ok (outcome_get _)]
    simp only [hl.retains.classObjects _ _ hobject]
    rfl
  · next hs =>
    rw [if_neg hs]
    refine ⟨m', ?_, .refl m'⟩
    cases hp : f.stack.peek (method.method.argumentCount - 1) with
    | error e =>
      rw [hp] at h
      cases h
    | ok v =>
      rw [hp] at h
      have hv : outcome (liftM v.asObject : Exec Ref) m = (.ok r, m₁) := h
      obtain ⟨hv, -⟩ := Prod.mk.inj ((outcome_liftExcept _ _).symm.trans hv)
      show outcome (liftM v.asObject : Exec Ref) m' = _
      rw [outcome_liftExcept, hv]

/-- A thread that can enter the monitor of the object on top enters it. -/
theorem FrameM.monitorEnter_entered (hp : f.stack.peek 0 = .ok (.ofRef r))
    (he : outcome (Exec.tryEnter r id 1) m = (.ok true, m')) :
    ∃ f', outcome (monitorEnter id) (f, m) = (.ok .advance, f', m') := by
  have hpeek : outcome (FrameM.peek 0) (f, m) = (.ok (.ofRef r), f, m) := by
    rw [outcome_peek, hp]
    rfl
  have hr : outcome (liftM (Value.ofRef r).asObject : FrameM Ref) (f, m) = (.ok r, f, m) :=
    outcome_liftExcept _ _
  obtain ⟨_, _, hp', -⟩ | ⟨_, stack, -, ho⟩ := pop_cases f m'
  · cases hp'.symm.trans hp
  have hd : outcome (discard pop) (f, m') = (.ok (), { f with stack }, m') := by
    rw [outcome_discard, ho]
    rfl
  rw [monitorEnter, outcome_bind_ok hpeek, outcome_bind_ok hr, outcome_frame_bind_ok he]
  simp only [if_true]
  rw [outcome_bind_ok hd, outcome_bind_ok (outcome_modifyFrame _ _)]
  exact ⟨_, rfl⟩

/-! ## Trying again -/

/-- The next step of a thread tries to enter the monitor of an object: to take it back after a wait,
    by the instruction for it, or for a call that has come to it before. -/
inductive Thread.Tries (host : Host) (t : Thread) (m : Machine) (r : Ref) : Prop
  | takesBack {count : Nat} (hr : t.reacquire = some (r, count))
  | enters {f : Frame} {rest : List Frame} (hr : t.reacquire = none) (hf : t.frames = f :: rest)
      (hi : f.code.instructions[f.pc]? = some .monitorEnter) (hp : f.stack.peek 0 = .ok (.ofRef r))
  | calls {f : Frame} {rest : List Frame} {method : MethodRef} {m₀ m₁ m₂ : Machine}
      (hr : t.reacquire = none) (hf : t.frames = f :: rest)
      (hs : method.method.isSynchronized = true) (hg : m₀.Grounded) (hg₁ : m₁.Grounded)
      (hx : outcome (Frame.execute host t.id) (f, m₀) = (.ok (.invoke method), f, m₁))
      (hl : outcome (method.lock f) m₁ = (.ok r, m₂)) (hr₀ : Retains m₀ m)
      (hm₁ : Later t.id m₁ m) (hm₂ : Retains m₂ m)

/-- The next step of a thread takes the monitor of an object. -/
inductive Thread.Acquires (host : Host) (t : Thread) (m : Machine) (r : Ref) : Prop
  | takesBack {count : Nat} {m' : Machine} (hr : t.reacquire = some (r, count))
      (he : outcome (tryEnter r t.id count) m = (.ok true, m'))
  | enters {f : Frame} {rest : List Frame} {m' : Machine} (hr : t.reacquire = none)
      (hf : t.frames = f :: rest) (hi : f.code.instructions[f.pc]? = some .monitorEnter)
      (hp : f.stack.peek 0 = .ok (.ofRef r))
      (he : outcome (tryEnter r t.id 1) m = (.ok true, m'))
  | calls {f : Frame} {rest : List Frame} {method : MethodRef} {m₁ m₂ m' : Machine}
      (hr : t.reacquire = none) (hf : t.frames = f :: rest)
      (hs : method.method.isSynchronized = true)
      (hx : outcome (Frame.execute host t.id) (f, m) = (.ok (.invoke method), f, m₁))
      (hl : outcome (method.lock f) m₁ = (.ok r, m₂))
      (he : outcome (tryEnter r t.id 1) m₂ = (.ok true, m'))

namespace Thread.Tries

variable {u : Thread} {r' : Ref}

theorem later (h : t.Tries host m r) (hl : Later t.id m m') : t.Tries host m' r := by
  cases h with
  | takesBack hr => exact .takesBack hr
  | enters hr hf hi hp => exact .enters hr hf hi hp
  | calls hr hf hs hg hg₁ hx hl' hr₀ hm₁ hm₂ =>
    exact .calls hr hf hs hg hg₁ hx hl' (hr₀.trans hl.retains) (hm₁.trans hl) (hm₂.trans hl.retains)

/-- Only what a thread is to do matters. -/
theorem of_same (h : t.Tries host m r) (hid : u.id = t.id) (hr : u.reacquire = t.reacquire)
    (hf : u.frames = t.frames) : u.Tries host m r := by
  cases h with
  | takesBack hr' => exact .takesBack (hr.trans hr')
  | enters hr' hf' hi hp => exact .enters (hr.trans hr') (hf.trans hf') hi hp
  | calls hr' hf' hs hg hg₁ hx hl hr₀ hm₁ hm₂ =>
    exact .calls (hr.trans hr') (hf.trans hf') hs hg hg₁ (hid ▸ hx) hl hr₀ (hid ▸ hm₁) hm₂

/-- What a thread that has come to a call does again. -/
theorem calls_again {f : Frame} {m₀ m₁ m₂ : Machine} (hg : m₀.Grounded) (hg₁ : m₁.Grounded)
    (hx : outcome (Frame.execute host id) (f, m₀) = (.ok (.invoke method), f, m₁))
    (hl : outcome (method.lock f) m₁ = (.ok r, m₂)) (hr₀ : Retains m₀ m)
    (hm₁ : Later id m₁ m) (hm₂ : Retains m₂ m) :
    ∃ m' m'', outcome (Frame.execute host id) (f, m) = (.ok (.invoke method), f, m') ∧
      outcome (method.lock f) m' = (.ok r, m'') ∧ Loads m m'' := by
  obtain ⟨-, m', hx', hm'⟩ := Frame.execute_again hg hx hr₀ hm₁.ready
  obtain ⟨m'', hl', hm''⟩ := MethodRef.lock_again hg₁ hl (hm₂.trans hm'.retains)
    (hm₁.retains.trans hm'.retains)
  exact ⟨m', m'', hx', hl', hm'.trans hm''⟩

/-- A thread tries to enter one monitor at a time. -/
theorem unique (h : t.Tries host m r) (h' : t.Tries host m r') : r = r' := by
  have distinct {f : Frame} {method : MethodRef} {m₀ m₁ : Machine} (hi : f.code.instructions[f.pc]? = some .monitorEnter)
      (hx : outcome (Frame.execute host t.id) (f, m₀) = (.ok (.invoke method), f, m₁)) : False := by
    rw [Frame.Uses.outcome_execute hi] at hx
    cases FrameM.monitorEnter_local _ _ _ hx
  cases h with
  | takesBack hr =>
    cases h' with
    | takesBack hr' => cases hr.symm.trans hr'; rfl
    | enters hr' => cases hr.symm.trans hr'
    | calls hr' => cases hr.symm.trans hr'
  | enters hr hf hi hp =>
    cases h' with
    | takesBack hr' => cases hr.symm.trans hr'
    | enters _ hf' _ hp' =>
      cases hf.symm.trans hf'
      cases hp.symm.trans hp'
      rfl
    | calls _ hf' _ _ _ hx =>
      cases hf.symm.trans hf'
      exact (distinct hi hx).elim
  | calls hr hf _ hg hg₁ hx hl hr₀ hm₁ hm₂ =>
    obtain ⟨_, _, hx, hl, -⟩ := calls_again hg hg₁ hx hl hr₀ hm₁ hm₂
    cases h' with
    | takesBack hr' => cases hr.symm.trans hr'
    | enters _ hf' hi =>
      cases hf.symm.trans hf'
      exact (distinct hi hx).elim
    | calls _ hf' _ hg' hg₁' hx' hl' hr₀' hm₁' hm₂' =>
      cases hf.symm.trans hf'
      obtain ⟨_, _, hx', hl', -⟩ := calls_again hg' hg₁' hx' hl' hr₀' hm₁' hm₂'
      cases hx.symm.trans hx'
      cases hl.symm.trans hl'
      rfl

end Thread.Tries

/-- A free monitor is entered by the thread that it is reserved for. -/
theorem Exec.tryEnter_successor {n : Nat} (hs : (m.monitorAt r).successor = some id)
    (ho : (m.monitorAt r).owner = none) :
    ∃ m', outcome (tryEnter r id n) m = (.ok true, m') := by
  cases hm : m.heap.get? r with
  | none => simp [Machine.monitorAt, hm] at hs
  | some o =>
    rw [Machine.monitorAt_eq hm] at hs ho
    have enters : (o.monitor.tryEnter id n).1 = true := by simp [Monitor.tryEnter, ho, hs]
    rcases withMonitor_cases r (fun m => .ok (m.tryEnter id n)) m with ⟨e, he⟩ |
      ⟨o', a, monitor, ho', hf, he⟩
    · rw [withMonitor, outcome_bind_ok (outcome_object hm)] at he
      cases he
    · cases hm.symm.trans ho'
      rw [Except.ok.inj hf] at enters
      cases enters
      exact ⟨_, he⟩

/-- **A thread that tries to enter a monitor which is reserved for it acquires it.** -/
theorem Thread.Tries.acquires (h : t.Tries host m r)
    (hs : (m.monitorAt r).successor = some t.id) (ho : (m.monitorAt r).owner = none) :
    t.Acquires host m r := by
  cases h with
  | takesBack hr =>
    obtain ⟨m', he⟩ := Exec.tryEnter_successor hs ho
    exact .takesBack hr he
  | enters hr hf hi hp =>
    obtain ⟨m', he⟩ := Exec.tryEnter_successor hs ho
    exact .enters hr hf hi hp he
  | calls hr hf hsync hg hg₁ hx hl hr₀ hm₁ hm₂ =>
    obtain ⟨m', _, hx, hl, -, loaded, rfl⟩ := calls_again hg hg₁ hx hl hr₀ hm₁ hm₂
    obtain ⟨m'', he⟩ := Exec.tryEnter_successor (m := { m with loaded }) hs ho
    exact .calls hr hf hsync hx hl he

end GreenVm
