/-
  What one instruction can do, told case by case.

  * `LivelyChange`: what calm work, monitors, threads and requests can make of a machine, whatever
    relation it is seen through.
  * `Frame.Performs`: an instruction changes the machine in no other way, or it needs a class to be
    ready for use, and goes on with that class or not.
-/
import GreenVm.Proofs.Definitions

namespace GreenVm

/-! ## Lively changes -/

/-- The machines stand in every relation that is lively and allows bytes to be stored. -/
def LivelyChange (m m' : Machine) : Prop :=
  ∀ R : Machine → Machine → Prop, Lively R → StoresBytes R → R m m'

theorem LivelyChange.within {R : Machine → Machine → Prop} [h : Lively R] [hb : StoresBytes R]
    {m m' : Machine} (hc : LivelyChange m m') : R m m' := hc R h hb

instance : Lively LivelyChange where
  refl m R _ _ := refl_of R m
  trans _ _ _ h h' R hR hb := trans_of R (h R hR hb) (h' R hR hb)
  load m name _ _ _ := Creates.load m name
  setStatics m c statics _ _ _ := Calm.setStatics m c statics
  allocate m o hk ho hf _ _ _ := Creates.allocate m o hk ho hf
  update m r f ha hf _ _ _ := Calm.update m r f ha hf
  intern m o text hk ho hf ht hn _ _ _ := Creates.intern m o text hk ho hf ht hn
  classObject m o c hk ho hf hc hn _ _ _ := Creates.classObject m o c hk ho hf hc hn
  print m out err _ _ _ := Calm.print m out err
  change m r f hf _ _ _ := Lively.change m r f hf
  request m q hq _ _ _ := Lively.request m q hq
  bind m next objects _ _ _ := Lively.bind m next objects
  start m r o run id name args ho hr _ _ _ := Lively.start m r o run id name args ho hr

instance : StoresBytes LivelyChange where
  storeByte m r o place v ho hk _ _ _ := StoresBytes.storeByte m r o place v ho hk

/-! ## Frames and what comes next -/

/-- The frame is still that of the same call. -/
structure Frame.Keeps (f f' : Frame) : Prop where
  method_eq : f'.method = f.method
  code_eq : f'.code = f.code
  kind_eq : f'.kind = f.kind

theorem Frame.Keeps.refl (f : Frame) : f.Keeps f := ⟨rfl, rfl, rfl⟩

theorem Frame.Keeps.owner_eq {f f' : Frame} (h : f.Keeps f') : f'.owner = f.owner :=
  congrArg MethodRef.owner h.method_eq

theorem Frame.Moves.keeps {f f' : Frame} (h : f.Moves f') : f.Keeps f' := by
  obtain ⟨pc, locals, stack, rfl⟩ := h
  exact ⟨rfl, rfl, rfl⟩

/-- What comes next is the matter of the frame alone. -/
def Next.isLocal : Next → Bool
  | .invoke _ | .awaitInit _ | .runInitializer _ => false
  | _ => true

/-- The thread goes on in the same frame, or leaves it. -/
def Next.isPlain : Next → Bool
  | .advance | .jump _ | .leave _ => true
  | _ => false

theorem Next.isPlain.isLocal : ∀ {next : Next}, next.isPlain → next.isLocal
  | .advance, _ | .jump _, _ | .leave _, _ => rfl

/-- What an instruction may ask for. -/
inductive Instruction.MayAnswer : Instruction → Next → Prop
  | advances {i : Instruction} : MayAnswer i .advance
  | jumps {i : Instruction} {target : Nat} : MayAnswer i (.jump target)
  | invokes {i : Instruction} {r : MethodRef} : MayAnswer i (.invoke r)
  | leaves {kind : Option ValueKind} {value : Option Value} (h : value.isSome = kind.isSome) :
    MayAnswer (.leave kind) (.leave value)
  | blocks {r : Ref} : MayAnswer .monitorEnter (.block r)
  | awaits {i : Instruction} {c : Class} : MayAnswer i (.awaitInit c)
  | initializes {i : Instruction} {clinit : MethodRef} : MayAnswer i (.runInitializer clinit)

/-- The frame stays that of the same call, and a relation holds between the machines. -/
def OnCall (R : Machine → Machine → Prop) (s s' : Frame × Machine) : Prop :=
  s.1.Keeps s'.1 ∧ R s.2 s'.2

/-- Whatever the work answers has a property. -/
def Answers {α : Type} (x : FrameM α) (P : α → Prop) : Prop :=
  ∀ s a s', outcome x s = (.ok a, s') → P a

variable {R : Machine → Machine → Prop} {α β : Type} {host : Host} {id : ThreadId} {f : Frame}
  {m m₁ : Machine} {c : Class} {index : Nat}

instance [Std.Refl R] : Std.Refl (OnCall R) := ⟨fun s => ⟨.refl s.1, refl_of R s.2⟩⟩

instance [IsTrans Machine R] : IsTrans (Frame × Machine) (OnCall R) :=
  ⟨fun _ _ _ h h' => ⟨⟨h'.1.method_eq.trans h.1.method_eq, h'.1.code_eq.trans h.1.code_eq,
    h'.1.kind_eq.trans h.1.kind_eq⟩, trans_of R h.2 h'.2⟩⟩

theorem OnFrame.onCall {s s' : Frame × Machine} (h : OnFrame R s s') : OnCall R s s' :=
  ⟨h.1.keeps, h.2⟩

theorem Answers.pure {P : α → Prop} {a : α} (h : P a) : Answers (Pure.pure a) P := by
  intro s b s' hb
  cases (outcome_pure a s).symm.trans hb
  exact h

theorem Answers.throw {P : α → Prop} (e : Fault) : Answers (MonadExcept.throw e) P := by
  intro s b s' hb
  cases (outcome_throw e s).symm.trans hb

theorem Answers.mono {P Q : α → Prop} {x : FrameM α} (hx : Answers x P) (h : ∀ a, P a → Q a) :
    Answers x Q := fun s a s' ha => h a (hx s a s' ha)

theorem Answers.bind {P : β → Prop} {x : FrameM α} {g : α → FrameM β}
    (h : ∀ a, Answers (g a) P) : Answers (x >>= g) P := by
  intro s b s' hb
  obtain ⟨a, s₁, -, hb⟩ := outcome_bind_eq_ok hb
  exact h a s₁ b s' hb

namespace FrameM

theorem andAdvance_plain {x : FrameM Unit} : Answers (andAdvance x) fun next => next.isPlain :=
  .bind fun _ => .pure rfl

theorem monitorEnter_local : Answers (monitorEnter id) fun next => next.isLocal := by
  refine .bind fun _ => .bind fun _ => .bind fun entered => ?_
  cases entered with
  | true => exact .bind fun _ => .bind fun _ => .pure rfl
  | false => exact .pure rfl

/-- Only calls, what needs a class and what enters a monitor have others go on. -/
theorem execute_plain {i : Instruction} (hn : i.needsClass = false)
    (hv : ∀ index, i ≠ .invokeVirtual index) (hi : ∀ index, i ≠ .invokeInterface index)
    (hs : ∀ index, i ≠ .invokeSpecial index) (he : i ≠ .monitorEnter) :
    Answers (execute host id i) fun next => next.isPlain := by
  have branch (taken : Bool) (target : Nat) :
      Answers (Pure.pure (branch taken target)) fun next => next.isPlain := by
    refine .pure ?_
    cases taken <;> rfl
  cases i with
  | nop => exact .pure rfl
  | goto => exact .pure rfl
  | branchZero => exact .bind fun _ => branch _ _
  | branchInts => exact .bind fun _ => .bind fun _ => branch _ _
  | branchSame => exact .bind fun _ => .bind fun _ => branch _ _
  | branchNull => exact .bind fun _ => branch _ _
  | jumpSubroutine => exact .bind fun _ => .bind fun _ => .pure rfl
  | returnSubroutine => exact .bind fun _ => .bind fun _ => .pure rfl
  | tableSwitch => exact .bind fun _ => .pure rfl
  | lookupSwitch => exact .bind fun _ => .pure rfl
  | leave kind =>
    cases kind with
    | none => exact .pure rfl
    | some kind => exact .bind fun _ => .bind fun _ => .pure rfl
  | getStatic => cases hn
  | putStatic => cases hn
  | invokeStatic => cases hn
  | new => cases hn
  | invokeVirtual index => exact absurd rfl (hv index)
  | invokeInterface index => exact absurd rfl (hi index)
  | invokeSpecial index => exact absurd rfl (hs index)
  | invokeDynamic =>
    refine .bind fun _ => ?_
    split
    · exact .throw _
    · exact .bind fun _ => .throw _
  | throwTop => exact .bind fun _ => .throw _
  | monitorEnter => exact absurd rfl he
  | _ => exact andAdvance_plain

/-- Only calls and what needs a class have anything else happen than to the frame. -/
theorem execute_local {i : Instruction} (hn : i.needsClass = false)
    (hv : ∀ index, i ≠ .invokeVirtual index) (hi : ∀ index, i ≠ .invokeInterface index)
    (hs : ∀ index, i ≠ .invokeSpecial index) :
    Answers (execute host id i) fun next => next.isLocal := by
  by_cases he : i = .monitorEnter
  · subst he
    exact monitorEnter_local
  · exact (execute_plain hn hv hi hs he).mono fun _ => Next.isPlain.isLocal

/-! ## Instructions that need no class -/

section Lively

variable [Lively R]

theorem monitorEnter_onCall : Within (OnCall R) (monitorEnter id) := by
  refine .bind (peek_within.mono fun _ _ => OnFrame.onCall) fun _ => .bind (.liftExcept _)
    fun r => .bind ((lift_within Exec.tryEnter_within).mono fun _ _ => OnFrame.onCall)
      fun entered => ?_
  cases entered with
  | true =>
    refine .bind (.discard (pop_within.mono fun _ _ => OnFrame.onCall)) fun _ =>
      .bind (fun s => ?_) fun _ => .pure _
    exact ⟨⟨rfl, rfl, rfl⟩, refl_of R s.2⟩
  | false => exact .pure _

theorem monitorExit_onCall : Within (OnCall R) (monitorExit id) := by
  refine .bind (popObject_within.mono fun _ _ => OnFrame.onCall) fun r =>
    .bind ((lift_within Exec.withMonitor_within).mono fun _ _ => OnFrame.onCall) fun promoted =>
      .bind ((lift_within Exec.wake_within).mono fun _ _ => OnFrame.onCall) fun _ s => ?_
  exact ⟨⟨rfl, rfl, rfl⟩, refl_of R s.2⟩

variable [StoresBytes R]

theorem execute_onCall {i : Instruction} (hn : i.needsClass = false) :
    Within (OnCall R) (execute host id i) := by
  by_cases he : i = .monitorEnter
  · subst he
    exact monitorEnter_onCall
  · by_cases hx : i = .monitorExit
    · subst hx
      exact .bind monitorExit_onCall fun _ => .pure _
    · exact (execute_within he hx hn fun _ => inferInstance).mono fun _ _ => OnFrame.onCall

end Lively

/-! ## Calls of methods of objects -/

/-- Reading the frame that work starts with. -/
theorem outcome_owner (s : Frame × Machine) : outcome owner s = (.ok s.1.owner, s) := rfl

theorem receiver_same {n : Nat} {s s' : Frame × Machine} {r : Ref}
    (h : outcome (receiver n) s = (.ok r, s')) : s' = s := by
  cases n with
  | zero => cases (outcome_throw _ _).symm.trans h
  | succ n =>
    obtain ⟨v, s₁, hv, h⟩ := outcome_bind_eq_ok h
    obtain ⟨-, rfl⟩ := Prod.mk.inj ((outcome_liftExcept (M := FrameM) _ _).symm.trans h)
    rw [peek, outcome_bind_ok (outcome_getFrame s)] at hv
    exact ((Prod.mk.inj ((outcome_liftExcept (M := FrameM) _ _).symm.trans hv)).2).symm

theorem invokeSpecial_defines {r : MethodRef} {f' : Frame} (hg : m.Grounded)
    (hf : m.Defines f.owner)
    (h : outcome (invokeSpecial index) (f, m) = (.ok (.invoke r), f', m₁)) :
    m₁.Defines r.owner := by
  rw [invokeSpecial, outcome_bind_ok (outcome_owner _)] at h
  obtain ⟨resolved, m₂, hr, h⟩ := outcome_frame_bind_eq_ok h
  have hm₂ : Retains m (outcome (Exec.resolveMethod f.owner index) m).2 :=
    Exec.resolveMethod_within m
  rw [hr] at hm₂
  obtain ⟨_, s, hd, h⟩ := outcome_bind_eq_ok h
  cases (outcome_pure _ _).symm.trans h
  have hs : OnFrame LivelyChange (f, m₂)
      (outcome (receiver (specialTarget f.owner resolved).method.argumentCount) (f, m₂)).2 :=
    receiver_within (f, m₂)
  rw [outcome_discard] at hd
  rw [(Prod.mk.inj hd).2] at hs
  exact (LivelyChange.within (R := Retains) hs.2).defines
    (m₂.ascends_defines.specialTarget (hm₂.defines hf) (Exec.resolveMethod_defines hg hf hr))

theorem invokeVirtual_defines {r : MethodRef} {f' : Frame} (hg : m.Grounded)
    (hf : m.Defines f.owner)
    (h : outcome (invokeVirtual index) (f, m) = (.ok (.invoke r), f', m₁)) :
    m₁.Defines r.owner := by
  rw [invokeVirtual, outcome_bind_ok (outcome_owner _)] at h
  obtain ⟨resolved, m₂, hr, h⟩ := outcome_frame_bind_eq_ok h
  have hm₂ : Retains m (outcome (Exec.resolveMethod f.owner index) m).2 :=
    Exec.resolveMethod_within m
  rw [hr] at hm₂
  have hresolved := Exec.resolveMethod_defines hg hf hr
  have select (h : outcome (do
      let c ← Exec.typeOf (← receiver resolved.method.argumentCount)
      if resolved.owner.isInterface && !c.isAssignableTo resolved.owner then
        throw (.interfaceNotImplemented c.name resolved.owner.name)
      return .invoke (virtualTarget c resolved) : FrameM Next) (f, m₂) =
        (.ok (.invoke r), f', m₁)) : m₁.Defines r.owner := by
    obtain ⟨o, s, ho, hrest⟩ := outcome_bind_eq_ok h
    rw [receiver_same ho] at hrest
    obtain ⟨c, m₃, htype, hi⟩ := outcome_frame_bind_eq_ok hrest
    obtain ⟨object, hobject, hc, hm₃⟩ := Exec.typeOf_ok htype
    rw [hm₃] at hi
    have answer : Next.invoke r = .invoke (virtualTarget c resolved) ∧ m₁ = m₂ := by
      dsimp only at hi
      split at hi
      · obtain ⟨_, _, ht, -⟩ := outcome_bind_eq_ok hi
        cases (outcome_throw _ _).symm.trans ht
      · cases (outcome_pure _ _).symm.trans hi
        exact ⟨rfl, rfl⟩
    obtain ⟨hnext, rfl⟩ := answer
    cases hnext
    have hdefines := (hm₂.grounded hg).types o object hobject
    rw [hc] at hdefines
    exact m₁.ascends_defines.virtualTarget hdefines hresolved
  split at h
  · obtain ⟨_, _, h, -⟩ := outcome_bind_eq_ok h
    cases (outcome_throw _ _).symm.trans h
  · exact select h

/-! ## Instructions that need a class -/

/-- Going on when the class is ready, and not before. -/
theorem outcome_whenReady (c : Class) (use : FrameM Next) (f : Frame) (m : Machine) :
    outcome (whenReady host id c use) (f, m) =
      match outcome (Exec.readyClass host id c) m with
      | (.ok .ready, m₁) => outcome use (f, m₁)
      | (.ok (.await d), m₁) => (.ok (.awaitInit d), f, m₁)
      | (.ok (.runInitializer r), m₁) => (.ok (.runInitializer r), f, m₁)
      | (.error e, m₁) => (.error e, f, m₁) := by
  unfold whenReady
  rcases hr : outcome (Exec.readyClass host id c) m with ⟨e | readiness, m₁⟩
  · rw [outcome_frame_bind_error hr]
  · rw [outcome_frame_bind_ok hr]
    cases readiness <;> rfl

theorem outcome_staticSite (index : Nat) (f : Frame) (m : Machine) :
    outcome (staticSite index) (f, m) =
      match outcome (Exec.resolveField f.owner index) m with
      | (.ok (.staticSlot c i), m₁) => (.ok (c, i), f, m₁)
      | (.ok (.instanceSlot ..), m₁) => (.error .staticFieldExpected, f, m₁)
      | (.error e, m₁) => (.error e, f, m₁) := by
  rw [staticSite, outcome_bind_ok (outcome_owner _)]
  rcases hr : outcome (Exec.resolveField f.owner index) m with ⟨e | site, m₁⟩
  · rw [outcome_frame_bind_error hr]
  · rw [outcome_frame_bind_ok hr]
    cases site <;> rfl

end FrameM

/-! ## All instructions -/

/-- The class is what a frame needs at some point, and finding it has changed the machine. -/
structure Frame.Needs (f : Frame) (m : Machine) (c : Class) (m₁ : Machine) : Prop where
  change : LivelyChange m m₁
  defines : m.Grounded → m.Defines f.owner → m₁.Defines c

/-- The machine with a new object of a class. -/
def Machine.created (m : Machine) (c : Class) : Machine :=
  { m with heap := (m.heap.allocate (.ofClass c {})).2 }

/-- What one instruction can do. -/
inductive Frame.Performs (host : Host) (id : ThreadId) (f : Frame) (m : Machine) :
    Except Fault Next × Frame × Machine → Prop
  | acts {x : Except Fault Next} {f' : Frame} {m₁ : Machine} (hf : f.Keeps f')
      (hm : LivelyChange m m₁) (hx : ∀ next, x = .ok next → next.isLocal) :
    Performs host id f m (x, f', m₁)
  | calls {r : MethodRef} {f' : Frame} {m₁ : Machine} (hf : f.Keeps f') (hm : LivelyChange m m₁)
      (hr : m.Grounded → m.Defines f.owner → m₁.Defines r.owner) :
    Performs host id f m (.ok (.invoke r), f', m₁)
  | refused {c : Class} {e : Fault} {m₁ m₂ : Machine} (hc : f.Needs m c m₁)
      (hr : outcome (Exec.readyClass host id c) m₁ = (.error e, m₂)) :
    Performs host id f m (.error e, f, m₂)
  | awaits {c d : Class} {m₁ m₂ : Machine} (hc : f.Needs m c m₁)
      (hr : outcome (Exec.readyClass host id c) m₁ = (.ok (.await d), m₂)) :
    Performs host id f m (.ok (.awaitInit d), f, m₂)
  | initializes {c : Class} {r : MethodRef} {m₁ m₂ : Machine} (hc : f.Needs m c m₁)
      (hr : outcome (Exec.readyClass host id c) m₁ = (.ok (.runInitializer r), m₂)) :
    Performs host id f m (.ok (.runInitializer r), f, m₂)
  | uses {c : Class} {x : Except Fault Next} {f' : Frame} {m₁ m₂ m₃ : Machine}
      (hc : f.Needs m c m₁) (hr : outcome (Exec.readyClass host id c) m₁ = (.ok .ready, m₂))
      (hf : f.Keeps f') (hm : LivelyChange m₂ m₃) (hx : ∀ next, x = .ok next → next.isLocal) :
    Performs host id f m (x, f', m₃)
  | callsStatic {r : MethodRef} {m₁ m₂ : Machine} (hc : f.Needs m r.owner m₁)
      (hr : outcome (Exec.readyClass host id r.owner) m₁ = (.ok .ready, m₂)) :
    Performs host id f m (.ok (.invoke r), f, m₂)
  | creates {c : Class} {x : Except Fault Next} {f' : Frame} {m₁ m₂ : Machine}
      (hc : f.Needs m c m₁) (hr : outcome (Exec.readyClass host id c) m₁ = (.ok .ready, m₂))
      (hf : f.Keeps f') (hx : ∀ next, x = .ok next → next.isLocal) :
    Performs host id f m (x, f', m₂.created c)

namespace FrameM

/-- Whatever work with an answer that is local does, it is one of the cases. -/
theorem performs_of_onCall {x : FrameM Next} (h : Within (OnCall LivelyChange) x)
    (hx : Answers x fun next => next.isLocal) (f : Frame) (m : Machine) :
    f.Performs host id m (outcome x (f, m)) :=
  .acts (h (f, m)).1 (h (f, m)).2 fun next e => hx (f, m) next _ (Prod.ext e rfl)

/-- Readying a class that was found, and then using it. -/
theorem whenReady_performs {use : FrameM Next} (hc : f.Needs m c m₁)
    (hu : ∀ m₂, outcome (Exec.readyClass host id c) m₁ = (.ok .ready, m₂) →
      f.Performs host id m (outcome use (f, m₂))) :
    f.Performs host id m (outcome (whenReady host id c use) (f, m₁)) := by
  rw [outcome_whenReady]
  rcases hr : outcome (Exec.readyClass host id c) m₁ with ⟨e | readiness, m₂⟩
  · exact .refused hc hr
  · cases readiness with
    | ready => exact hu m₂ hr
    | await d => exact .awaits hc hr
    | runInitializer r => exact .initializes hc hr

/-- Using a class that is ready in a lively way. -/
theorem uses_of_onCall {use : FrameM Next} {m₂ : Machine} (hc : f.Needs m c m₁)
    (hr : outcome (Exec.readyClass host id c) m₁ = (.ok .ready, m₂))
    (h : Within (OnCall LivelyChange) use) (hu : Answers use fun next => next.isLocal) :
    f.Performs host id m (outcome use (f, m₂)) :=
  .uses hc hr (h (f, m₂)).1 (h (f, m₂)).2 fun next e => hu (f, m₂) next _ (Prod.ext e rfl)

theorem staticSite_performs {g : Class × Nat → FrameM Next} (f : Frame) (m : Machine)
    (hg : ∀ c i m₁, f.Needs m c m₁ → f.Performs host id m (outcome (g (c, i)) (f, m₁))) :
    f.Performs host id m (outcome (staticSite index >>= g) (f, m)) := by
  have hl : LivelyChange m (outcome (Exec.resolveField f.owner index) m).2 :=
    Exec.resolveField_within m
  have hs := outcome_staticSite index f m
  rcases hr : outcome (Exec.resolveField f.owner index) m with ⟨e | site, m₁⟩ <;>
    rw [hr] at hl hs
  · rw [outcome_bind_error hs]
    exact .acts (.refl f) hl nofun
  · cases site with
    | instanceSlot c i =>
      rw [outcome_bind_error hs]
      exact .acts (.refl f) hl nofun
    | staticSlot c i =>
      rw [outcome_bind_ok hs]
      exact hg c i m₁ ⟨hl, fun hm hf => Exec.resolveField_defines hm hf hr⟩

/-- Pushing the value of a static field. -/
theorem readStatic_onCall {slot : Nat} : Within (OnCall LivelyChange) (do
    push (← Exec.getStatic c slot)
    return .advance : FrameM Next) :=
  .bind ((lift_within Exec.getStatic_within).mono fun _ _ => OnFrame.onCall) fun _ =>
    .bind (push_within.mono fun _ _ => OnFrame.onCall) fun _ => .pure _

/-- Setting a static field to the value on top. -/
theorem writeStatic_onCall {slot : Nat} : Within (OnCall LivelyChange) (do
    Exec.setStatic c slot (← pop)
    return .advance : FrameM Next) :=
  .bind (pop_within.mono fun _ _ => OnFrame.onCall) fun _ =>
    .bind ((lift_within Exec.setStatic_within).mono fun _ _ => OnFrame.onCall) fun _ => .pure _

theorem getStatic_performs (f : Frame) (m : Machine) :
    f.Performs host id m (outcome (getStatic host id index) (f, m)) := by
  refine staticSite_performs f m fun c i m₁ hc => whenReady_performs hc fun m₂ hr => ?_
  exact uses_of_onCall hc hr readStatic_onCall (.bind fun _ => .bind fun _ => .pure rfl)

theorem putStatic_performs (f : Frame) (m : Machine) :
    f.Performs host id m (outcome (putStatic host id index) (f, m)) := by
  refine staticSite_performs f m fun c i m₁ hc => whenReady_performs hc fun m₂ hr => ?_
  exact uses_of_onCall hc hr writeStatic_onCall (.bind fun _ => .bind fun _ => .pure rfl)

theorem invokeStatic_performs (f : Frame) (m : Machine) :
    f.Performs host id m (outcome (invokeStatic host id index) (f, m)) := by
  have hl : LivelyChange m (outcome (Exec.resolveMethod f.owner index) m).2 :=
    Exec.resolveMethod_within m
  rw [invokeStatic, outcome_bind_ok (outcome_owner _)]
  rcases hr : outcome (Exec.resolveMethod f.owner index) m with ⟨e | r, m₁⟩ <;> rw [hr] at hl
  · rw [outcome_frame_bind_error hr]
    exact .acts (.refl f) hl nofun
  · rw [outcome_frame_bind_ok hr]
    have hc : f.Needs m r.owner m₁ := ⟨hl, fun hm hf => Exec.resolveMethod_defines hm hf hr⟩
    dsimp only
    split
    · rw [outcome_bind_error (outcome_throw _ _)]
      exact .acts (.refl f) hl nofun
    · refine whenReady_performs hc fun m₂ hready => ?_
      rw [outcome_pure]
      exact .callsStatic hc hready

/-- Creating an object of a class that is ready. -/
theorem outcome_instantiate (c : Class) (m : Machine) :
    (∃ e, outcome (Exec.instantiate c) m = (.error e, m)) ∨
      ∃ r, outcome (Exec.instantiate c) m = (.ok r, m.created c) := by
  unfold Exec.instantiate
  split
  · exact .inl ⟨_, rfl⟩
  · exact .inr ⟨_, rfl⟩

theorem new_performs (f : Frame) (m : Machine) :
    f.Performs host id m (outcome (new host id index) (f, m)) := by
  have hl : LivelyChange m (outcome (Exec.classAt f.owner index) m).2 := Exec.classAt_within m
  rw [new, classAt, outcome_bind, outcome_bind_ok (outcome_owner _)]
  rw [outcome_liftFrame]
  dsimp only
  rcases hr : outcome (Exec.classAt f.owner index) m with ⟨e | c, m₁⟩ <;> rw [hr] at hl
  · exact .acts (.refl f) hl nofun
  · have hc : f.Needs m c m₁ := ⟨hl, fun hm hf => Exec.classAt_defines hm hf hr⟩
    dsimp only [followedBy]
    split
    · next ha =>
      have refused : ∃ e, outcome (Exec.instantiate c) m₁ = (.error e, m₁) := by
        unfold Exec.instantiate
        rw [if_pos ha]
        exact ⟨_, rfl⟩
      obtain ⟨e, he⟩ := refused
      rw [outcome_frame_bind_error he]
      exact .acts (.refl f) hl nofun
    · refine whenReady_performs hc fun m₂ hready => ?_
      rcases outcome_instantiate c m₂ with ⟨e, he⟩ | ⟨r, he⟩
      · rw [outcome_frame_bind_error he]
        exact .uses hc hready (.refl f) (refl_of LivelyChange m₂) nofun
      · rw [outcome_frame_bind_ok he]
        have hpush := push_within (R := fun m m' => m = m') (v := .ofRef r) (f, m₂.created c)
        rcases hp : outcome (push (.ofRef r)) (f, m₂.created c) with ⟨e | _, f', m₃⟩ <;>
          rw [hp] at hpush <;> obtain ⟨hf, rfl⟩ := hpush
        · rw [outcome_bind_error hp]
          exact .creates hc hready hf.keeps nofun
        · rw [outcome_bind_ok hp, outcome_pure]
          refine .creates hc hready hf.keeps fun next e => ?_
          cases e
          rfl

theorem invokeSpecial_invokes : Answers (invokeSpecial index) fun next => ∃ r, next = .invoke r :=
  .bind fun _ => .bind fun _ => .bind fun _ => .pure ⟨_, rfl⟩

theorem invokeVirtual_invokes : Answers (invokeVirtual index) fun next => ∃ r, next = .invoke r := by
  refine .bind fun _ => .bind fun _ => ?_
  dsimp only
  split
  · refine .bind fun _ => .bind fun _ => .bind fun _ => ?_
    split
    · exact .bind fun _ => .pure ⟨_, rfl⟩
    · exact .pure ⟨_, rfl⟩
  · refine .bind fun _ => .bind fun _ => ?_
    split
    · exact .bind fun _ => .pure ⟨_, rfl⟩
    · exact .pure ⟨_, rfl⟩

theorem whenReady_answers {use : FrameM Next} {P : Next → Prop} (hu : Answers use P)
    (ha : ∀ c, P (.awaitInit c)) (hi : ∀ clinit, P (.runInitializer clinit)) :
    Answers (whenReady host id c use) P := by
  refine .bind fun readiness => ?_
  cases readiness with
  | ready => exact hu
  | await c => exact .pure (ha c)
  | runInitializer clinit => exact .pure (hi clinit)

/-- Only an instruction that enters a monitor blocks by itself, and only one that returns leaves the
    frame, with a value if it is of the kind that has one. -/
theorem execute_mayAnswer (host : Host) (id : ThreadId) (i : Instruction) :
    Answers (execute host id i) i.MayAnswer := by
  have use {i : Instruction} {c : Class} {x : FrameM Next} (hx : Answers x i.MayAnswer) :
      Answers (whenReady host id c x) i.MayAnswer :=
    whenReady_answers hx (fun _ => .awaits) fun _ => .initializes
  have invokes {i : Instruction} {x : FrameM Next} (hx : Answers x fun next => ∃ r, next = .invoke r) :
      Answers x i.MayAnswer := hx.mono fun next ⟨r, e⟩ => e ▸ .invokes
  have branch {i : Instruction} (taken : Bool) (target : Nat) :
      Answers (Pure.pure (branch taken target)) i.MayAnswer := by
    refine .pure ?_
    cases taken
    · exact .advances
    · exact .jumps
  cases i with
  | nop => exact .pure .advances
  | goto => exact .pure .jumps
  | branchZero => exact .bind fun _ => branch _ _
  | branchInts => exact .bind fun _ => .bind fun _ => branch _ _
  | branchSame => exact .bind fun _ => .bind fun _ => branch _ _
  | branchNull => exact .bind fun _ => branch _ _
  | jumpSubroutine => exact .bind fun _ => .bind fun _ => .pure .jumps
  | returnSubroutine => exact .bind fun _ => .bind fun _ => .pure .jumps
  | tableSwitch => exact .bind fun _ => .pure .jumps
  | lookupSwitch => exact .bind fun _ => .pure .jumps
  | leave kind =>
    cases kind with
    | none => exact .pure (.leaves rfl)
    | some kind => exact .bind fun _ => .bind fun _ => .pure (.leaves rfl)
  | getStatic => exact .bind fun _ => use (.bind fun _ => .bind fun _ => .pure .advances)
  | putStatic => exact .bind fun _ => use (.bind fun _ => .bind fun _ => .pure .advances)
  | invokeStatic =>
    refine .bind fun _ => .bind fun method => ?_
    dsimp only
    split
    · exact .bind fun _ => use (.pure .invokes)
    · exact use (.pure .invokes)
  | new =>
    refine .bind fun c => ?_
    have create {index : Nat} : Answers (do
        push (.ofRef (← Exec.instantiate c))
        return .advance : FrameM Next) (Instruction.new index).MayAnswer :=
      .bind fun _ => .bind fun _ => .pure .advances
    dsimp only
    split
    · exact create
    · exact use create
  | invokeVirtual => exact invokes invokeVirtual_invokes
  | invokeInterface => exact invokes invokeVirtual_invokes
  | invokeSpecial => exact invokes invokeSpecial_invokes
  | invokeDynamic =>
    refine .bind fun _ => ?_
    split
    · exact .throw _
    · exact .bind fun _ => .throw _
  | throwTop => exact .bind fun _ => .throw _
  | monitorEnter =>
    refine .bind fun _ => .bind fun _ => .bind fun entered => ?_
    split
    · exact .bind fun _ => .bind fun _ => .pure .advances
    · exact .pure .blocks
  | _ => exact .bind fun _ => .pure .advances

/-- Only an instruction that enters a monitor blocks by itself. -/
theorem execute_unblocked {i : Instruction} (he : i ≠ .monitorEnter) :
    Answers (execute host id i) fun next => ∀ r, next ≠ .block r := by
  refine (execute_mayAnswer host id i).mono fun next h r e => ?_
  cases e
  cases h
  exact he rfl

/-- Whatever an instruction does is one of the cases. -/
theorem execute_performs (i : Instruction) (f : Frame) (m : Machine) :
    f.Performs host id m (outcome (execute host id i) (f, m)) := by
  have lively (hn : i.needsClass = false) : Within (OnCall LivelyChange) (execute host id i) :=
    execute_onCall hn
  have calls {x : FrameM Next} (h : Within (OnCall LivelyChange) x)
      (hx : Answers x fun next => next.isLocal ∨ ∃ r, next = .invoke r)
      (hr : ∀ r f' m₁, outcome x (f, m) = (.ok (.invoke r), f', m₁) → m.Grounded →
        m.Defines f.owner → m₁.Defines r.owner) : f.Performs host id m (outcome x (f, m)) := by
    have ho := h (f, m)
    rcases hy : outcome x (f, m) with ⟨e | next, f', m₁⟩ <;> rw [hy] at ho
    · exact .acts ho.1 ho.2 nofun
    · rcases hx _ _ _ hy with hl | ⟨r, rfl⟩
      · refine .acts ho.1 ho.2 fun next' e => ?_
        cases e
        exact hl
      · exact .calls ho.1 ho.2 (hr r f' m₁ hy)
  have special {index : Nat} : Answers (invokeSpecial index)
      fun next => next.isLocal ∨ ∃ r, next = .invoke r := invokeSpecial_invokes.mono fun _ => .inr
  have virtual {index : Nat} : Answers (invokeVirtual index)
      fun next => next.isLocal ∨ ∃ r, next = .invoke r := invokeVirtual_invokes.mono fun _ => .inr
  cases i with
  | getStatic => exact getStatic_performs f m
  | putStatic => exact putStatic_performs f m
  | invokeStatic => exact invokeStatic_performs f m
  | new => exact new_performs f m
  | invokeVirtual =>
    exact calls (lively rfl) virtual fun _ _ _ h hm hf => invokeVirtual_defines hm hf h
  | invokeInterface =>
    exact calls (lively rfl) virtual fun _ _ _ h hm hf => invokeVirtual_defines hm hf h
  | invokeSpecial =>
    exact calls (lively rfl) special fun _ _ _ h hm hf => invokeSpecial_defines hm hf h
  | _ => exact performs_of_onCall (lively rfl) (execute_local rfl (by simp) (by simp) (by simp)) f m

end FrameM

/-- Whatever the instruction at a frame's position does is one of the cases. -/
theorem Frame.execute_performs (host : Host) (id : ThreadId) (f : Frame) (m : Machine) :
    f.Performs host id m (outcome (Frame.execute host id) (f, m)) := by
  rw [Frame.execute, outcome_bind_ok (outcome_getFrame _)]
  cases f.code.instructions[f.pc]? with
  | some i => exact FrameM.execute_performs i f m
  | none => exact .acts (.refl f) (refl_of LivelyChange m) (by simp)

end GreenVm
