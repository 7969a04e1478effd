/-
  Classes are used when they are ready.

  * `Exec.readyClass_ready`: a class that is said to be ready for a thread is initialized, or that
    thread initializes it.
  * `Frame.Uses`: the instruction at the position of a frame needs a class to be initialized.
  * `Frame.Uses.ready`: it gets past the initialization only if the class is ready.
-/
import GreenVm.Proofs.Initialization

namespace GreenVm

variable {host : Host} {id : ThreadId} {c : Class} {m m₁ m' : Machine} {f : Frame}

namespace Exec

theorem beginClass_ready (h : outcome (beginClass host id c) m = (.ok .ready, m')) :
    m'.progress c.name = .done := by
  have done {m₁ : Machine} (h : outcome (do
      setInit c .done
      return Readiness.ready : Exec Readiness) m₁ = (.ok .ready, m')) :
      m'.progress c.name = .done := by
    rw [outcome_bind_ok (outcome_setInit _ _ _)] at h
    cases (outcome_pure _ _).symm.trans h
    exact Machine.progress_withInit_self _ _ _
  unfold beginClass at h
  obtain ⟨_, m₁, -, h⟩ := outcome_bind_eq_ok h
  obtain ⟨assigned, m₂, -, h⟩ := outcome_bind_eq_ok h
  cases assigned with
  | error fault =>
    obtain ⟨_, _, -, h⟩ := outcome_bind_eq_ok h
    cases (outcome_throw _ _).symm.trans h
  | ok _ =>
    dsimp only at h
    rw [outcome_bind_ok (outcome_get m₂)] at h
    split at h
    · exact done h
    · cases (outcome_pure _ _).symm.trans h
    · obtain ⟨ran, m₃, -, h⟩ := outcome_bind_eq_ok h
      split at h
      · exact done h
      · obtain ⟨_, _, -, h⟩ := outcome_bind_eq_ok h
        obtain ⟨_, _, -, h⟩ := outcome_bind_eq_ok h
        obtain ⟨_, _, -, h⟩ := outcome_bind_eq_ok h
        cases (outcome_throw _ _).symm.trans h
      · cases (outcome_throw _ _).symm.trans h

theorem readyAfter_ready {above : Exec Readiness}
    (h : outcome (readyAfter host id c above) m = (.ok .ready, m')) : m'.Ready id c := by
  unfold readyAfter at h
  rw [outcome_bind_ok (outcome_classState c m), Machine.stateOf_init] at h
  cases hp : m.progress c.name with
  | done =>
    rw [hp] at h
    cases (outcome_pure _ _).symm.trans h
    exact .inl hp
  | inProgress owner =>
    rw [hp] at h
    dsimp only at h
    split at h
    · next howner =>
      cases (outcome_pure _ _).symm.trans h
      exact .inr (howner ▸ hp)
    · cases (outcome_pure _ _).symm.trans h
  | failed =>
    rw [hp] at h
    cases (outcome_throw _ _).symm.trans h
  | uninitialized =>
    rw [hp] at h
    obtain ⟨readiness, m₁, -, h⟩ := outcome_bind_eq_ok h
    split at h
    · exact .inl (beginClass_ready h)
    · next hne =>
      cases (outcome_pure _ _).symm.trans h
      exact absurd rfl hne

/-- A class that is ready for a thread is initialized, or the thread initializes it. -/
theorem readyClass_ready (h : outcome (readyClass host id c) m = (.ok .ready, m')) :
    m'.Ready id c := by
  obtain ⟨declared, superClass, interfaces, element⟩ := c
  cases superClass with
  | none => exact readyAfter_ready (by rwa [readyClass] at h)
  | some s => exact readyAfter_ready (by rwa [readyClass] at h)

end Exec

/-- The instruction at the position of a frame needs a class to be initialized: the machine has come
    to be `m₁` when the class was found.  An object of a class that has none is refused at once. -/
inductive Frame.Uses (f : Frame) (m : Machine) (c : Class) (m₁ : Machine) : Prop
  | field {index slot : Nat}
      (hi : f.code.instructions[f.pc]? = some (.getStatic index) ∨
        f.code.instructions[f.pc]? = some (.putStatic index))
      (hc : outcome (Exec.resolveField f.owner index) m = (.ok (.staticSlot c slot), m₁))
  | method {index : Nat} {r : MethodRef}
      (hi : f.code.instructions[f.pc]? = some (.invokeStatic index))
      (hc : outcome (Exec.resolveMethod f.owner index) m = (.ok r, m₁))
      (hs : r.method.isStatic = true) (ho : r.owner = c)
  | object {index : Nat} (hi : f.code.instructions[f.pc]? = some (.new index))
      (hc : outcome (Exec.classAt f.owner index) m = (.ok c, m₁))
      (ha : (c.isInterface || c.isAbstract) = false)

namespace Frame.Uses

theorem outcome_execute {i : Instruction} (hi : f.code.instructions[f.pc]? = some i)
    (m : Machine) :
    outcome (Frame.execute host id) (f, m) = outcome (FrameM.execute host id i) (f, m) := by
  rw [Frame.execute, outcome_bind_ok (outcome_getFrame _), hi]

/-- The instruction goes on when the class is ready, and then initializes nothing. -/
theorem outcome_eq (h : f.Uses m c m₁) (host : Host) (id : ThreadId) :
    ∃ use : FrameM Next,
      outcome (Frame.execute host id) (f, m) =
        outcome (FrameM.whenReady host id c use) (f, m₁) ∧
      ∀ m₂ name, (outcome use (f, m₂)).2.2.progress name = m₂.progress name := by
  have progress {use : FrameM Next} (hu : Within (OnCall LivelyChange) use) (m₂ : Machine)
      (name : String) : (outcome use (f, m₂)).2.2.progress name = m₂.progress name :=
    (LivelyChange.within (R := KeepsInit) (hu (f, m₂)).2).progress_eq name
  cases h with
  | @field index slot hi hc =>
    have site : outcome (FrameM.staticSite index) (f, m) = (.ok (c, slot), f, m₁) := by
      rw [FrameM.outcome_staticSite, hc]
    rcases hi with hi | hi
    · refine ⟨_, ?_, progress (@FrameM.readStatic_onCall c slot)⟩
      rw [outcome_execute hi]
      show outcome (FrameM.getStatic host id index) (f, m) = _
      rw [FrameM.getStatic, outcome_bind_ok site]
    · refine ⟨_, ?_, progress (@FrameM.writeStatic_onCall c slot)⟩
      rw [outcome_execute hi]
      show outcome (FrameM.putStatic host id index) (f, m) = _
      rw [FrameM.putStatic, outcome_bind_ok site]
  | @method index r hi hc hs ho =>
    subst ho
    refine ⟨pure (.invoke r), ?_, progress (.pure _)⟩
    rw [outcome_execute hi]
    show outcome (FrameM.invokeStatic host id index) (f, m) = _
    rw [FrameM.invokeStatic, outcome_bind_ok (FrameM.outcome_owner _), outcome_frame_bind_ok hc]
    simp only [hs, Bool.not_true]
    rfl
  | @object index hi hc ha =>
    refine ⟨do
      FrameM.push (.ofRef (← Exec.instantiate c))
      return .advance, ?_, fun m₂ name => ?_⟩
    · rw [outcome_execute hi]
      show outcome (FrameM.new host id index) (f, m) = _
      rw [FrameM.new, FrameM.classAt, outcome_bind, outcome_bind_ok (FrameM.outcome_owner _),
        outcome_liftFrame, hc]
      dsimp only [followedBy]
      rw [if_neg (by simp [ha])]
    · rcases FrameM.outcome_instantiate c m₂ with ⟨e, he⟩ | ⟨r, he⟩
      · rw [outcome_frame_bind_error he]
      · rw [outcome_frame_bind_ok he]
        exact progress (.bind (FrameM.push_within.mono fun _ _ => OnFrame.onCall) fun _ => .pure _)
          (m₂.created c) name

/-- **An instruction gets past the initialization of a class only if the class is initialized or
    its own thread initializes it**: that holds when the class is said to be ready, and still at the
    end if the instruction succeeds. -/
theorem ready (h : f.Uses m c m₁) (host : Host) (id : ThreadId) :
    (∀ m₂, outcome (Exec.readyClass host id c) m₁ = (.ok .ready, m₂) → m₂.Ready id c) ∧
      ∀ next f' m', outcome (Frame.execute host id) (f, m) = (.ok next, f', m') →
        next.isLocal ∨ (∃ r, next = .invoke r) → m'.Ready id c := by
  refine ⟨fun m₂ => Exec.readyClass_ready, fun next f' m' hx hn => ?_⟩
  obtain ⟨use, he, hu⟩ := h.outcome_eq host id
  rw [he, FrameM.outcome_whenReady] at hx
  split at hx
  · next m₂ hr =>
    have hready := Exec.readyClass_ready hr
    have same := hu m₂ c.name
    rw [hx] at same
    rwa [Machine.Ready, same]
  · cases hx
    rcases hn with hn | ⟨r, hn⟩ <;> cases hn
  · cases hx
    rcases hn with hn | ⟨r, hn⟩ <;> cases hn
  · cases hx

end Frame.Uses

end GreenVm
