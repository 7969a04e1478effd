/-
  How instructions come to call methods.

  * `Frame.Dispatches f m m' r`: the call that the instruction of a frame comes to, and the receiver
    that it has looked at: a call on an object runs what `specialTarget` or `virtualTarget` picks.
  * `Frame.execute_dispatches`: there is no other way to a call.
  * `Frame.execute_same`: an instruction that asks for anything more than to go on in its frame or to
    leave it has taken nothing from the frame.
-/
import GreenVm.Proofs.Calls
import GreenVm.Proofs.Performing

namespace GreenVm

variable {host : Host} {id : ThreadId} {f f' : Frame} {m m₁ : Machine} {next : Next} {index : Nat}
  {r : MethodRef}

/-- The goings-on that the frame alone cannot do: a call, or what has the instruction run again. -/
def Next.leavesFrame : Next → Bool
  | .invoke _ | .block _ | .awaitInit _ | .runInitializer _ => true
  | _ => false

theorem Next.isPlain.not_leavesFrame : ∀ {next : Next}, next.isPlain → next.leavesFrame = false
  | .advance, _ | .jump _, _ | .leave _, _ => rfl

/-- The method that is called next. -/
def Next.method? : Next → Option MethodRef
  | .invoke r => some r
  | _ => none

theorem Next.exists_of_method? {α : Type} {x : Except Fault Next × α} {P : MethodRef → Bool}
    (h : (x.1.toOption.bind Next.method?).any P) : ∃ r a, x = (.ok (.invoke r), a) ∧ P r := by
  obtain ⟨e | next, a⟩ := x
  · cases h
  · cases next with
    | invoke r => exact ⟨r, a, rfl, h⟩
    | _ => cases h

/-- How the instruction of a frame comes to call a method. -/
inductive Frame.Dispatches (f : Frame) (m m' : Machine) : MethodRef → Prop
  | static {index : Nat} {r : MethodRef}
      (hi : f.code.instructions[f.pc]? = some (.invokeStatic index))
      (hs : r.method.isStatic = true) : Dispatches f m m' r
  | special {index n : Nat} {resolved : MethodRef} {o : Ref}
      (hi : f.code.instructions[f.pc]? = some (.invokeSpecial index))
      (hr : outcome (Exec.resolveMethod f.owner index) m = (.ok resolved, m'))
      (hn : (specialTarget f.owner resolved).method.argumentCount = n + 1)
      (ho : f.stack.peek n = .ok (.ofRef o)) : Dispatches f m m' (specialTarget f.owner resolved)
  | virtual {index n : Nat} {resolved : MethodRef} {o : Ref} {object : Object}
      (hi : f.code.instructions[f.pc]? = some (.invokeVirtual index) ∨
        f.code.instructions[f.pc]? = some (.invokeInterface index))
      (hr : outcome (Exec.resolveMethod f.owner index) m = (.ok resolved, m'))
      (hs : resolved.method.isStatic = false) (hn : resolved.method.argumentCount = n + 1)
      (ho : f.stack.peek n = .ok (.ofRef o)) (hobject : m'.heap.get? o = some object)
      (hc : resolved.owner.isInterface = true → object.type.isAssignableTo resolved.owner = true) :
    Dispatches f m m' (virtualTarget object.type resolved)

namespace FrameM

theorem outcome_receiver {n : Nat} {o : Ref} (ho : f.stack.peek n = .ok (.ofRef o)) (m : Machine) :
    outcome (receiver (n + 1)) (f, m) = (.ok o, f, m) := by
  rw [receiver, outcome_bind_ok (by rw [outcome_peek, ho]; rfl)]
  rfl

/-- The receiver lies beneath the other arguments. -/
theorem receiver_ok {n : Nat} {o : Ref} {s : Frame × Machine}
    (h : outcome (receiver n) (f, m) = (.ok o, s)) :
    s = (f, m) ∧ ∃ k, n = k + 1 ∧ f.stack.peek k = .ok (.ofRef o) := by
  refine ⟨receiver_same h, ?_⟩
  cases n with
  | zero => cases (outcome_throw _ _).symm.trans h
  | succ n =>
    obtain ⟨v, s₁, hv, h⟩ := outcome_bind_eq_ok h
    obtain ⟨ho, -⟩ := Prod.mk.inj ((outcome_liftExcept (M := FrameM) _ _).symm.trans h)
    obtain ⟨hv, -⟩ := Prod.mk.inj ((outcome_peek n (f, m)).symm.trans hv)
    exact ⟨n, rfl, (liftM_eq_ok.1 hv).trans (congrArg Except.ok (Value.asObject_eq_ok ho))⟩

theorem invokeSpecial_ok (h : outcome (invokeSpecial index) (f, m) = (.ok next, f', m₁)) :
    ∃ resolved n o, f' = f ∧ outcome (Exec.resolveMethod f.owner index) m = (.ok resolved, m₁) ∧
      (specialTarget f.owner resolved).method.argumentCount = n + 1 ∧
      f.stack.peek n = .ok (.ofRef o) ∧ next = .invoke (specialTarget f.owner resolved) := by
  rw [invokeSpecial, outcome_bind_ok (outcome_owner _)] at h
  obtain ⟨resolved, m₂, hr, h⟩ := outcome_frame_bind_eq_ok h
  obtain ⟨_, s, hd, h⟩ := outcome_bind_eq_ok h
  cases (outcome_pure _ _).symm.trans h
  rw [outcome_discard] at hd
  obtain ⟨hd, hs⟩ := Prod.mk.inj hd
  obtain ⟨o, ho, -⟩ := except_map_eq_ok.1 hd
  obtain ⟨same, n, hn, hp⟩ := receiver_ok (Prod.ext ho hs)
  cases same
  exact ⟨resolved, n, o, rfl, hr, hn, hp, rfl⟩

theorem invokeVirtual_ok (h : outcome (invokeVirtual index) (f, m) = (.ok next, f', m₁)) :
    ∃ resolved n o object, f' = f ∧
      outcome (Exec.resolveMethod f.owner index) m = (.ok resolved, m₁) ∧
      resolved.method.isStatic = false ∧ resolved.method.argumentCount = n + 1 ∧
      f.stack.peek n = .ok (.ofRef o) ∧ m₁.heap.get? o = some object ∧
      (resolved.owner.isInterface = true → object.type.isAssignableTo resolved.owner = true) ∧
      next = .invoke (virtualTarget object.type resolved) := by
  rw [invokeVirtual, outcome_bind_ok (outcome_owner _)] at h
  obtain ⟨resolved, m₂, hr, h⟩ := outcome_frame_bind_eq_ok h
  dsimp only at h
  split at h
  · obtain ⟨_, _, h, -⟩ := outcome_bind_eq_ok h
    cases (outcome_throw _ _).symm.trans h
  · next hs =>
    obtain ⟨o, s, ho, h⟩ := outcome_bind_eq_ok h
    obtain ⟨rfl, n, hn, hp⟩ := receiver_ok ho
    obtain ⟨c, m₃, htype, hanswer⟩ := outcome_frame_bind_eq_ok h
    obtain ⟨object, hobject, rfl, rfl⟩ := Exec.typeOf_ok htype
    split at hanswer
    · obtain ⟨_, _, ht, -⟩ := outcome_bind_eq_ok hanswer
      cases (outcome_throw _ _).symm.trans ht
    · next hc =>
      cases (outcome_pure _ _).symm.trans hanswer
      refine ⟨resolved, n, o, object, rfl, hr, by simpa using hs, hn, hp, hobject, fun hi => ?_, rfl⟩
      simpa [hi] using hc

/-- Going on once a class is ready leaves the frame as what comes then does. -/
theorem whenReady_ok {c : Class} {use : FrameM Next}
    (h : outcome (whenReady host id c use) (f, m) = (.ok next, f', m₁)) :
    (f' = f ∧ ∀ r, next ≠ .invoke r) ∨ ∃ m₂, outcome use (f, m₂) = (.ok next, f', m₁) := by
  rw [outcome_whenReady] at h
  split at h
  · next m₂ _ => exact .inr ⟨m₂, h⟩
  · cases h
    exact .inl ⟨rfl, nofun⟩
  · cases h
    exact .inl ⟨rfl, nofun⟩
  · cases h

theorem invokeStatic_ok (h : outcome (invokeStatic host id index) (f, m) = (.ok next, f', m₁)) :
    f' = f ∧ ∀ r, next = .invoke r → r.method.isStatic = true := by
  rw [invokeStatic, outcome_bind_ok (outcome_owner _)] at h
  obtain ⟨resolved, m₂, -, h⟩ := outcome_frame_bind_eq_ok h
  dsimp only at h
  split at h
  · obtain ⟨_, _, h, -⟩ := outcome_bind_eq_ok h
    cases (outcome_throw _ _).symm.trans h
  · next hs =>
    rcases whenReady_ok h with ⟨hf, hn⟩ | ⟨m₃, h⟩
    · exact ⟨hf, fun r e => absurd e (hn r)⟩
    · cases (outcome_pure _ _).symm.trans h
      refine ⟨rfl, fun r e => ?_⟩
      cases e
      simpa using hs

/-- Reading a static field, writing it and creating an object is done when the class is ready. -/
theorem needsClass_same {i : Instruction} (hn : i.needsClass = true)
    (hs : ∀ index, i ≠ .invokeStatic index)
    (h : outcome (execute host id i) (f, m) = (.ok next, f', m₁)) (hl : next.leavesFrame = true) :
    f' = f ∧ ∀ r, next ≠ .invoke r := by
  have plain {x : FrameM Next} {s : Frame × Machine} (hx : Answers x fun next => next.isPlain)
      (h : outcome x s = (.ok next, f', m₁)) : f' = f ∧ ∀ r, next ≠ .invoke r := by
    rw [Next.isPlain.not_leavesFrame (hx _ _ _ h)] at hl
    cases hl
  have use {c : Class} {x : FrameM Next} {m₂ : Machine} (hx : Answers x fun next => next.isPlain)
      (h : outcome (whenReady host id c x) (f, m₂) = (.ok next, f', m₁)) :
      f' = f ∧ ∀ r, next ≠ .invoke r := by
    rcases whenReady_ok h with h | ⟨m₃, h⟩
    · exact h
    · exact plain hx h
  have site {index : Nat} {g : Class × Nat → FrameM Next}
      (hg : ∀ a m₂, outcome (g a) (f, m₂) = (.ok next, f', m₁) → f' = f ∧ ∀ r, next ≠ .invoke r)
      (h : outcome (staticSite index >>= g) (f, m) = (.ok next, f', m₁)) :
      f' = f ∧ ∀ r, next ≠ .invoke r := by
    obtain ⟨a, s, ha, h⟩ := outcome_bind_eq_ok h
    rw [outcome_staticSite] at ha
    split at ha
    · cases ha
      exact hg _ _ h
    · cases ha
    · cases ha
  cases i with
  | getStatic =>
    refine site (fun a m₂ h => use (x := do push (← Exec.getStatic a.1 a.2); return .advance) ?_ h) h
    exact .bind fun _ => .bind fun _ => .pure rfl
  | putStatic =>
    refine site (fun a m₂ h => use (x := do Exec.setStatic a.1 a.2 (← pop); return .advance) ?_ h) h
    exact .bind fun _ => .bind fun _ => .pure rfl
  | new =>
    obtain ⟨c, s, hc, h⟩ := outcome_bind_eq_ok h
    obtain ⟨m₂, rfl⟩ : ∃ m₂, s = (f, m₂) := by
      rw [classAt, outcome_bind_ok (outcome_owner _), outcome_liftFrame] at hc
      exact ⟨_, (Prod.mk.inj hc).2.symm⟩
    have create : Answers (do
        push (.ofRef (← Exec.instantiate c))
        return .advance : FrameM Next) fun next => next.isPlain :=
      .bind fun _ => .bind fun _ => .pure rfl
    dsimp only at h
    split at h
    · exact plain create h
    · exact use create h
  | invokeStatic index => exact absurd rfl (hs index)
  | _ => cases hn

end FrameM

namespace Frame

/-- An instruction that asks for anything more than to go on in its frame or to leave it has taken
    nothing from the frame, and if it is a call it came to it in one of the known ways. -/
theorem execute_leavesFrame (h : outcome (Frame.execute host id) (f, m) = (.ok next, f', m₁))
    (hl : next.leavesFrame = true) :
    f' = f ∧ ∀ r, next = .invoke r → f.Dispatches m m₁ r := by
  rw [Frame.execute, outcome_bind_ok (outcome_getFrame _)] at h
  cases hi : f.code.instructions[f.pc]? with
  | none =>
    simp only [hi] at h
    cases (outcome_throw _ _).symm.trans h
  | some i =>
    simp only [hi] at h
    have virtual {index : Nat}
        (hi : f.code.instructions[f.pc]? = some (.invokeVirtual index) ∨
          f.code.instructions[f.pc]? = some (.invokeInterface index))
        (h : outcome (FrameM.invokeVirtual index) (f, m) = (.ok next, f', m₁)) :
        f' = f ∧ ∀ r, next = .invoke r → f.Dispatches m m₁ r := by
      obtain ⟨resolved, n, o, object, hf, hr, hs, hn, ho, hobject, hc, rfl⟩ :=
        FrameM.invokeVirtual_ok h
      refine ⟨hf, fun r e => ?_⟩
      cases e
      exact .virtual hi hr hs hn ho hobject hc
    have plain {i : Instruction}
        (h : outcome (FrameM.execute host id i) (f, m) = (.ok next, f', m₁))
        (hn : i.needsClass = false) (hv : ∀ index, i ≠ .invokeVirtual index)
        (hi : ∀ index, i ≠ .invokeInterface index) (hs : ∀ index, i ≠ .invokeSpecial index)
        (he : i ≠ .monitorEnter) : f' = f ∧ ∀ r, next = .invoke r → f.Dispatches m m₁ r := by
      have hp := FrameM.execute_plain hn hv hi hs he _ _ _ h
      rw [Next.isPlain.not_leavesFrame hp] at hl
      cases hl
    by_cases hn : i.needsClass = true
    · by_cases hs : ∃ index, i = .invokeStatic index
      · obtain ⟨index, rfl⟩ := hs
        obtain ⟨hf, hs⟩ := FrameM.invokeStatic_ok h
        exact ⟨hf, fun r e => .static hi (hs r e)⟩
      · obtain ⟨hf, hr⟩ := FrameM.needsClass_same hn (fun index e => hs ⟨index, e⟩) h hl
        exact ⟨hf, fun r e => absurd e (hr r)⟩
    · cases i with
      | invokeVirtual index => exact virtual (.inl hi) h
      | invokeInterface index => exact virtual (.inr hi) h
      | invokeSpecial index =>
        obtain ⟨resolved, n, o, hf, hr, hn, ho, rfl⟩ := FrameM.invokeSpecial_ok h
        refine ⟨hf, fun r e => ?_⟩
        cases e
        exact .special hi hr hn ho
      | monitorEnter =>
        have hm := FrameM.monitorEnter_spec id f m
        rw [show FrameM.monitorEnter id = FrameM.execute host id .monitorEnter from rfl, h] at hm
        cases hm with
        | busy => exact ⟨rfl, by simp⟩
        | entered => cases hl
      | getStatic | putStatic | invokeStatic | new => exact absurd rfl hn
      | _ => exact plain h rfl (by simp) (by simp) (by simp) (by simp)

theorem execute_same (h : outcome (Frame.execute host id) (f, m) = (.ok next, f', m₁))
    (hl : next.leavesFrame = true) : f' = f := (execute_leavesFrame h hl).1

/-- An instruction that calls a method came to it in one of the known ways. -/
theorem execute_dispatches
    (h : outcome (Frame.execute host id) (f, m) = (.ok (.invoke r), f', m₁)) :
    f.Dispatches m m₁ r := (execute_leavesFrame h rfl).2 r rfl

end Frame

end GreenVm
