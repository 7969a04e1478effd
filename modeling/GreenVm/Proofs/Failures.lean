/-
  What work fails with.

  * `FailsWith P x`: wherever `x` starts, it succeeds or fails with a fault that `P` holds of, and of
    the state that it leaves.
  * `OnlyAborts x`: this fault is an engine error.
  * `FailsFrom I P x`: `FailsWith P x` wherever `I` holds.
  * `ThrowsWithin R x`: whenever `x` fails with a throwable, it has stayed within `R`.  Work that
    checks all it has to check before it changes anything is of this kind, though what it changes in
    the end is not within `R`.
-/
import GreenVm.Proofs.Quiet.Instructions

namespace GreenVm

/-- The fault is an engine error. -/
def Fault.IsFatal (f : Fault) : Prop := ∃ e, f = .fatal e

/-- What is lifted from work that only knows engine errors is one. -/
theorem Fault.isFatal_of_lift {α : Type} {x : Except EngineError α} {f : Fault}
    (h : (liftM x : Except Fault α) = .error f) : f.IsFatal := by
  cases x with
  | ok a => cases h
  | error e => cases h; exact ⟨e, rfl⟩

/-- The throwable that work has failed with. -/
def thrownBy {α : Type} : Except Fault α → Option Throwable
  | .error (.thrown t) => some t
  | _ => none

theorem thrownBy_eq_some {α : Type} {x : Except Fault α} {t : Throwable} :
    thrownBy x = some t ↔ x = .error (.thrown t) := by
  rcases x with (t' | e) | a <;> simp [thrownBy]

section Rules

variable {M : Type → Type} {σ : Type} [Monad M] [MonadExceptOf Fault M]
  [MonadLiftT (Except Fault) M] [Work M σ] {α β : Type}

/-- Wherever the work starts, it succeeds or fails with a fault of some kind, which may depend on the
    state that it leaves. -/
def FailsWith (P : Fault → σ → Prop) (x : M α) : Prop :=
  ∀ s f s', outcome x s = (.error f, s') → P f s'

namespace FailsWith

variable {P Q : Fault → σ → Prop} {x : M α} {g : α → M β}

theorem pure (a : α) : FailsWith P (pure a : M α) := fun s f s' h => by
  cases (outcome_pure a s).symm.trans h

theorem throw {e : Fault} (h : ∀ s, P e s) : FailsWith P (throw e : M α) := fun s f s' hf => by
  cases (outcome_throw e s).symm.trans hf
  exact h s

theorem liftExcept {r : Except Fault α} (h : ∀ e, r = .error e → ∀ s, P e s) :
    FailsWith P (liftM r : M α) := fun s f s' hf => by
  cases (outcome_liftExcept r s).symm.trans hf
  exact h f rfl s

theorem bind (hx : FailsWith P x) (hg : ∀ a, FailsWith P (g a)) : FailsWith P (x >>= g) := by
  intro s f s' h
  rcases outcome_bind_cases x g s with ⟨e, s₁, h₁, h₂⟩ | ⟨a, s₁, -, h₂⟩
  · cases h₂.symm.trans h
    exact hx s f s' h₁
  · exact hg a s₁ f s' (h₂.symm.trans h)

theorem map {k : α → β} (hx : FailsWith P x) : FailsWith P (k <$> x) := fun s f s' h => by
  rw [outcome_map] at h
  obtain ⟨hf, rfl⟩ := Prod.mk.inj h
  rcases ho : outcome x s with ⟨e | a, s₁⟩ <;> rw [ho] at hf <;> cases hf
  exact hx s f s₁ ho

theorem discard (hx : FailsWith P x) : FailsWith P (discard x) := fun s f s' h => by
  rw [outcome_discard] at h
  obtain ⟨hf, rfl⟩ := Prod.mk.inj h
  rcases ho : outcome x s with ⟨e | a, s₁⟩ <;> rw [ho] at hf <;> cases hf
  exact hx s f s₁ ho

theorem mono (hx : FailsWith P x) (h : ∀ f s, P f s → Q f s) : FailsWith Q x :=
  fun s f s' hf => h f s' (hx s f s' hf)

theorem forM {γ : Type} {k : γ → M PUnit} (h : ∀ c, FailsWith P (k c)) :
    ∀ {l : List γ}, FailsWith P (l.forM k)
  | [] => by simpa using pure _
  | c :: l => by simpa using (h c).bind fun _ => forM h

theorem mapM [LawfulMonad M] {γ : Type} {k : γ → M α} (h : ∀ c, FailsWith P (k c)) :
    ∀ {l : List γ}, FailsWith P (l.mapM k)
  | [] => by simpa using pure _
  | c :: l => by
    rw [List.mapM_cons]
    exact (h c).bind fun _ => (mapM h).bind fun _ => .pure _

theorem forIn {γ δ : Type} {k : γ → δ → M (ForInStep δ)} (h : ∀ c d, FailsWith P (k c d)) :
    ∀ {l : List γ} {d : δ}, FailsWith P (forIn l d k)
  | [], d => by simpa using pure d
  | c :: l, d => by
    rw [List.forIn_cons]
    refine (h c d).bind fun r => ?_
    cases r with
    | done d' => exact .pure d'
    | yield d' => exact forIn h

end FailsWith

/-- The work fails with nothing but engine errors. -/
abbrev OnlyAborts (x : M α) : Prop := FailsWith (fun f _ => f.IsFatal) x

/-- Started where a condition holds, the work succeeds or fails with a fault of some kind. -/
def FailsFrom (I : σ → Prop) (P : Fault → σ → Prop) (x : M α) : Prop :=
  ∀ s f s', I s → outcome x s = (.error f, s') → P f s'

namespace FailsFrom

variable {I : σ → Prop} {P : Fault → σ → Prop} {x : M α} {g : α → M β}

theorem of_failsWith (hx : FailsWith P x) : FailsFrom I P x := fun s f s' _ => hx s f s'

theorem weaken {J : σ → Prop} (h : ∀ s, I s → J s) (hx : FailsFrom J P x) : FailsFrom I P x :=
  fun s f s' hs => hx s f s' (h s hs)

/-- What the condition says regardless of the state may be assumed. -/
theorem assume {p : Prop} (h : ∀ s, I s → p) (hx : p → FailsFrom I P x) : FailsFrom I P x :=
  fun s f s' hs => hx (h s hs) s f s' hs

theorem pure (a : α) : FailsFrom I P (pure a : M α) := .of_failsWith (.pure a)

theorem throw {e : Fault} (h : ∀ s, I s → P e s) : FailsFrom I P (throw e : M α) :=
  fun s f s' hs hf => by
    cases (outcome_throw e s).symm.trans hf
    exact h s hs

/-- What comes after starts where the condition holds that was kept. -/
theorem bind (hi : ∀ s, I s → I (outcome x s).2) (hx : FailsFrom I P x)
    (hg : ∀ a, FailsFrom I P (g a)) : FailsFrom I P (x >>= g) := by
  intro s f s' hs h
  rcases outcome_bind_cases x g s with ⟨e, s₁, h₁, h₂⟩ | ⟨a, s₁, h₁, h₂⟩
  · cases h₂.symm.trans h
    exact hx s f s' hs h₁
  · have hi := hi s hs
    rw [h₁] at hi
    exact hg a s₁ f s' hi (h₂.symm.trans h)

end FailsFrom

/-- Whenever the work fails with a throwable, it ends in a state that stands in a relation to the
    first one. -/
def ThrowsWithin (R : σ → σ → Prop) (x : M α) : Prop :=
  ∀ s t s', outcome x s = (.error (.thrown t), s') → R s s'

namespace ThrowsWithin

variable {R : σ → σ → Prop} {x : M α} {g : α → M β}

theorem of_within (h : Within R x) : ThrowsWithin R x := fun _ _ _ ho => h.of_eq ho

theorem of_fatal (h : OnlyAborts x) : ThrowsWithin R x := fun s t s' ho => by
  obtain ⟨e, he⟩ := h s _ s' ho
  cases he

/-- What comes before stays within the relation, whatever becomes of it. -/
theorem bind [IsTrans σ R] (hx : Within R x) (hg : ∀ a, ThrowsWithin R (g a)) :
    ThrowsWithin R (x >>= g) := by
  intro s t s' h
  rcases outcome_bind_cases x g s with ⟨e, s₁, h₁, h₂⟩ | ⟨a, s₁, h₁, h₂⟩
  · cases h₂.symm.trans h
    exact hx.of_eq h₁
  · exact trans_of R (hx.of_eq h₁) (hg a s₁ t s' (h₂.symm.trans h))

/-- What comes after throws nothing. -/
theorem then_fatal (hx : ThrowsWithin R x) (hg : ∀ a, OnlyAborts (g a)) :
    ThrowsWithin R (x >>= g) := by
  intro s t s' h
  rcases outcome_bind_cases x g s with ⟨e, s₁, h₁, h₂⟩ | ⟨a, s₁, -, h₂⟩
  · cases h₂.symm.trans h
    exact hx s t s' h₁
  · obtain ⟨e, he⟩ := hg a s₁ _ s' (h₂.symm.trans h)
    cases he

end ThrowsWithin

end Rules

/-! ## Work on a machine -/

namespace Exec

variable {P : Fault → Machine → Prop} {α : Type}

theorem get_failsWith : FailsWith P (get : Exec Machine) := fun _ _ _ h => by cases h

theorem modify_failsWith {g : Machine → Machine} : FailsWith P (modify g : Exec Unit) :=
  fun _ _ _ h => by cases h

theorem modifyGet_failsWith {g : Machine → α × Machine} : FailsWith P (modifyGet g : Exec α) :=
  fun _ _ _ h => by cases h

/-- What comes after an attempt may know what it failed with. -/
theorem attempt_bind_failsFrom {I : Machine → Prop} {Q : Fault → Machine → Prop} {β : Type}
    {x : Exec α} {g : Except Fault α → Exec β} (hi : ∀ m, I m → I (outcome x m).2)
    (hx : FailsFrom I Q x)
    (hg : ∀ r, FailsFrom (fun m => I m ∧ ∀ f, r = .error f → Q f m) P (g r)) :
    FailsFrom I P (attempt x >>= g) := fun m f m' hm h => by
  rw [outcome_bind_ok (outcome_attempt x m)] at h
  exact hg _ _ f m' ⟨hi m hm, fun e he => hx m e _ hm (Prod.ext he rfl)⟩ h

theorem updateObject_failsWith {r : Ref} {g : Object → Object} :
    FailsWith P (updateObject r g) := modify_failsWith

theorem request_failsWith {g : Requests → Requests} : FailsWith P (request g) := modify_failsWith

theorem setClassState_failsWith {c : Class} {s : ClassState} :
    FailsWith P (setClassState c s) := modify_failsWith

theorem classState_failsWith {c : Class} : FailsWith P (classState c) :=
  get_failsWith.bind fun _ => .pure _

theorem setInit_failsWith {c : Class} {init : InitState} : FailsWith P (setInit c init) :=
  classState_failsWith.bind fun _ => setClassState_failsWith

theorem getStatic_failsWith {c : Class} {index : Nat} : FailsWith P (getStatic c index) :=
  classState_failsWith.bind fun _ => .pure _

theorem setStatic_failsWith {c : Class} {index : Nat} {v : Value} :
    FailsWith P (setStatic c index v) :=
  classState_failsWith.bind fun _ => setClassState_failsWith

/-- An operation on a monitor that is refused changes nothing. -/
theorem withMonitor_throwsWithin {R : Machine → Machine → Prop} [Std.Refl R] {r : Ref}
    {g : Monitor → Except Fault (α × Monitor)} : ThrowsWithin R (withMonitor r g) := by
  intro m t m' h
  rcases withMonitor_cases r g m with ⟨e, he⟩ | ⟨o, a, monitor, -, -, he⟩ <;> cases he.symm.trans h
  exact refl_of R m

/-- A store that is refused changes nothing. -/
theorem arrayStore_throwsWithin {R : Machine → Machine → Prop} [Std.Refl R] [IsTrans Machine R]
    {r : Ref} {index : Int32} {v : Value} : ThrowsWithin R (arrayStore r index v) := by
  refine .bind (fun m => ?_) fun o => .bind (.liftExcept _) fun place =>
    .of_fatal updateObject_failsWith
  rcases object_cases r m with ⟨-, e⟩ | ⟨o, -, e⟩ <;> rw [e] <;> exact refl_of R m

end Exec

/-! ## Work on a frame -/

namespace FrameM

variable {P : Fault → Frame × Machine → Prop} {α β : Type} {index : Nat} {v : Value}

theorem lift_failsWith {x : Exec α} (h : ∀ frame, FailsWith (fun f m => P f (frame, m)) x) :
    FailsWith P (liftM x : FrameM α) := by
  intro s f s' ho
  rw [outcome_liftFrame] at ho
  obtain ⟨hf, rfl⟩ := Prod.mk.inj ho
  exact h s.1 s.2 f _ (Prod.ext hf rfl)

theorem lift_failsFrom {I : Frame × Machine → Prop} {x : Exec α}
    (h : ∀ frame, FailsFrom (fun m => I (frame, m)) (fun f m => P f (frame, m)) x) :
    FailsFrom I P (liftM x : FrameM α) := fun s f s' hs ho => by
  rw [outcome_liftFrame] at ho
  obtain ⟨hf, rfl⟩ := Prod.mk.inj ho
  exact h s.1 s.2 f _ hs (Prod.ext hf rfl)

theorem lift_throwsWithin {R : Machine → Machine → Prop} {x : Exec α} (h : ThrowsWithin R x) :
    ThrowsWithin (OnFrame R) (liftM x : FrameM α) := by
  intro s t s' ho
  rw [outcome_liftFrame] at ho
  obtain ⟨ht, rfl⟩ := Prod.mk.inj ho
  exact ⟨.refl s.1, h s.2 t _ (Prod.ext ht rfl)⟩

theorem getFrame_failsWith : FailsWith P (getThe Frame : FrameM Frame) := fun _ _ _ h => by cases h

theorem modifyFrame_failsWith {g : Frame → Frame} : FailsWith P (modifyThe Frame g : FrameM Unit) :=
  fun _ _ _ h => by cases h

theorem onStack_fatal {g : OperandStack → Except EngineError OperandStack} :
    OnlyAborts (onStack g) :=
  getFrame_failsWith.bind fun _ => .bind (.liftExcept fun _ h _ => Fault.isFatal_of_lift h) fun _ =>
    modifyFrame_failsWith

theorem takeOff_fatal {g : OperandStack → Except EngineError (α × OperandStack)} :
    OnlyAborts (takeOff g) :=
  getFrame_failsWith.bind fun _ => .bind (.liftExcept fun _ h _ => Fault.isFatal_of_lift h) fun _ =>
    modifyFrame_failsWith.bind fun _ => .pure _

theorem push_fatal : OnlyAborts (push v) := onStack_fatal

theorem pop_fatal : OnlyAborts pop := takeOff_fatal

end FrameM

end GreenVm
