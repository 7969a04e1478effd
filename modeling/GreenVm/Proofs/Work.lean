/-
  Reasoning about work that changes a state and may fail.

  * `Work`: the monads of machines, frames and threads, seen alike: work started in a state has an
    outcome, which is a result and the state that is left.
  * `Within R x`: wherever `x` starts, and whatever comes of it, it ends in a state that stands in
    relation `R` to the first one.
  * `Leads P x Q E`: started where `P` holds, `x` ends where `Q` holds of its answer, or fails where
    `E` holds.
-/
import GreenVm.Thread.Step
import Mathlib.Order.Defs.Unbundled
import Mathlib.Tactic.Common

namespace GreenVm

/-! ## Results -/

theorem except_bind_eq_ok {ε α β : Type} {x : Except ε α} {f : α → Except ε β} {b : β} :
    x >>= f = .ok b ↔ ∃ a, x = .ok a ∧ f a = .ok b := by
  cases x <;> simp [bind, Except.bind]

theorem except_map_eq_ok {α β : Type} {x : Except Fault α} {f : α → β} {b : β} :
    x.map f = .ok b ↔ ∃ a, x = .ok a ∧ f a = b := by
  cases x <;> simp [Except.map]

theorem except_any_toOption {ε α : Type} {x : Except ε α} {P : α → Bool} :
    x.toOption.any P ↔ ∃ a, x = .ok a ∧ P a := by
  cases x <;> simp [Except.toOption]

theorem liftM_eq_ok {α : Type} {x : Except EngineError α} {a : α} :
    (liftM x : Except Fault α) = .ok a ↔ x = .ok a := by
  cases x <;> simp [liftM, monadLift, MonadLift.monadLift, Except.mapError]

/-! ## Outcomes -/

/-- Goes on with the answer of some work, unless the work failed. -/
def followedBy {σ α β : Type} (f : α → σ → Except Fault β × σ) :
    Except Fault α × σ → Except Fault β × σ
  | (.ok a, s) => f a s
  | (.error e, s) => (.error e, s)

/-- A monad of work on a state of which a failure undoes nothing. -/
class Work (M : Type → Type) (σ : outParam Type) [Monad M] [MonadExceptOf Fault M]
    [MonadLiftT (Except Fault) M] where
  outcome : {α : Type} → M α → σ → Except Fault α × σ
  outcome_pure : ∀ {α : Type} (a : α) (s : σ), outcome (pure a) s = (.ok a, s)
  outcome_throw : ∀ {α : Type} (e : Fault) (s : σ), outcome (throw e : M α) s = (.error e, s)
  outcome_bind : ∀ {α β : Type} (x : M α) (f : α → M β) (s : σ),
    outcome (x >>= f) s = followedBy (fun a => outcome (f a)) (outcome x s)
  outcome_map : ∀ {α β : Type} (f : α → β) (x : M α) (s : σ),
    outcome (f <$> x) s = ((outcome x s).1.map f, (outcome x s).2)
  outcome_discard : ∀ {α : Type} (x : M α) (s : σ),
    outcome (discard x) s = ((outcome x s).1.map fun _ => .unit, (outcome x s).2)
  outcome_liftExcept : ∀ {α : Type} (x : Except Fault α) (s : σ), outcome (liftM x : M α) s = (x, s)

export Work (outcome outcome_pure outcome_throw outcome_bind outcome_map outcome_discard
  outcome_liftExcept)

attribute [simp] outcome_pure outcome_throw outcome_liftExcept

section Instances

variable {S : Type}

instance : Work (ExceptT Fault (StateM S)) S where
  outcome x s := x.run s
  outcome_pure _ _ := rfl
  outcome_throw _ _ := rfl
  outcome_bind x f s := by
    simp only [ExceptT.run, bind, ExceptT.bind, ExceptT.mk, StateT.bind]
    rcases x s with ⟨_ | _, _⟩ <;> rfl
  outcome_map f x s := by
    simp only [ExceptT.run, Functor.map, ExceptT.map, ExceptT.mk, bind, StateT.bind]
    rcases x s with ⟨_ | _, _⟩ <;> rfl
  outcome_discard x s := by
    simp only [discard, Functor.discard, Functor.mapConst, Function.comp_apply, Function.const_def,
      ExceptT.run, ExceptT.map, ExceptT.mk, bind, StateT.bind]
    rcases x s with ⟨_ | _, _⟩ <;> rfl
  outcome_liftExcept _ _ := rfl

/-- Work on a part of a thread and on the machine. -/
instance : Work (ExceptT Fault (StateT S (StateM Machine))) (S × Machine) where
  outcome x s :=
    let ((r, t), m) := (x.run.run s.1).run s.2
    (r, t, m)
  outcome_pure _ _ := rfl
  outcome_throw _ _ := rfl
  outcome_bind x f s := by
    simp only [ExceptT.run, StateT.run, bind, ExceptT.bind, ExceptT.mk, StateT.bind]
    rcases x s.1 s.2 with ⟨⟨_ | _, _⟩, _⟩ <;> rfl
  outcome_map f x s := by
    simp only [ExceptT.run, StateT.run, Functor.map, ExceptT.map, ExceptT.mk, bind, StateT.bind]
    rcases x s.1 s.2 with ⟨⟨_ | _, _⟩, _⟩ <;> rfl
  outcome_discard x s := by
    simp only [discard, Functor.discard, Functor.mapConst, Function.comp_apply, Function.const_def,
      ExceptT.run, StateT.run, ExceptT.map, ExceptT.mk, bind, StateT.bind]
    rcases x s.1 s.2 with ⟨⟨_ | _, _⟩, _⟩ <;> rfl
  outcome_liftExcept _ _ := rfl

end Instances

section Laws

variable {M : Type → Type} {σ : Type} [Monad M] [MonadExceptOf Fault M]
  [MonadLiftT (Except Fault) M] [Work M σ] {α β : Type} {x : M α} {f : α → M β} {s s' : σ}

/-- Work that has an answer goes on with it. -/
theorem outcome_bind_ok {a : α} (h : outcome x s = (.ok a, s')) :
    outcome (x >>= f) s = outcome (f a) s' := by
  rw [outcome_bind, h]; rfl

/-- Work that has failed does not go on. -/
theorem outcome_bind_error {e : Fault} (h : outcome x s = (.error e, s')) :
    outcome (x >>= f) s = (.error e, s') := by
  rw [outcome_bind, h]; rfl

/-- Every outcome of two pieces of work is a failure of the first or an outcome of the second. -/
theorem outcome_bind_cases (x : M α) (f : α → M β) (s : σ) :
    (∃ e s', outcome x s = (.error e, s') ∧ outcome (x >>= f) s = (.error e, s')) ∨
      ∃ a s', outcome x s = (.ok a, s') ∧ outcome (x >>= f) s = outcome (f a) s' := by
  rcases h : outcome x s with ⟨e | a, s'⟩
  · exact .inl ⟨e, s', rfl, outcome_bind_error h⟩
  · exact .inr ⟨a, s', rfl, outcome_bind_ok h⟩

/-- An answer of two pieces of work comes from an answer of each. -/
theorem outcome_bind_eq_ok {b : β} (h : outcome (x >>= f) s = (.ok b, s')) :
    ∃ a s₁, outcome x s = (.ok a, s₁) ∧ outcome (f a) s₁ = (.ok b, s') := by
  rcases outcome_bind_cases x f s with ⟨e, s₁, -, h'⟩ | ⟨a, s₁, hx, h'⟩
  · cases h.symm.trans h'
  · exact ⟨a, s₁, hx, h'.symm.trans h⟩

/-- If every round of a loop over the numbers below a bound succeeds, and takes what holds of the state
    to what is to hold after it, then the loop does. -/
theorem exists_outcome_forM_range {g : Nat → M PUnit} {I : Nat → σ → Prop} {n : Nat}
    (round : ∀ i s, i < n → I i s → ∃ s', outcome (g i) s = (.ok ⟨⟩, s') ∧ I (i + 1) s')
    (h : I 0 s) : ∃ s', outcome ((List.range n).forM g) s = (.ok ⟨⟩, s') ∧ I n s' := by
  -- induction on the number of rounds that are left
  have rest (k : Nat) : ∀ i s, i + k = n → I i s →
      ∃ s', outcome ((List.range' i k).forM g) s = (.ok ⟨⟩, s') ∧ I n s' := by
    induction k with
    | zero => exact fun i s hi h => ⟨s, outcome_pure _ s, hi ▸ h⟩
    | succ k ih =>
      intro i s hi h
      obtain ⟨s₁, hs₁, h₁⟩ := round i s (by omega) h
      obtain ⟨s', hs', h'⟩ := ih (i + 1) s₁ (by omega) h₁
      refine ⟨s', ?_, h'⟩
      rw [List.range'_succ]
      exact (outcome_bind_ok hs₁).trans hs'
  rw [List.range_eq_range']
  exact rest n 0 s (Nat.zero_add n) h

end Laws

/-! ## Reading and changing states -/

section States

variable {α S : Type}

@[simp] theorem outcome_get (m : Machine) : outcome (get : Exec Machine) m = (.ok m, m) := rfl

@[simp] theorem outcome_modify (f : Machine → Machine) (m : Machine) :
    outcome (modify f : Exec Unit) m = (.ok (), f m) := rfl

@[simp] theorem outcome_modifyGet (f : Machine → α × Machine) (m : Machine) :
    outcome (modifyGet f : Exec α) m = (.ok (f m).1, (f m).2) := rfl

theorem outcome_attempt (x : Exec α) (m : Machine) :
    outcome (Exec.attempt x) m = (.ok (outcome x m).1, (outcome x m).2) := rfl

@[simp] theorem outcome_getFrame (s : Frame × Machine) :
    outcome (getThe Frame : FrameM Frame) s = (.ok s.1, s) := rfl

@[simp] theorem outcome_modifyFrame (f : Frame → Frame) (s : Frame × Machine) :
    outcome (modifyThe Frame f : FrameM Unit) s = (.ok (), f s.1, s.2) := rfl

theorem outcome_liftFrame (x : Exec α) (s : Frame × Machine) :
    outcome (liftM x : FrameM α) s = ((outcome x s.2).1, s.1, (outcome x s.2).2) := rfl

@[simp] theorem outcome_getThread (s : Thread × Machine) :
    outcome (getThe Thread : ThreadM Thread) s = (.ok s.1, s) := rfl

@[simp] theorem outcome_modifyThread (f : Thread → Thread) (s : Thread × Machine) :
    outcome (modifyThe Thread f : ThreadM Unit) s = (.ok (), f s.1, s.2) := rfl

theorem outcome_liftThread (x : Exec α) (s : Thread × Machine) :
    outcome (liftM x : ThreadM α) s = ((outcome x s.2).1, s.1, (outcome x s.2).2) := rfl

section Lifted

variable {β : Type} {x : Exec α} {f : α → FrameM β} {g : α → ThreadM β}
  {m m' : Machine} {a : α} {e : Fault} {frame : Frame} {t : Thread}

theorem outcome_frame_bind_ok (h : outcome x m = (.ok a, m')) :
    outcome ((liftM x : FrameM α) >>= f) (frame, m) = outcome (f a) (frame, m') := by
  rw [outcome_bind, outcome_liftFrame, h]; rfl

theorem outcome_frame_bind_error (h : outcome x m = (.error e, m')) :
    outcome ((liftM x : FrameM α) >>= f) (frame, m) = (.error e, frame, m') := by
  rw [outcome_bind, outcome_liftFrame, h]; rfl

/-- An answer comes from an answer of the work on the machine. -/
theorem outcome_frame_bind_eq_ok {b : β} {s : Frame × Machine}
    (h : outcome ((liftM x : FrameM α) >>= f) (frame, m) = (.ok b, s)) :
    ∃ a m₁, outcome x m = (.ok a, m₁) ∧ outcome (f a) (frame, m₁) = (.ok b, s) := by
  rcases hx : outcome x m with ⟨e | a, m₁⟩
  · cases (outcome_frame_bind_error hx).symm.trans h
  · exact ⟨a, m₁, rfl, (outcome_frame_bind_ok hx).symm.trans h⟩

theorem outcome_thread_bind_ok (h : outcome x m = (.ok a, m')) :
    outcome ((liftM x : ThreadM α) >>= g) (t, m) = outcome (g a) (t, m') := by
  rw [outcome_bind, outcome_liftThread, h]; rfl

theorem outcome_thread_bind_error (h : outcome x m = (.error e, m')) :
    outcome ((liftM x : ThreadM α) >>= g) (t, m) = (.error e, t, m') := by
  rw [outcome_bind, outcome_liftThread, h]; rfl

theorem outcome_engine_bind_ok :
    outcome ((liftM (.ok a : Except EngineError α) : ThreadM α) >>= g) (t, m) =
      outcome (g a) (t, m) := rfl

theorem outcome_engine_bind_error {e : EngineError} :
    outcome ((liftM (.error e : Except EngineError α) : ThreadM α) >>= g) (t, m) =
      (.error (.fatal e), t, m) := rfl

end Lifted

/-- Handling faults. -/
theorem outcome_tryCatch (x : ThreadM α) (h : Fault → ThreadM α) (s : Thread × Machine) :
    outcome (tryCatch x h) s =
      match outcome x s with
      | (.ok a, s') => (.ok a, s')
      | (.error e, s') => outcome (h e) s' := by
  simp only [tryCatch, tryCatchThe, MonadExceptOf.tryCatch, ExceptT.tryCatch, outcome, ExceptT.run,
    ExceptT.mk, StateT.run, bind, StateT.bind]
  rcases x s.1 s.2 with ⟨⟨_ | _, _⟩, _⟩ <;> rfl

end States

/-- Work on the top frame. -/
theorem outcome_onTop {α : Type} (x : FrameM α) {t : Thread} {f : Frame} {rest : List Frame}
    (h : t.frames = f :: rest) (m : Machine) :
    outcome (ThreadM.onTop x) (t, m) =
      ((outcome x (f, m)).1, { t with frames := (outcome x (f, m)).2.1 :: rest },
        (outcome x (f, m)).2.2) := by
  have ht : t.takeTop = (some f, { t with frames := rest }) := by simp [Thread.takeTop, h]
  simp only [ThreadM.onTop, outcome, ExceptT.run, ExceptT.mk, StateT.run, ht]
  rfl

theorem outcome_topFrame {t : Thread} {f : Frame} {rest : List Frame} (h : t.frames = f :: rest)
    (m : Machine) : outcome ThreadM.topFrame (t, m) = (.ok f, t, m) := by
  rw [ThreadM.topFrame, outcome_bind_ok (outcome_getThread _)]
  simp only [h, outcome_pure]

section Rules

variable {M : Type → Type} {σ : Type} [Monad M] [MonadExceptOf Fault M]
  [MonadLiftT (Except Fault) M] [Work M σ] {α β : Type}

/-! ## Work within a relation -/

/-- Wherever the work starts, and whatever comes of it, it ends in a state that stands in a relation
    to the first one. -/
def Within (R : σ → σ → Prop) (x : M α) : Prop := ∀ s, R s (outcome x s).2

namespace Within

variable {R : σ → σ → Prop} {x : M α} {f : α → M β}

theorem pure [Std.Refl R] (a : α) : Within R (pure a : M α) := fun s => by
  rw [outcome_pure]; exact refl_of R s

theorem throw [Std.Refl R] (e : Fault) : Within R (throw e : M α) := fun s => by
  rw [outcome_throw]; exact refl_of R s

theorem liftExcept [Std.Refl R] (r : Except Fault α) : Within R (liftM r : M α) := fun s => by
  rw [outcome_liftExcept]; exact refl_of R s

theorem of_eq (hx : Within R x) {s s' : σ} {a : Except Fault α} (h : outcome x s = (a, s')) :
    R s s' := by
  have := hx s
  rwa [h] at this

/-- Going on with an answer, from a given state on. -/
theorem bind_at [IsTrans σ R] {s : σ} (hx : R s (outcome x s).2)
    (hf : ∀ a s', outcome x s = (.ok a, s') → R s' (outcome (f a) s').2) :
    R s (outcome (x >>= f) s).2 := by
  rcases outcome_bind_cases x f s with ⟨e, s', h₁, h₂⟩ | ⟨a, s', h₁, h₂⟩ <;>
    rw [h₁] at hx <;> rw [h₂]
  · exact hx
  · exact trans_of R hx (hf a s' h₁)

/-- Going on with the answer of what changes nothing, from a given state on. -/
theorem lift_bind [Std.Refl R] {y : Except Fault α} {s : σ}
    (hf : ∀ a, y = .ok a → R s (outcome (f a) s).2) :
    R s (outcome ((liftM y : M α) >>= f) s).2 := by
  cases y with
  | error e =>
    rw [outcome_bind_error (outcome_liftExcept _ _)]
    exact refl_of R s
  | ok a =>
    rw [outcome_bind_ok (outcome_liftExcept _ _)]
    exact hf a rfl

/-- Going on with an answer, knowing how it came about. -/
theorem bind_of [IsTrans σ R] (hx : Within R x)
    (hf : ∀ s a s', outcome x s = (.ok a, s') → R s' (outcome (f a) s').2) :
    Within R (x >>= f) := fun s => bind_at (hx s) (hf s)

theorem bind [IsTrans σ R] (hx : Within R x) (hf : ∀ a, Within R (f a)) : Within R (x >>= f) :=
  hx.bind_of fun _ a s' _ => hf a s'

theorem map (hx : Within R x) (f : α → β) : Within R (f <$> x) := fun s => by
  rw [outcome_map]; exact hx s

theorem discard (hx : Within R x) : Within R (discard x) := fun s => by
  rw [outcome_discard]; exact hx s

theorem mono {R' : σ → σ → Prop} (h : ∀ s s', R s s' → R' s s') (hx : Within R x) :
    Within R' x := fun s => h _ _ (hx s)

theorem forM [Std.Refl R] [IsTrans σ R] {γ : Type} {g : γ → M PUnit} :
    ∀ {l : List γ}, (∀ c ∈ l, Within R (g c)) → Within R (l.forM g)
  | [], _ => by simpa using Within.pure _
  | c :: l, h => by
    simpa using (h c (by simp)).bind fun _ => forM fun d hd => h d (by simp [hd])

theorem mapM [Std.Refl R] [IsTrans σ R] [LawfulMonad M] {γ : Type} {g : γ → M α}
    (h : ∀ c, Within R (g c)) : ∀ {l : List γ}, Within R (l.mapM g)
  | [] => by simpa using Within.pure _
  | c :: l => by
    rw [List.mapM_cons]
    exact (h c).bind fun _ => (mapM h).bind fun _ => .pure _

theorem forIn [Std.Refl R] [IsTrans σ R] {γ δ : Type} {g : γ → δ → M (ForInStep δ)}
    (h : ∀ c d, Within R (g c d)) : ∀ {l : List γ} {d : δ}, Within R (forIn l d g)
  | [], d => by simpa using Within.pure d
  | c :: l, d => by
    rw [List.forIn_cons]
    refine (h c d).bind fun r => ?_
    cases r with
    | done d' => exact .pure d'
    | yield d' => exact forIn h

end Within

/-! ## Work from one condition to another -/

/-- Started where `P` holds, the work ends where `Q` holds of its answer, or fails where `E`
    holds. -/
def Leads (P : σ → Prop) (x : M α) (Q : α → σ → Prop) (E : σ → Prop) : Prop :=
  ∀ s, P s → match outcome x s with
    | (.ok a, s') => Q a s'
    | (.error _, s') => E s'

namespace Leads

variable {P P' : σ → Prop} {Q Q' : α → σ → Prop} {E E' : σ → Prop} {x : M α} {f : α → M β}

theorem pure (a : α) (h : ∀ s, P s → Q a s) : Leads P (pure a : M α) Q E := fun s hs => by
  rw [outcome_pure]; exact h s hs

theorem throw (e : Fault) (h : ∀ s, P s → E s) : Leads P (throw e : M α) Q E := fun s hs => by
  rw [outcome_throw]; exact h s hs

theorem liftExcept (r : Except Fault α) (hq : ∀ a s, r = .ok a → P s → Q a s)
    (he : ∀ s, P s → E s) : Leads P (liftM r : M α) Q E := fun s hs => by
  rw [outcome_liftExcept]
  cases r with
  | ok a => exact hq a s rfl hs
  | error e => exact he s hs

theorem bind {T : β → σ → Prop} (hx : Leads P x Q E) (hf : ∀ a, Leads (Q a) (f a) T E) :
    Leads P (x >>= f) T E := by
  intro s hs
  have h := hx s hs
  rcases outcome_bind_cases x f s with ⟨e, s', h₁, h₂⟩ | ⟨a, s', h₁, h₂⟩
  · rw [h₁] at h
    rw [h₂]
    exact h
  · rw [h₁] at h
    rw [h₂]
    exact hf a s' h

/-- What comes after a failure is never reached. -/
theorem throw_bind {g : β → M α} (e : Fault) (h : ∀ s, P s → E s) :
    Leads P ((MonadExcept.throw e : M β) >>= g) Q E :=
  .bind (Q := fun _ _ => False) (.throw e h) fun _ _ => False.elim

theorem map {T : β → σ → Prop} {g : α → β} (h : Leads P x Q E) (ht : ∀ a s, Q a s → T (g a) s) :
    Leads P (g <$> x) T E := by
  intro s hs
  have := h s hs
  rw [outcome_map]
  split at this
  · next a s' e => rw [e]; exact ht a s' this
  · next e s' h => rw [h]; exact this

theorem discard {T : σ → Prop} (h : Leads P x (fun _ => T) E) :
    Leads P (discard x) (fun _ => T) E := by
  intro s hs
  have := h s hs
  rw [outcome_discard]
  split at this <;> next e => rw [e]; exact this

theorem ite {c : Prop} [Decidable c] {y : M α} (hx : Leads P x Q E) (hy : Leads P y Q E) :
    Leads P (if c then x else y) Q E := by
  split
  · exact hx
  · exact hy

theorem weaken (h : Leads P x Q E) (hp : ∀ s, P' s → P s) (hq : ∀ a s, Q a s → Q' a s)
    (he : ∀ s, E s → E' s) : Leads P' x Q' E' := by
  intro s hs
  have := h s (hp s hs)
  split at this
  · next a s' e => exact hq a s' this
  · next e s' _ => exact he s' this

/-- A weaker condition on failures. -/
theorem failing (h : Leads P x Q E) (he : ∀ s, E s → E' s) : Leads P x Q E' :=
  h.weaken (fun _ => id) (fun _ _ => id) he

/-- Work within a relation that `P` is closed under does no harm to `P`. -/
theorem of_within {R : σ → σ → Prop} (h : Within R x) (hr : ∀ s s', P s → R s s' → P s') :
    Leads P x (fun _ => P) P := by
  intro s hs
  have := hr s _ hs (h s)
  split <;> next e => rw [e] at this; exact this

/-- The state after the work, whatever came of it. -/
theorem outcome_snd (h : Leads P x (fun _ => E) E) {s : σ} (hs : P s) : E (outcome x s).2 := by
  have := h s hs
  split at this <;> next e => rw [e]; exact this

end Leads

end Rules

/-- Handling failures, from a given state on. -/
theorem Within.tryCatch_at {α : Type} {R : Thread × Machine → Thread × Machine → Prop}
    [IsTrans (Thread × Machine) R] {x : ThreadM α} {h : Fault → ThreadM α} {s : Thread × Machine}
    (hx : R s (outcome x s).2) (hh : ∀ e, Within R (h e)) : R s (outcome (tryCatch x h) s).2 := by
  rw [outcome_tryCatch]
  rcases ho : outcome x s with ⟨e | a, s'⟩ <;> rw [ho] at hx
  · exact trans_of R hx (hh e s')
  · exact hx

/-- A failure is handed to its handler, with the state it has left. -/
theorem Leads.tryCatch {α : Type} {P : Thread × Machine → Prop} {Q : α → Thread × Machine → Prop}
    {E E' : Thread × Machine → Prop} {x : ThreadM α} {h : Fault → ThreadM α} (hx : Leads P x Q E)
    (hh : ∀ e, Leads E (h e) Q E') : Leads P (tryCatch x h) Q E' := by
  intro s hs
  have := hx s hs
  rw [outcome_tryCatch]
  split at this
  · next a s' e => rw [e]; exact this
  · next e s' he => rw [he]; exact hh e s' this

end GreenVm
