/-
  The parts of a call: the lock it takes, the arguments it takes from the operand stack, and the
  frame in which it lays them out.
-/
import GreenVm.Proofs.Locks

namespace GreenVm

/-! ## Arguments and frames -/

theorem Value.asObject_eq_ok {v : Value} {r : Ref} (h : v.asObject = .ok r) : v = .ofRef r := by
  obtain ⟨o, ho, h⟩ := except_bind_eq_ok.1 h
  cases o with
  | none => cases h
  | some r' =>
    cases h
    cases v with
    | reference o => cases ho; rfl
    | _ => cases ho

/-- The value that lies beneath the other arguments is the first argument. -/
theorem OperandStack.popArgs_cons {s s' : OperandStack} {n : Nat} {args : List Value} {v : Value}
    (h : s.popArgs (n + 1) = .ok (args, s')) (hv : s.peek n = .ok v) : ∃ rest, args = v :: rest := by
  simp only [popArgs] at h
  split at h
  · cases h
  cases hg : s.values[n]? with
  | none => simp [peek, hg] at hv
  | some v' =>
    obtain rfl : v' = v := by simpa [peek, hg] using hv
    obtain ⟨rfl, -⟩ := Prod.mk.inj (Except.ok.inj h)
    rw [List.take_add_one, hg, Option.toList_some, List.reverse_append]
    exact ⟨_, rfl⟩

namespace Frame

/-- Values are laid out from a slot on, and leave the slots before it alone. -/
theorem layOut_before : ∀ {vs : List Value} {slot : Nat} {locals locals' : Array Value},
    layOut vs slot locals = .ok locals' → ∀ i < slot, locals'[i]? = locals[i]?
  | [], _, _, _, h, _, _ => by cases h; rfl
  | v :: vs, slot, locals, locals', h, i, hi => by
    rw [layOut] at h
    split at h
    · rw [layOut_before h i (by omega), Array.getElem?_setIfInBounds_ne (by omega)]
    · cases h

/-- The first argument is in the first local variable. -/
theorem layOut_first {v : Value} {vs : List Value} {locals locals' : Array Value}
    (h : layOut (v :: vs) 0 locals = .ok locals') : locals'[0]? = some v := by
  have hv : 1 ≤ v.slots := by unfold Value.slots; split <;> omega
  rw [layOut] at h
  split at h
  · rw [layOut_before h 0 (by omega)]
    exact Array.getElem?_setIfInBounds_self_of_lt (by omega)
  · cases h

variable {r : MethodRef} {args : List Value} {kind : FrameKind} {f : Frame}

/-- A frame that is entered has the method and the kind it was made for, and no monitors. -/
theorem enter_ok (h : Frame.enter r args kind = .ok f) :
    f.method = r ∧ f.kind = kind ∧ f.monitors = [] ∧
      ∃ locals, layOut args 0 locals = .ok f.locals := by
  unfold Frame.enter at h
  split at h
  · cases h
  · next code _ =>
    cases hl : layOut args 0 (Array.replicate code.maxLocals .top) with
    | error e => simp [hl, bind, Except.bind] at h
    | ok locals =>
      simp only [hl, bind, Except.bind, pure, Except.pure, Except.ok.injEq] at h
      subst h
      exact ⟨rfl, rfl, rfl, _, hl⟩

/-- The code of a frame that is entered is that of its method. -/
theorem enter_code (h : Frame.enter r args kind = .ok f) : r.method.code = some f.code := by
  unfold Frame.enter at h
  split at h
  · cases h
  · next code hcode =>
    cases hl : layOut args 0 (Array.replicate code.maxLocals .top) with
    | error e => simp [hl, bind, Except.bind] at h
    | ok locals =>
      simp only [hl, bind, Except.bind, pure, Except.pure, Except.ok.injEq] at h
      subst h
      exact hcode

end Frame

/-! ## Monitors of instructions -/

namespace FrameM

theorem outcome_peek (n : Nat) (s : Frame × Machine) :
    outcome (peek n) s = ((liftM (s.1.stack.peek n) : Except Fault Value), s) := by
  rw [peek, outcome_bind_ok (outcome_getFrame s)]
  exact outcome_liftExcept _ s

/-- What can be seen on top of the stack, and nothing else, can be taken off. -/
theorem pop_cases (f : Frame) (m : Machine) :
    (∃ e e', f.stack.peek 0 = .error e ∧ outcome pop (f, m) = (.error e', f, m)) ∨
      ∃ v stack, f.stack.peek 0 = .ok v ∧ outcome pop (f, m) = (.ok v, { f with stack }, m) := by
  rw [pop, takeOff, outcome_bind_ok (outcome_getFrame _)]
  cases hs : f.stack.values with
  | nil =>
    have hp : f.stack.pop = .error .stackUnderflow := by simp [OperandStack.pop, hs]
    rw [hp]
    exact .inl ⟨.stackUnderflow, _, by simp [OperandStack.peek, hs], rfl⟩
  | cons v vs =>
    have hp : f.stack.pop =
        .ok (v, { f.stack with values := vs, depth := f.stack.depth - v.slots }) := by
      simp [OperandStack.pop, hs]
    rw [hp]
    exact .inr ⟨v, _, by simp [OperandStack.peek, hs], rfl⟩

/-- What can come of entering the monitor of the object on top: the frame records it once it has
    been entered. -/
inductive EntersMonitor (id : ThreadId) (f : Frame) (m : Machine) :
    Except Fault Next × Frame × Machine → Prop
  | failed {e : Fault} : EntersMonitor id f m (.error e, f, m)
  | busy {r : Ref} {m' : Machine} (hp : f.stack.peek 0 = .ok (.ofRef r))
      (he : outcome (Exec.tryEnter r id 1) m = (.ok false, m')) :
    EntersMonitor id f m (.ok (.block r), f, m')
  | entered {r : Ref} {stack : OperandStack} {m' : Machine} (hp : f.stack.peek 0 = .ok (.ofRef r))
      (he : outcome (Exec.tryEnter r id 1) m = (.ok true, m')) :
    EntersMonitor id f m (.ok .advance, { f with stack, monitors := r :: f.monitors }, m')

theorem monitorEnter_spec (id : ThreadId) (f : Frame) (m : Machine) :
    EntersMonitor id f m (outcome (monitorEnter id) (f, m)) := by
  rw [monitorEnter]
  rcases outcome_bind_cases (peek 0) _ (f, m) with ⟨e, s₁, h₁, h₂⟩ | ⟨v, s₁, h₁, h₂⟩ <;>
    obtain ⟨hv, rfl⟩ := Prod.mk.inj ((outcome_peek 0 _).symm.trans h₁) <;> rw [h₂]
  · exact .failed
  rcases outcome_bind_cases (liftM v.asObject : FrameM Ref) _ (f, m) with ⟨e, s₁, h₁, h₂⟩ |
    ⟨r, s₁, h₁, h₂⟩ <;> obtain ⟨ho, rfl⟩ := Prod.mk.inj ((outcome_liftExcept _ _).symm.trans h₁) <;>
    rw [h₂]
  · exact .failed
  have hp : f.stack.peek 0 = .ok (.ofRef r) :=
    (liftM_eq_ok.1 hv).trans (congrArg Except.ok (Value.asObject_eq_ok ho))
  rcases he : outcome (Exec.tryEnter r id 1) m with ⟨e | b, m'⟩
  · cases (Exec.tryEnter_requests r id 1 m).2 e m' he
    rw [outcome_frame_bind_error he]
    exact .failed
  · rw [outcome_frame_bind_ok he]
    cases b with
    | false => exact .busy hp he
    | true =>
      obtain ⟨e, e', hp', -⟩ | ⟨v', stack, -, ho⟩ := pop_cases f m'
      · cases hp'.symm.trans hp
      have hd : outcome (discard pop) (f, m') = (.ok (), { f with stack }, m') := by
        rw [outcome_discard, ho]; rfl
      simp only [if_true]
      rw [outcome_bind_ok hd, outcome_bind_ok (outcome_modifyFrame _ _)]
      exact .entered hp he

/-- What can come of leaving the monitor of the object on top: one hold less, and one record less
    in the frame, if it has any. -/
inductive ExitsMonitor (id : ThreadId) (f : Frame) (m : Machine) :
    Except Fault Unit × Frame × Machine → Prop
  | failed {e : Fault} {stack : OperandStack} : ExitsMonitor id f m (.error e, { f with stack }, m)
  | exited {r : Ref} {stack : OperandStack} {m' : Machine} : f.stack.peek 0 = .ok (.ofRef r) →
    (m.Counted → m'.Counted) →
    (∀ u r', m'.holds u r' = m.holds u r' - if id = u ∧ r = r' then 1 else 0) →
    m'.requests.suspend = m.requests.suspend →
    ExitsMonitor id f m (.ok (), { f with stack, monitors := f.monitors.erase r }, m')

theorem monitorExit_spec (id : ThreadId) (f : Frame) (m : Machine) :
    ExitsMonitor id f m (outcome (monitorExit id) (f, m)) := by
  rw [monitorExit, popObject]
  obtain ⟨e, e', -, ho⟩ | ⟨v, stack, hp, ho⟩ := pop_cases f m
  · rw [outcome_bind_error (outcome_bind_error ho)]
    exact @ExitsMonitor.failed id f m _ f.stack
  cases hv : v.asObject with
  | error e =>
    have hr : outcome (do (← pop).asObject : FrameM Ref) (f, m) =
        (.error e, { f with stack }, m) := by
      rw [outcome_bind_ok ho, hv, outcome_liftExcept]
    rw [outcome_bind_error hr]
    exact .failed
  | ok r =>
    have hr : outcome (do (← pop).asObject : FrameM Ref) (f, m) = (.ok r, { f with stack }, m) := by
      rw [outcome_bind_ok ho, hv, outcome_liftExcept]
    rw [outcome_bind_ok hr]
    rcases Exec.withMonitor_cases r (·.exit id) m with ⟨e, he⟩ | ⟨o, p, monitor, hm, hx, he⟩
    · rw [outcome_frame_bind_error he]
      exact .failed
    · rw [outcome_frame_bind_ok he]
      have hmo := Machine.monitorAt_eq hm
      refine .exited (hp.trans (congrArg Except.ok (Value.asObject_eq_ok hv)))
        (fun hc => hc.withNewMonitor hm (Monitor.Counted.exit hx)) (fun u r' => ?_) rfl
      show (Exec.withNewMonitor m r o monitor).holds u r' = _
      simp only [Machine.holds, Machine.monitorAt_withNewMonitor hm]
      by_cases e : r = r'
      · subst e
        rw [if_pos rfl, Monitor.exit_holds hx u, hmo]
        simp
      · simp [e]

end FrameM

/-! ## Locks of calls -/

/-- The object that stands for a class is the same from then on. -/
theorem Exec.classObject_ok {c : Class} {r : Ref} {m m' : Machine}
    (h : outcome (classObject c) m = (.ok r, m')) : m'.classObjects.get? c.name = some r := by
  obtain ⟨cls, m₁, -, h⟩ := outcome_bind_eq_ok h
  rw [outcome_bind_ok (outcome_get m₁)] at h
  split at h
  · next r' hr =>
    cases (outcome_pure _ _).symm.trans h
    exact hr
  · obtain ⟨r', m₂, -, h⟩ := outcome_bind_eq_ok h
    rw [outcome_bind_ok (outcome_modify _ _)] at h
    cases (outcome_pure _ _).symm.trans h
    simp

theorem Exec.tryEnter_classObjects {l : Ref} {t : ThreadId} {n : Nat} {b : Bool} {m m' : Machine}
    (h : outcome (tryEnter l t n) m = (.ok b, m')) : m'.classObjects = m.classObjects := by
  rcases withMonitor_cases l (fun m => .ok (m.tryEnter t n)) m with ⟨e, he⟩ | ⟨o, a, monitor, -, -,
    he⟩
  · cases h.symm.trans he
  · cases h.symm.trans he
    rfl

/-- The lock of a call: the object of the class, or the receiver, which lies on the operand stack
    beneath the other arguments. -/
structure MethodRef.LockIs (r : MethodRef) (f : Frame) (m : Machine) (lock : Ref) : Prop where
  static : r.method.isStatic = true → m.classObjects.get? r.owner.name = some lock
  receiver : r.method.isStatic = false →
    f.stack.peek (r.method.argumentCount - 1) = .ok (.ofRef lock)

namespace ThreadM

theorem outcome_threadId (s : Thread × Machine) : outcome threadId s = (.ok s.1.id, s) := rfl

/-- Releasing monitors one after another, by what releasing one of them does. -/
theorem releaseAll_rule {P : List Ref → Thread × Machine → Prop} {id : ThreadId}
    (hid : ∀ rs s, P rs s → s.1.id = id)
    (h : ∀ r rs, Leads (P (r :: rs)) (liftM (Exec.release id r) : ThreadM Unit) (fun _ => P rs)
      fun _ => False) (rs : List Ref) :
    Leads (P rs) (releaseAll rs) (fun _ => P []) (fun _ => False) := by
  have all : Leads (P rs) (rs.forM fun r => (liftM (Exec.release id r) : ThreadM Unit))
      (fun _ => P []) (fun _ => False) := by
    induction rs with
    | nil => exact .pure _ fun _ h => h
    | cons r rs ih => exact Leads.bind (h r rs) fun _ => ih
  intro s hs
  rw [releaseAll, outcome_bind_ok (outcome_getThread s), hid rs s hs]
  exact all s hs

theorem outcome_nativeFor? (r : MethodRef) (t : Thread) (m : Machine) :
    outcome (nativeFor? r) (t, m) =
      (.ok (m.natives.lookup? r.owner.name r.method.name r.method.descriptor), t, m) := rfl

/-- What can come of taking the lock of a call: the lock is taken last of all, or all locks are left
    alone. -/
inductive TakesLock (r : MethodRef) (f : Frame) (t : Thread) (m : Machine) :
    Except Fault Locking × Thread × Machine → Prop
  | failed {e : Fault} {m' : Machine} : LeavesLocks m m' → TakesLock r f t m (.error e, t, m')
  | unneeded : r.method.isSynchronized = false → TakesLock r f t m (.ok .unneeded, t, m)
  | busy {l : Ref} {m' : Machine} : LeavesLocks m m' → TakesLock r f t m (.ok (.busy l), t, m')
  | held {l : Ref} {m₁ m' : Machine} : LeavesLocks m m₁ →
    outcome (Exec.tryEnter l t.id 1) m₁ = (.ok true, m') → r.LockIs f m' l →
    TakesLock r f t m (.ok (.held l), t, m')

theorem takeLock_spec (r : MethodRef) {t : Thread} {f : Frame} {rest : List Frame}
    (hf : t.frames = f :: rest) (m : Machine) :
    TakesLock r f t m (outcome (takeLock r) (t, m)) := by
  have enter {l : Ref} {m₁ : Machine} (hm : LeavesLocks m m₁) (hl : r.LockIs f m₁ l) :
      TakesLock r f t m (outcome (do
        let id ← threadId
        if ← (Exec.tryEnter l id 1 : Exec Bool) then return .held l else return .busy l :
          ThreadM Locking) (t, m₁)) := by
    rw [outcome_bind_ok (outcome_threadId _)]
    rcases he : outcome (Exec.tryEnter l t.id 1) m₁ with ⟨e | b, m'⟩
    · cases (Exec.tryEnter_requests l t.id 1 m₁).2 e m' he
      rw [outcome_thread_bind_error he]
      exact .failed hm
    · rw [outcome_thread_bind_ok he]
      cases b with
      | false => exact .busy (hm.trans (Exec.tryEnter_refused he))
      | true =>
        have hc := Exec.tryEnter_classObjects he
        exact .held hm he ⟨fun h => hc ▸ hl.static h, hl.receiver⟩
  unfold takeLock
  cases hsync : r.method.isSynchronized with
  | false => exact .unneeded hsync
  | true =>
    cases hs : r.method.isStatic with
    | true =>
      have hl : LeavesLocks m (outcome (Exec.classObject r.owner) m).2 :=
        Exec.classObject_within m
      rcases ho : outcome (Exec.classObject r.owner) m with ⟨e | l, m'⟩ <;> rw [ho] at hl
      · exact (outcome_thread_bind_error ho).symm ▸ .failed hl
      · exact (outcome_thread_bind_ok ho).symm ▸
          enter hl ⟨fun _ => Exec.classObject_ok ho, fun h => absurd (hs.symm.trans h) nofun⟩
    | false =>
      simp only [Bool.not_true, Bool.false_eq_true, if_false]
      rw [outcome_bind_ok (outcome_topFrame hf m)]
      cases hv : f.stack.peek (r.method.argumentCount - 1) with
      | error e =>
        rw [outcome_engine_bind_error]
        exact .failed (.refl m)
      | ok v =>
        rw [outcome_engine_bind_ok]
        cases hl : v.asObject with
        | error e =>
          rw [outcome_bind_error (outcome_liftExcept _ _)]
          exact .failed (.refl m)
        | ok l =>
          rw [outcome_bind_ok (outcome_liftExcept _ _)]
          have hr : f.stack.peek (r.method.argumentCount - 1) = .ok (.ofRef l) :=
            hv.trans (congrArg Except.ok (Value.asObject_eq_ok hl))
          exact enter (.refl m) ⟨fun h => absurd (hs.symm.trans h) nofun, fun _ => hr⟩

end ThreadM

end GreenVm
