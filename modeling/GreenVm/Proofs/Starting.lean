/-
  Starting a thread at a static method, and calling the method.

  * `Thread.Matches`: what becomes of a thread that starts at a method, and what becomes of a caller
    that calls the method with the same arguments on the same machine.
  * `Thread.step_matches`: they match, once the class of the method is ready, as long as the caller is
    below the limit of calls.  In two cases they differ: a thread keeps the value of a native whose method
    has no result, which a caller drops; and a method with neither a native nor code stops the thread,
    but throws to a caller.
-/
import GreenVm.Proofs.Nesting

namespace GreenVm

/-- The outcome of taking the lock of a call that need not wait for it. -/
def Locking.ofLock : Option Ref → Locking
  | none => .unneeded
  | some lock => .held lock

/-- A call of a static native method. -/
def MethodRef.staticCall (r : MethodRef) (args : List Value) (thread : ThreadId) : NativeCall :=
  { owner := r.owner, receiver := none, args, thread }

/-- A class is ready for its first use. -/
def Readiness.isReady : Readiness → Bool
  | ready => true
  | await _ | runInitializer _ => false

theorem Readiness.eq_ready {x : Readiness} (h : x.isReady = true) : x = ready := by
  cases x with
  | ready => rfl
  | await | runInitializer => cases h

theorem MethodRef.splitReceiver_of_static {r : MethodRef} (h : r.method.isStatic = true)
    (args : List Value) : r.splitReceiver args = .ok (none, args) := by
  unfold splitReceiver
  rw [if_pos h]
  rfl

namespace Thread

section Matches

variable (host : Host) (t u : Thread) (f : Frame) (stack : OperandStack) (r : MethodRef)
  (args : List Value) (lock : Option Ref) (m : Machine)

/-- What becomes of a thread `t` that starts at the method `r`, and of a caller `u`, with the top frame
    `f`, that calls it, on a machine `m`.  The arguments have been taken off the caller's stack. -/
inductive Matches : Thread × Machine → Except Fault Unit × Thread × Machine → Prop
  /-- A native fails. -/
  | failed {native : Native} {e : Fault} {m' : Machine} {s : Thread × Machine}
      (hn : m.natives.lookup? r.owner.name r.method.name r.method.descriptor = some native)
      (hr : outcome (native.run host (r.staticCall args t.id)) m = (.error e, m'))
      (hs : t.Recovers m' e s) :
    Matches s (.error e, u.withTop { f with stack }, m'.released u.id lock.toList)
  /-- A native answers, and the method has a result if the native has. -/
  | answered {native : Native} {value : Option Value} {m' : Machine} {stack' : OperandStack}
      (hn : m.natives.lookup? r.owner.name r.method.name r.method.descriptor = some native)
      (hr : outcome (native.run host (r.staticCall args t.id)) m = (.ok value, m'))
      (hv : r.result value = value) (hs : stack.pushResult value = .ok stack') :
    Matches (t.ended (.returned value), m')
      (.ok (), u.withTop { f with stack := stack', pc := f.pc + 1 }, m'.released u.id lock.toList)
  /-- So it is, but the caller's stack has no room for the result. -/
  | overflowed {native : Native} {value : Option Value} {m' : Machine} {e : EngineError}
      (hn : m.natives.lookup? r.owner.name r.method.name r.method.descriptor = some native)
      (hr : outcome (native.run host (r.staticCall args t.id)) m = (.ok value, m'))
      (hv : r.result value = value) (hs : stack.pushResult value = .error e) :
    Matches (t.ended (.returned value), m')
      (.error (.fatal e), u.withTop { f with stack }, m'.released u.id lock.toList)
  /-- A native answers with a value, and the method has no result. -/
  | surplus {native : Native} {v : Value} {m' : Machine}
      (hn : m.natives.lookup? r.owner.name r.method.name r.method.descriptor = some native)
      (hr : outcome (native.run host (r.staticCall args t.id)) m = (.ok (some v), m'))
      (hv : r.method.type.returnType = none) :
    Matches (t.ended (.returned (some v)), m')
      (.ok (), u.withTop { f with stack, pc := f.pc + 1 }, m'.released u.id lock.toList)
  /-- Bytecode runs in a frame with the same local variables. -/
  | entered {g : Frame}
      (hn : m.natives.lookup? r.owner.name r.method.name r.method.descriptor = none)
      (hg : Frame.enter r args .method = .ok g) :
    Matches (t.pushed g, m)
      (.ok (), (u.withTop { f with stack }).pushed { g with monitors := lock.toList }, m)
  /-- Bytecode has no room for the arguments. -/
  | unentered {e : EngineError}
      (hn : m.natives.lookup? r.owner.name r.method.name r.method.descriptor = none)
      (hc : r.method.code.isSome = true) (hg : Frame.enter r args .method = .error e) :
    Matches (t.aborted e, m) (.error (.fatal e), u.withTop { f with stack }, m)
  /-- There is no code. -/
  | codeless (hn : m.natives.lookup? r.owner.name r.method.name r.method.descriptor = none)
      (hc : r.method.code = none) :
    Matches (t.aborted (.unsupported (.noBytecode r.qualifiedName)), m)
      (.error (if r.method.isAbstract then .abstractMethod r.qualifiedName
          else .unsatisfiedLink r.qualifiedName),
        u.withTop { f with stack }, m.released u.id lock.toList)

end Matches

end Thread

namespace ThreadM

variable {host : Host} {t u : Thread} {f : Frame} {rest : List Frame} {stack : OperandStack}
  {r : MethodRef} {args : List Value} {lock : Option Ref} {m m₀ m₁ : Machine}

/-- A method without a native is started in a frame of its own. -/
theorem outcome_startEntry_bytecode (he : t.entry = some (r, args))
    (hr : outcome (Exec.readyClass host t.id r.owner) m = (.ok .ready, m₁))
    (hn : m₁.natives.lookup? r.owner.name r.method.name r.method.descriptor = none) :
    outcome (startEntry host) (t, m) =
      outcome ((liftM (Frame.enter r args .method) : ThreadM Frame) >>= pushFrame)
        ({ t with entry := none }, m₁) := by
  unfold startEntry
  rw [outcome_bind_ok (outcome_getThread _)]
  simp only [he]
  rw [outcome_thread_bind_ok hr]
  dsimp only
  rw [outcome_bind_ok (outcome_modifyThread _ _), outcome_bind_ok (outcome_nativeFor? r _ m₁), hn]

/-- A native runs with the arguments, and its value is what the thread returns. -/
theorem outcome_startEntry_native {native : Native} (he : t.entry = some (r, args))
    (hs : r.method.isStatic = true)
    (hr : outcome (Exec.readyClass host t.id r.owner) m = (.ok .ready, m₁))
    (hn : m₁.natives.lookup? r.owner.name r.method.name r.method.descriptor = some native) :
    outcome (startEntry host) (t, m) =
      outcome ((liftM (native.run host (r.staticCall args t.id)) : ThreadM (Option Value)) >>=
        fun value => terminate (.returned value)) ({ t with entry := none }, m₁) := by
  unfold startEntry
  rw [outcome_bind_ok (outcome_getThread _)]
  simp only [he]
  rw [outcome_thread_bind_ok hr]
  dsimp only
  rw [outcome_bind_ok (outcome_modifyThread _ _), outcome_bind_ok (outcome_nativeFor? r _ m₁), hn]
  dsimp only
  rw [MethodRef.splitReceiver_of_static hs, outcome_bind_ok (outcome_liftExcept _ _)]
  rfl

/-- A call for which no lock has to be awaited. -/
theorem outcome_invoke (hl : outcome (takeLock r) (u, m₀) = (.ok (.ofLock lock), u, m₁)) :
    outcome (invoke host r) (u, m₀) = outcome (call host r lock) (u, m₁) := by
  rw [invoke, outcome_bind_ok hl]
  cases lock <;> rfl

/-- A call of a native fails with it, and its value is pushed if the method has a result. -/
theorem outcome_call_native {native : Native} {a : Except Fault (Option Value)} {m' : Machine}
    (hu : u.frames = f :: rest) (hs : r.method.isStatic = true)
    (hargs : f.stack.popArgs r.method.argumentCount = .ok (args, stack))
    (hn : m.natives.lookup? r.owner.name r.method.name r.method.descriptor = some native)
    (hr : outcome (native.run host (r.staticCall args u.id)) m = (a, m')) :
    outcome (call host r lock) (u, m) =
      outcome ((liftM a : ThreadM (Option Value)) >>= fun value =>
          (liftM (stack.pushResult (r.result value)) : ThreadM OperandStack) >>= fun stack =>
            setTop { f with stack, pc := f.pc + 1 })
        (u.withTop { f with stack }, m'.released u.id lock.toList) := by
  have hr' : outcome (native.run host ⟨r.owner, none, args, (u.withTop { f with stack }).id⟩) m =
      (a, m') := hr
  rw [call, outcome_bind_ok (outcome_topFrame hu m), hargs, outcome_engine_bind_ok]
  dsimp only
  rw [outcome_bind_ok (outcome_setTop _ _), outcome_bind_ok (outcome_nativeFor? r _ m), hn]
  dsimp only
  rw [callNative, MethodRef.splitReceiver_of_static hs, outcome_bind_ok (outcome_liftExcept _ _)]
  dsimp only
  rw [outcome_bind_ok (outcome_threadId _)]
  dsimp only
  rw [outcome_thread_bind_ok (outcome_attempt _ _), hr', outcome_bind_ok (outcome_releaseAll _ _ _)]
  cases a with
  | error e =>
    rw [outcome_bind_error (outcome_liftExcept _ _), outcome_bind_error (outcome_liftExcept _ _)]
    rfl
  | ok value =>
    rw [outcome_bind_ok (outcome_liftExcept _ _), outcome_bind_ok (outcome_liftExcept _ _),
      outcome_bind_ok (outcome_topFrame rfl _)]
    cases value <;> cases ht : r.method.type.returnType <;>
      simp only [MethodRef.result, ht, Option.bind_none, Option.bind_some,
        OperandStack.pushResult] <;> rfl

theorem callFailure?_of_codeless (hc : r.method.code = none) (depth maxDepth : Nat) :
    callFailure? r depth maxDepth = some (if r.method.isAbstract then
      .abstractMethod r.qualifiedName else .unsatisfiedLink r.qualifiedName) := by
  simp [callFailure?, hc]

theorem isSome_of_callFailure? {depth maxDepth : Nat} (h : callFailure? r depth maxDepth = none) :
    r.method.code.isSome = true := by
  by_contra hc
  cases (callFailure?_of_codeless (by simpa using hc) _ _).symm.trans h

theorem callFailure?_of_code {depth maxDepth : Nat} (hc : r.method.code.isSome = true)
    (hd : depth < maxDepth) : callFailure? r depth maxDepth = none := by
  obtain ⟨code, hc⟩ := Option.isSome_iff_exists.1 hc
  simp [callFailure?, hc, hd]

end ThreadM

/-- A method without code has no frame. -/
theorem Frame.enter_of_codeless {r : MethodRef} (hc : r.method.code = none) (args : List Value)
    (kind : FrameKind) : enter r args kind = .error (.unsupported (.noBytecode r.qualifiedName)) := by
  simp [enter, hc]

namespace Thread

open ThreadM

variable {host : Host} {t u : Thread} {f : Frame} {rest : List Frame} {stack : OperandStack}
  {r : MethodRef} {args : List Value} {lock : Option Ref} {m m₀ m₁ : Machine}

/-- An engine error stops a thread without frames. -/
theorem Recovers.aborted_eq {e : EngineError} {s : Thread × Machine} (h : t.Recovers m (.fatal e) s)
    (hf : t.frames = []) : s = (t.aborted e, m) := by
  cases h
  rw [hf]
  rfl

section

variable (hs : t.status = .runnable) (hr : t.reacquire = none) (hf : t.frames = [])
  (he : t.entry = some (r, args))
  (hready : outcome (Exec.readyClass host t.id r.owner) m = (.ok .ready, m₁))
  (hu : u.frames = f :: rest)
  (hargs : f.stack.popArgs r.method.argumentCount = .ok (args, stack))

include hs hr hf he hready hu hargs

/-- A method without a native is started as it is called, if it has code. -/
theorem step_matches_bytecode (hdepth : u.depth < m₁.config.maxCallDepth)
    (hn : m₁.natives.lookup? r.owner.name r.method.name r.method.descriptor = none) :
    { t with entry := none }.Matches host u f stack r args lock m₁ ((t.step host).run m)
      (outcome (call host r lock) (u, m₁)) := by
  have hwork : outcome (tryStep host) (t, m) =
      outcome ((liftM (Frame.enter r args .method) : ThreadM Frame) >>= pushFrame)
        ({ t with entry := none }, m₁) := by
    rw [← outcome_startEntry_bytecode he hready hn, tryStep, outcome_bind_ok (outcome_getThread _)]
    simp only [hr, hf]
  have hcalls : u.Calls host f m₁ r lock (outcome (call host r lock) (u, m₁)) :=
    call_calls r lock hu m₁
  generalize outcome (call host r lock) (u, m₁) = x at hcalls ⊢
  cases hcalls with
  | starved ha => cases hargs.symm.trans ha
  | refused ha _ hfail =>
    -- below the limit, a call is refused only for want of code
    cases hargs.symm.trans ha
    cases hc : r.method.code with
    | some => cases (callFailure?_of_code (by rw [hc]; rfl) hdepth).symm.trans hfail
    | none =>
      cases (callFailure?_of_codeless hc _ _).symm.trans hfail
      rw [Frame.enter_of_codeless hc, outcome_engine_bind_error] at hwork
      rw [(step_of_error hs hwork).aborted_eq hf]
      exact .codeless hn hc
  | unentered ha _ hfail hg =>
    cases hargs.symm.trans ha
    rw [hg, outcome_engine_bind_error] at hwork
    rw [(step_of_error hs hwork).aborted_eq hf]
    exact .unentered hn (isSome_of_callFailure? hfail) hg
  | entered ha _ _ hg =>
    cases hargs.symm.trans ha
    rw [hg, outcome_engine_bind_ok, outcome_pushFrame] at hwork
    rw [step_of_ok hs hwork]
    exact .entered hn hg
  | unsplit _ hn' => cases hn.symm.trans hn'
  | failed _ hn' => cases hn.symm.trans hn'
  | overflowed _ hn' => cases hn.symm.trans hn'
  | returned _ hn' => cases hn.symm.trans hn'

/-- A native is started as it is called, if its method has a result. -/
theorem step_matches_native {native : Native} (hstatic : r.method.isStatic = true)
    (hid : u.id = t.id)
    (hn : m₁.natives.lookup? r.owner.name r.method.name r.method.descriptor = some native) :
    { t with entry := none }.Matches host u f stack r args lock m₁ ((t.step host).run m)
      (outcome (call host r lock) (u, m₁)) := by
  have hwork : outcome (tryStep host) (t, m) =
      outcome ((liftM (native.run host (r.staticCall args t.id)) : ThreadM (Option Value)) >>=
        fun value => terminate (.returned value)) ({ t with entry := none }, m₁) := by
    rw [← outcome_startEntry_native he hstatic hready hn, tryStep,
      outcome_bind_ok (outcome_getThread _)]
    simp only [hr, hf]
  rcases hrun : outcome (native.run host (r.staticCall args t.id)) m₁ with ⟨e | value, m'⟩
  · rw [outcome_thread_bind_error hrun] at hwork
    rw [outcome_call_native hu hstatic hargs hn (hid ▸ hrun),
      outcome_bind_error (outcome_liftExcept _ _)]
    exact .failed hn hrun (step_of_error hs hwork)
  rw [outcome_thread_bind_ok hrun, outcome_terminate] at hwork
  rw [step_of_ok hs hwork, outcome_call_native hu hstatic hargs hn (hid ▸ hrun),
    outcome_bind_ok (outcome_liftExcept _ _)]
  by_cases hv : r.result value = value
  · rw [hv]
    cases hpush : stack.pushResult value with
    | error e => exact .overflowed hn hrun hv hpush
    | ok stack' => exact .answered hn hrun hv hpush
  · cases value with
    | none => exact absurd (Option.bind_fun_none _) hv
    | some v =>
      cases ht : r.method.type.returnType with
      | none =>
        rw [MethodRef.result, ht]
        exact .surplus hn hrun ht
      | some type => exact absurd (by rw [MethodRef.result, ht]; rfl) hv

end

/-- **Starting at a method is like calling it.**  A thread that is about to start at a static method whose
    class is ready does with it what a caller does, with the same arguments and on the same machine, that
    is below the limit of calls and has taken the lock of the method if it needs one. -/
theorem step_matches (hs : t.status = .runnable) (hr : t.reacquire = none) (hf : t.frames = [])
    (he : t.entry = some (r, args)) (hstatic : r.method.isStatic = true)
    (hready : outcome (Exec.readyClass host t.id r.owner) m = (.ok .ready, m₁))
    (hu : u.frames = f :: rest) (hid : u.id = t.id)
    (hargs : f.stack.popArgs r.method.argumentCount = .ok (args, stack))
    (hdepth : u.depth < m₁.config.maxCallDepth)
    (hl : outcome (takeLock r) (u, m₀) = (.ok (.ofLock lock), u, m₁)) :
    { t with entry := none }.Matches host u f stack r args lock m₁ ((t.step host).run m)
      (outcome (invoke host r) (u, m₀)) := by
  rw [outcome_invoke hl]
  cases hn : m₁.natives.lookup? r.owner.name r.method.name r.method.descriptor with
  | none => exact step_matches_bytecode hs hr hf he hready hu hargs hdepth hn
  | some native => exact step_matches_native hs hr hf he hready hu hargs hstatic hid hn

end Thread

/-! ## Programs -/

namespace Vm

/-- A class `A` with one static method `f`. -/
def ofMethod (flags : List Flag) (descriptor : String) (code : Option CodeDecl) : Vm :=
  boot { eagerNativeLinking := false } (.ofList [("A",
    { ClassFile.ofClass "A" with
      methods := [{ flags := .ofList (.staticMember :: flags), name := "f", descriptor, code }] })]) 0

/-- A thread with the id of another and a frame, on the stack of which an integer lies. -/
def caller (t : Thread) (r : MethodRef) : Frame × Thread :=
  let f : Frame :=
    { method := r, code := default, pc := 0, locals := #[], monitors := [], kind := .method
      stack := { values := [.int 5], depth := 1, max := 1 } }
  (f, { t with entry := none, frames := [f], depth := 1 })

/-- A thread that was started at a method with a parameter, and a caller of the method: they go on in
    frames with the same local variables. -/
theorem step_matches_spawned :
    let vm := (ofMethod [] "(I)V" (some (.ofList 0 1 [.leave none]))).after .idle
      [.spawn "A" "f" "(I)V" [.int 5]]
    ∃ t m r g m', Takes vm 0 t m ∧ t.entry = some (r, [.int 5]) ∧ g.locals = #[.int 5] ∧
      (t.step .idle).run m = ({ t with entry := none }.pushed g, m') ∧
      ∃ f, outcome (ThreadM.invoke .idle r) ((caller t r).2, m') =
        (.ok (), ((caller t r).2.withTop f).pushed { g with monitors := [] }, m') := by
  intro vm
  have h : vm.picked? = some 0 ∧ (vm.choose.2.threads[0]?.any fun t =>
      t.status = .runnable ∧ t.reacquire = none ∧ t.frames.isEmpty ∧ t.entry.any fun entry =>
        let r := entry.1
        let ready := outcome (Exec.readyClass .idle t.id r.owner) vm.choose.2.machine
        entry.2 = [.int 5] ∧ r.method.isStatic = true ∧ r.method.isSynchronized = false ∧
        r.method.argumentCount = 1 ∧ ready.1.toOption.any Readiness.isReady ∧
        (ready.2.natives.lookup? r.owner.name r.method.name r.method.descriptor).isNone ∧
        1 < ready.2.config.maxCallDepth ∧
        (Frame.enter r entry.2 .method).toOption.any (·.locals = #[.int 5])) := by
    decide +kernel
  obtain ⟨hp, hany⟩ := h
  obtain ⟨t, ht, hany⟩ := (Option.any_eq_true _ _).1 hany
  obtain ⟨hs, hr, hf, hentry⟩ := of_decide_eq_true hany
  obtain ⟨⟨r, args⟩, he, hentry⟩ := (Option.any_eq_true _ _).1 hentry
  rcases hready : outcome (Exec.readyClass .idle t.id r.owner) vm.choose.2.machine with ⟨x, m'⟩
  simp only [hready] at hentry
  obtain ⟨rfl, hstatic, hsync, hcount, hx, hn, hdepth, hg⟩ := of_decide_eq_true hentry
  have hf : t.frames = [] := List.isEmpty_iff.1 hf
  have hn := Option.isNone_iff_eq_none.1 hn
  obtain ⟨x, rfl, hx⟩ := except_any_toOption.1 hx
  obtain rfl := Readiness.eq_ready hx
  obtain ⟨g, hg, hlocals⟩ := except_any_toOption.1 hg
  have hlock : outcome (ThreadM.takeLock r) ((caller t r).2, m') =
      (.ok (.ofLock none), (caller t r).2, m') := by
    simp [ThreadM.takeLock, hsync, Locking.ofLock]
  have hu : (caller t r).2.frames = [(caller t r).1] := rfl
  have hargs : (caller t r).1.stack.popArgs r.method.argumentCount =
      .ok ([.int 5], { max := 1 }) := by
    rw [hcount]
    rfl
  have hmatches := Thread.step_matches hs hr hf he hstatic hready hu rfl hargs hdepth hlock
  refine ⟨t, _, r, g, m', ⟨hp, ht, rfl⟩, he, of_decide_eq_true hlocals, ?_⟩
  generalize (t.step .idle).run vm.choose.2.machine = s at hmatches ⊢
  generalize outcome (ThreadM.invoke .idle r) ((caller t r).2, m') = y at hmatches ⊢
  cases hmatches with
  | entered _ hg' =>
    cases hg.symm.trans hg'
    exact ⟨rfl, _, rfl⟩
  | failed hn' => cases hn.symm.trans hn'
  | answered hn' => cases hn.symm.trans hn'
  | overflowed hn' => cases hn.symm.trans hn'
  | surplus hn' => cases hn.symm.trans hn'
  | unentered _ _ hg' => cases hg.symm.trans hg'
  | codeless _ hc =>
    rw [Frame.enter_of_codeless hc] at hg
    cases hg

/-- A host whose functions answer 42. -/
def answering : Host := fun _ _ => return some (.int 42)

/-- A native answers a value for a method without a result: the thread that starts at the method
    returns it.  And a thread that starts at a native method that nobody provides is stopped. -/
theorem not_starts_as_called :
    ((ofMethod [.native] "()V" none).after answering
      [.register "A" "f" "()V" "answer", .spawn "A" "f" "()V" [], .turn]).threads[0]?.map
        Thread.completion = some (some (.returned (some (.int 42)))) ∧
    ((ofMethod [.native] "()V" none).after answering
      [.spawn "A" "f" "()V" [], .turn]).threads[0]?.map Thread.completion =
        some (some (.aborted (.unsupported (.noBytecode "A.f()V")))) := by
  decide +kernel

end Vm

end GreenVm
