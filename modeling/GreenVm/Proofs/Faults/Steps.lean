/-
  The faults of steps.

  * `Fault.Explained host P f`: the fault is one of a kind, or a function of the embedder raises it, or
    the object of a throwable could not be made that such a function raises and whose class is not
    built in.
  * `FailsRightly host x`: work that starts in a complete machine fails with such a fault, the kind
    being what the machine raises by itself.
  * `Thread.Attempts.fails`: so does a unit of work, unless the method is refused that it calls.
  * `Thread.Steps.aborted`: a step aborts the thread because of nothing else.
-/
import GreenVm.Proofs.Faults.Instructions
import GreenVm.Proofs.Faults.Library
import GreenVm.Proofs.Initialization.Step
import GreenVm.Proofs.Materializing

namespace GreenVm

open Exec

/-! ## Where faults come from -/

/-- A function of the embedder raises the fault, in some call. -/
def Host.Raises (host : Host) (f : Fault) : Prop :=
  ∃ name call m, (outcome (host name call) m).1 = .error f

/-- Where a fault can come from, given what the machine raises itself, and the functions of the
    embedder. -/
inductive Fault.Explained (host : Host) (P : Fault → Prop) : Fault → Prop
  | own {f : Fault} (h : P f) : Explained host P f
  | raised {f : Fault} (h : host.Raises f) : Explained host P f
  | unmade {name reason : String} {message : Option String}
      (hn : name ∉ ClassName.builtInThrowables) (h : host.Raises (.thrown (.symbolic name message))) :
    Explained host P (.fatal (.materialize name reason))

variable {host : Host} {id : ThreadId} {c : Class} {m m' : Machine}

namespace Fault.Explained

variable {f : Fault} {P Q : Fault → Prop} {name : String}

theorem mono (h : f.Explained host P) (hp : ∀ f, P f → Q f) : f.Explained host Q := by
  cases h with
  | own h => exact .own (hp _ h)
  | raised h => exact .raised h
  | unmade hn h => exact .unmade hn h

/-- That an object could not be made is never the machine's own doing. -/
theorem materialize {reason : String}
    (h : (Fault.fatal (.materialize name reason)).Explained host IsOwn) :
    host.Raises (.fatal (.materialize name reason)) ∨ (name ∉ ClassName.builtInThrowables ∧
      ∃ message, host.Raises (.thrown (.symbolic name message))) := by
  cases h with
  | own h =>
    cases h with
    | fatal h => exact absurd rfl (h name reason)
  | raised h => exact .inl h
  | unmade hn h => exact .inr ⟨hn, _, h⟩

/-- A throwable of a class that is not built in comes from a function of the embedder. -/
theorem raises {message : Option String}
    (h : (Fault.thrown (.symbolic name message)).Explained host IsOwn)
    (hn : name ∉ ClassName.builtInThrowables) :
    host.Raises (.thrown (.symbolic name message)) := by
  cases h with
  | own h =>
    cases h with
    | symbolic h => exact absurd h hn
  | raised h => exact h

end Fault.Explained

theorem Native.run_explained {native : Native} {call : NativeCall} :
    FailsWith (fun f m => f.Explained host m.Raises) (native.run host call) := by
  cases native with
  | builtin op => exact Builtin.run_own.mono fun _ _ => .own
  | host name => exact fun m f m' h => .raised ⟨name, call, m, congrArg Prod.fst h⟩

section Rules

variable {M : Type → Type} {σ α : Type} [Monad M] [MonadExceptOf Fault M]
  [MonadLiftT (Except Fault) M] [Work M σ] [HasMachine σ]

/-- Work that starts in a complete machine fails with what this machine or a function of the embedder
    raises. -/
abbrev FailsRightly (host : Host) (x : M α) : Prop :=
  FailsFrom (fun s => (HasMachine.machineOf s).Complete)
    (fun f s => f.Explained host (HasMachine.machineOf s).Raises) x

theorem FailsFrom.of_own {x : M α} (h : FailsOwn x) : FailsRightly host x :=
  .of_failsWith (h.mono fun _ _ => .own)

end Rules

/-! ## Making classes ready -/

/-- Work that retains the definitions leaves a complete machine complete. -/
theorem Machine.Complete.kept {α : Type} {x : Exec α} (hr : Within Retains x) (m : Machine)
    (h : m.Complete) : (outcome x m).2.Complete :=
  h.retains (hr m)

namespace Exec

open Machine.Complete

theorem materialize_explained {P : Fault → Machine → Prop} {e : Throwable}
    (h : (Fault.thrown e).Explained host Fault.IsOwn) :
    FailsFrom Machine.Complete (fun f m => f.Explained host (P · m)) (materialize e) :=
  fun m f m' hm hf => by
    obtain ⟨name, message, reason, rfl, hn, rfl⟩ := materialize_error hm hf
    exact .unmade hn (h.raises hn)

theorem beginClass_explained (hh : host.Within Retains) :
    FailsRightly host (beginClass host id c) := by
  have enter {I : Machine → Prop} {init : InitState} {β : Type} {g : Unit → Exec β}
      (hi : ∀ m, I m → I (m.withInit c init))
      (hg : ∀ a, FailsFrom I (fun f m => f.Explained host m.Raises) (g a)) :
      FailsFrom I (fun f m => f.Explained host m.Raises) (setInit c init >>= g) :=
    .bind hi (.of_failsWith setInit_failsWith) hg
  refine enter (kept setInit_within) fun _ => attempt_bind_failsFrom (kept assignConstants_within)
    (.of_failsWith assignConstants_own) fun assigned => ?_
  cases assigned with
  | error f =>
    refine enter (fun m h => ⟨kept setInit_within m h.1, fun e he => ?_⟩) fun _ =>
      .throw fun m h => .own (h.2 f rfl)
    exact (h.2 e he).of_same rfl rfl
  | ok _ =>
    refine .weaken (fun _ h => h.1) <|
      .bind (kept get_within) (.of_failsWith get_failsWith) fun m => ?_
    split
    · exact enter (kept setInit_within) fun _ => .pure _
    · exact .pure _
    · refine attempt_bind_failsFrom (kept (Native.run_within hh))
        (.of_failsWith Native.run_explained) fun ran => ?_
      cases ran with
      | ok _ => exact .weaken (fun _ h => h.1) <| enter (kept setInit_within) fun _ => .pure _
      | error f =>
        cases f with
        | fatal e => exact .throw fun m h => h.2 _ rfl
        | thrown e =>
          refine .assume (fun m h => (h.2 _ rfl).mono fun _ => Machine.Raises.own) fun he =>
            .weaken (fun _ h => h.1) <| enter (kept setInit_within) fun _ =>
              .bind (kept materialize_within) (materialize_explained he) fun r =>
                .bind (kept initializerFailure_within) ?_ fun _ =>
                  .throw fun _ _ => .own (.plain .object)
          exact fun m f m' hm h => .own (.plain (initializerFailure_error_plain hm h))

theorem readyAfter_explained (hh : host.Within Retains) {above : Exec Readiness}
    (hr : Within Retains above) (ha : FailsRightly host above) :
    FailsRightly host (readyAfter host id c above) := by
  refine .bind (kept classState_within) (.of_failsWith classState_failsWith) fun s => ?_
  cases s.init with
  | done => exact .pure _
  | inProgress owner => exact .pure _
  | failed => exact .of_own (throw_own (.raise (by decide)))
  | uninitialized =>
    refine .bind (kept hr) ha fun readiness => ?_
    cases readiness with
    | ready => exact beginClass_explained hh
    | await => exact .pure _
    | runInitializer => exact .pure _

/-- Making a class ready fails for a known reason. -/
theorem readyClass_explained (hh : host.Within Retains) :
    ∀ {c : Class}, FailsRightly host (readyClass host id c)
  | ⟨_, none, _, _⟩ => readyAfter_explained hh (.pure _) (.pure _)
  | ⟨_, some _, _, _⟩ => readyAfter_explained hh
      (readyClass_within (StepsWithin.of_lively hh id).initializes) (readyClass_explained hh)

end Exec

/-! ## Instructions -/

namespace FrameM

variable {α β : Type} {index : Nat}

/-- Work that fails with faults of the machine's own, and then other work. -/
theorem bind_explained {x : FrameM α} {g : α → FrameM β} (hr : Within (OnFrame Retains) x)
    (hx : FailsOwn x) (hg : ∀ a, FailsRightly host (g a)) : FailsRightly host (x >>= g) :=
  .bind (fun s hs => Machine.Complete.retains hs (hr s).2) (.of_own hx) hg

/-- A class is made ready, and then there is work that fails with faults of the machine's own. -/
theorem whenReady_explained (hh : host.Within Retains) {use : FrameM Next} (hu : FailsOwn use) :
    FailsRightly host (whenReady host id c use) := by
  have steps : StepsWithin Retains host id := .of_lively hh id
  refine .bind (fun s hs => Machine.Complete.retains hs ?_)
    (lift_failsFrom fun _ => readyClass_explained hh) fun readiness => ?_
  · exact (lift_within (readyClass_within steps.initializes) s).2
  · cases readiness with
    | ready => exact .of_own hu
    | await => exact .pure _
    | runInitializer => exact .pure _

theorem getStatic_explained (hh : host.Within Retains) :
    FailsRightly host (getStatic host id index) :=
  bind_explained staticSite_within staticSite_own fun _ => whenReady_explained hh <|
    .bind (lift_own getStatic_failsWith) fun _ => .bind push_own fun _ => .pure _

theorem putStatic_explained (hh : host.Within Retains) :
    FailsRightly host (putStatic host id index) :=
  bind_explained staticSite_within staticSite_own fun _ => whenReady_explained hh <|
    .bind pop_own fun _ => .bind (lift_own setStatic_failsWith) fun _ => .pure _

theorem invokeStatic_explained (hh : host.Within Retains) :
    FailsRightly host (invokeStatic host id index) := by
  refine bind_explained owner_within owner_own fun _ =>
    bind_explained (lift_within resolveMethod_within) (lift_own resolveMethod_own) fun method => ?_
  have ready : FailsRightly host (whenReady host id method.owner (return .invoke method)) :=
    whenReady_explained hh (.pure _)
  dsimp only
  split
  · exact bind_explained (.throw _) (throw_own (.raise (by decide))) fun _ => ready
  · exact ready

theorem new_explained (hh : host.Within Retains) : FailsRightly host (new host id index) := by
  refine bind_explained classAt_within classAt_own fun c => ?_
  have create : FailsOwn (do
      push (.ofRef (← Exec.instantiate c))
      return .advance : FrameM Next) :=
    .bind (lift_own instantiate_own) fun _ => .bind push_own fun _ => .pure _
  dsimp only
  split
  exacts [.of_own create, whenReady_explained hh create]

theorem execute_explained (hh : host.Within Retains) {i : Instruction} :
    FailsRightly host (execute host id i) := by
  cases hn : i.needsClass with
  | false => exact .of_own (execute_own hn)
  | true =>
    cases i with
    | getStatic => exact getStatic_explained hh
    | putStatic => exact putStatic_explained hh
    | invokeStatic => exact invokeStatic_explained hh
    | new => exact new_explained hh
    | _ => cases hn

end FrameM

/-- An instruction that fails in a complete machine fails for a known reason. -/
theorem Frame.execute_explained (hh : host.Within Retains) :
    FailsRightly host (execute host id) := by
  intro s e s' hs h
  rw [execute, outcome_bind_ok (outcome_getFrame _)] at h
  split at h
  · exact FrameM.execute_explained hh s e s' hs h
  · cases (outcome_throw _ _).symm.trans h
    exact .own (.plain (.fatal fun _ _ h => by cases h))

/-! ## Units of work -/

theorem MethodRef.lock_own {r : MethodRef} {f : Frame} : FailsOwn (r.lock f) := by
  unfold lock
  split
  · exact classObject_own
  · exact .bind OperandStack.peek_errs.aborts fun _ => Value.asObject_errs.fails

theorem ThreadM.callFailure?_own {r : MethodRef} {depth maxDepth : Nat} {e : Fault}
    (h : callFailure? r depth maxDepth = some e) : e.IsOwn := by
  unfold callFailure? at h
  split at h
  · cases h
    split
    exacts [.raise (by simp), .raise (by simp)]
  · split at h <;> cases h
    exact .symbolic (by simp)

theorem Exec.findHandler?_own {f : Frame} {r : Ref} : FailsOwn (findHandler? f r) :=
  .bind typeOf_own fun c m e m' h => by
    obtain ⟨found, hf⟩ := acceptingHandler?_ok f.owner c f.coveringHandlers m
    rw [h] at hf
    cases hf

/-- Releasing monitors has to do with neither class files nor classes. -/
theorem Machine.released_same (m : Machine) (id : ThreadId) (rs : List Ref) :
    Exec.sources (m.released id rs) = Exec.sources m ∧ (m.released id rs).loaded = m.loaded := by
  induction rs generalizing m with
  | nil => exact ⟨rfl, rfl⟩
  | cons r rs ih =>
    obtain ⟨hs, hl⟩ := ih (outcome (release id r) m).2
    suffices first : Exec.sources (outcome (release id r) m).2 = Exec.sources m ∧
        (outcome (release id r) m).2.loaded = m.loaded from
      ⟨hs.trans first.1, hl.trans first.2⟩
    rcases release_cases r id m with e | e <;> rw [e]
    · exact ⟨rfl, rfl⟩
    rcases withMonitor_cases r (·.exit id) m with ⟨e, he⟩ | ⟨o, p, monitor, -, -, he⟩
    · rw [leaveMonitor, outcome_bind_error he]
      exact ⟨rfl, rfl⟩
    · rw [leaveMonitor, outcome_bind_ok he]
      exact ⟨rfl, rfl⟩

/-- The method has no native, and cannot be called at some depth of frames. -/
structure MethodRef.Refused (r : MethodRef) (m : Machine) (e : Fault) : Prop where
  lookup? : m.natives.lookup? r.owner.name r.method.name r.method.descriptor = none
  failure : ∃ depth maxDepth, ThreadM.callFailure? r depth maxDepth = some e

theorem MethodRef.Refused.own {r : MethodRef} {e : Fault} (h : r.Refused m e) : e.IsOwn :=
  h.failure.elim fun _ ⟨_, he⟩ => ThreadM.callFailure?_own he

namespace Thread

variable {t : Thread} {f : Frame} {r : MethodRef} {lock : Option Ref} {value : Option Value}
  {rest fs : List Frame} {e : Fault} {s : Thread × Machine}

theorem Locks.own {x : Except Fault Locking × Thread × Machine} (h : t.Locks f m r x)
    (he : x.1 = .error e) : x.2.2.Raises e := by
  cases h with
  | lockless _ hl => cases he; exact MethodRef.lock_own _ _ _ hl
  | dangling _ _ hd => cases he; exact tryEnter_own _ _ _ hd
  | _ => cases he

theorem Calls.fails (h : t.Calls host f m r lock (.error e, s)) :
    e.Explained host s.2.Raises ∨ r.Refused m e := by
  cases h with
  | refused _ hn hf => exact .inr ⟨hn, _, _, hf⟩
  | starved ha => exact .inl (.own (.plain (.fatal (OperandStack.popArgs_errs _ ha))))
  | unentered _ _ _ he => exact .inl (.own (.plain (.fatal (Frame.enter_errs _ he))))
  | unsplit _ _ hs => exact .inl (.own (.plain (MethodRef.splitReceiver_errs _ hs)))
  | @failed _ _ _ _ _ _ m₁ _ _ _ hr =>
    obtain ⟨hs, hl⟩ := m₁.released_same t.id lock.toList
    exact .inl ((Native.run_explained _ _ _ hr).mono fun _ h => h.of_same hs hl)
  | overflowed _ _ _ _ hv => exact .inl (.own (.plain (.fatal (OperandStack.push_errs _ hv))))

theorem Invokes.fails (h : t.Invokes host f m r (.error e, s)) :
    e.Explained host s.2.Raises ∨ ∃ m₁, Retains m m₁ ∧ r.Refused m₁ e := by
  cases h with
  | unlocked hl => exact .inl (.own (hl.own rfl))
  | unguarded _ hc => exact hc.fails.imp_right fun h => ⟨m, .refl m, h⟩
  | guarded hl hc => exact hc.fails.imp_right fun h => ⟨_, hl.keeps.2.toRetains, h⟩

theorem Returns.plain (h : t.Returns f m value rest (.error e, s)) : e.IsPlain := by
  cases h with
  | overflowed _ hv => exact .fatal (OperandStack.push_errs _ hv)

theorem BeginsInitializer.plain (h : t.BeginsInitializer m r (.error e, s)) : e.IsPlain := by
  cases h with
  | unentered he => exact .fatal (Frame.enter_errs _ he)

theorem Starts.explained (hh : host.Within Retains) (hm : m.Complete)
    (h : t.Starts host m r (.error e, s)) : e.Explained host s.2.Raises := by
  cases h with
  | nothing => exact .own (.plain (.fatal nofun))
  | unready _ hr => exact readyClass_explained hh _ _ _ hm hr
  | initializes _ _ hb => exact .own (.plain hb.plain)
  | unentered _ _ _ hg => exact .own (.plain (.fatal (Frame.enter_errs _ hg)))
  | unsplit _ _ _ hs => exact .own (.plain (MethodRef.splitReceiver_errs _ hs))
  | failed _ _ _ _ hc => exact Native.run_explained _ _ _ hc

/-- The instruction of the thread calls a method, which is refused when its lock has been taken. -/
inductive Refused (host : Host) (t : Thread) (m : Machine) (e : Fault) : Prop
  | intro {f f' : Frame} {rest : List Frame} {r : MethodRef} {m₁ m₂ : Machine}
      (hf : t.frames = f :: rest)
      (hx : outcome (Frame.execute host t.id) (f, m) = (.ok (.invoke r), f', m₁))
      (hm : Retains m₁ m₂) (hr : r.Refused m₂ e)

/-- A unit of work that fails in a complete machine fails for a known reason, unless a method is
    refused. -/
theorem Attempts.fails (hh : host.Within Retains) (hm : m.Complete)
    (h : t.Attempts host m (.error e, s)) :
    e.Explained host s.2.Raises ∨ t.Refused host m e := by
  cases h with
  | dangling _ he => exact .inl (.own (tryEnter_own _ _ _ he))
  | starts _ _ hs => exact .inl (hs.explained hh hm)
  | executes _ hf hx =>
    cases hx with
    | failed hx => exact .inl (Frame.execute_explained hh (_, m) e _ hm hx)
    | initializes _ hb => exact .inl (.own (.plain hb.plain))
    | invokes hx hi => exact hi.fails.imp_right fun ⟨m₁, hm, hr⟩ => .intro hf hx hm hr
    | returns _ hr => exact .inl (.own (.plain hr.plain))

/-- A unit of work that fails in a complete machine fails for a known reason. -/
theorem Attempts.explained (hh : host.Within Retains) (hm : m.Complete)
    (h : t.Attempts host m (.error e, s)) : e.Explained host Fault.IsOwn := by
  rcases h.fails hh hm with he | ⟨-, -, -, hr⟩
  · exact he.mono fun _ => Machine.Raises.own
  · exact .own hr.own

/-- Handing an object on fails with nothing but faults of the machine's own. -/
theorem Unwinds.own {x : Except Fault Unit × Thread × Machine} {r : Ref}
    (h : t.Unwinds m r fs x) (hm : m.Complete) (he : x.1 = .error e) : e.IsOwn := by
  have passed {t : Thread} {m m₁ : Machine} {r : Ref} {f : Frame} {found : Option Nat}
      (hm : m.Complete) (hh : outcome (findHandler? f r) m = (.ok found, m₁)) :
      (m₁.released t.id f.monitors).Complete :=
    (hm.retains (findHandler?_within.of_eq hh)).retains (KeepsObjects.released ..).retains
  induction h with
  | unhandled => cases he
  | caught => cases he
  | lost hh => cases he; exact (findHandler?_own _ _ _ hh).own
  | overflowed _ hs => cases he; exact .fatal (OperandStack.push_errs _ hs)
  | passes hh _ _ ih => exact ih (passed hm hh) he
  | fails hh _ hr _ ih =>
    exact ih (((passed hm hh).retains (.withInit _ _ .failed)).retains
      (initializerFailure_within.of_eq hr)) he
  | unmade hh _ hr =>
    cases he
    exact (initializerFailure_error_plain ((passed hm hh).retains (.withInit _ _ .failed)) hr).own

/-! ## Aborted threads -/

/-- The thread has not aborted meanwhile. -/
def Unaborted (t u : Thread) : Prop :=
  ∀ e, u.completion = some (.aborted e) → t.completion = some (.aborted e)

theorem Unaborted.of_same {u : Thread} (h : u.completion = t.completion) : t.Unaborted u :=
  fun _ he => h.symm.trans he

theorem Unaborted.ended {u : Thread} {c : Completion} (h : ∀ e, c ≠ .aborted e) :
    t.Unaborted (u.ended c) := fun e he => absurd (Option.some.inj he) (h e)

variable {x : Except Fault Unit × Thread × Machine}

theorem Calls.unaborted (h : t.Calls host f m r lock x) : t.Unaborted x.2.1 := by
  cases h <;> exact .of_same rfl

theorem Invokes.unaborted (h : t.Invokes host f m r x) : t.Unaborted x.2.1 := by
  cases h with
  | unlocked => exact .of_same rfl
  | busy => exact .of_same rfl
  | unguarded _ hc => exact hc.unaborted
  | guarded _ hc => exact hc.unaborted

theorem Returns.unaborted (h : t.Returns f m value rest x) : t.Unaborted x.2.1 := by
  cases h with
  | ended => exact .ended nofun
  | _ => exact .of_same rfl

theorem BeginsInitializer.unaborted (h : t.BeginsInitializer m r x) : t.Unaborted x.2.1 := by
  cases h <;> exact .of_same rfl

theorem Starts.unaborted (h : t.Starts host m r x) : t.Unaborted x.2.1 := by
  cases h with
  | initializes _ _ hb => exact hb.unaborted
  | returned => exact .ended nofun
  | _ => exact .of_same rfl

theorem Executes.unaborted (h : t.Executes host f m rest x) : t.Unaborted x.2.1 := by
  cases h with
  | initializes _ hb => exact hb.unaborted
  | invokes _ hi => exact hi.unaborted
  | returns _ hr => exact hr.unaborted
  | _ => exact .of_same rfl

/-- No unit of work aborts the thread by itself. -/
theorem Attempts.unaborted (h : t.Attempts host m x) : t.Unaborted x.2.1 := by
  cases h with
  | starts _ _ hs => exact hs.unaborted
  | executes _ _ hx => exact hx.unaborted
  | _ => exact .of_same rfl

theorem Unwinds.unaborted {r : Ref} (h : t.Unwinds m r fs x) : t.Unaborted x.2.1 := by
  induction h with
  | unhandled => exact .ended nofun
  | passes _ _ _ ih => exact ih
  | fails _ _ _ _ ih => exact ih
  | _ => exact .of_same rfl

/-- A step that aborts the thread does so for a known reason, if a failure leaves the machine
    complete. -/
theorem Steps.aborted {s : Thread × Machine} (h : t.Steps host m s) (hh : host.Within Retains)
    (hm : m.Complete) (hl : ∀ f t₁ m₁, t.Attempts host m (.error f, t₁, m₁) → m₁.Complete)
    {e : EngineError} (he : s.1.completion = some (.aborted e)) :
    t.completion = some (.aborted e) ∨ (Fault.fatal e).Explained host Fault.IsOwn := by
  cases h with
  | works ha => exact .inl (ha.unaborted e he)
  | throws ha _ hu => exact .inl (ha.unaborted e (hu.unaborted e he))
  | aborts ha =>
    cases he
    exact .inr (ha.explained hh hm)
  | unmade ha hu =>
    cases he
    exact .inr (materialize_explained (P := fun f _ => f.IsOwn) (ha.explained hh hm) _ _ _
      (hl _ _ _ ha) hu)
  | stuck ha hx hu =>
    cases he
    exact .inr (.own (hu.own ((hl _ _ _ ha).retains (materialize_within.of_eq hx)) rfl))

end Thread

end GreenVm
