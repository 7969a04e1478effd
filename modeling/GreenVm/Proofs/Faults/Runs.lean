/-
  Faults over a run of a virtual machine.

  * `Vm.Sound host vm`: between turns, the built-in classes can be loaded, and threads have aborted for
    known reasons only.  Every action keeps it so.
  * `Vm.Materializes host vm`: faults that the machine raises itself become objects when they have to,
    and no thread has aborted because one could not be made.
  * `Vm.materializes_after`: so it is in every state that a virtual machine can reach.
-/
import GreenVm.Proofs.Faults.Steps
import GreenVm.Proofs.Initialization.Runs

namespace GreenVm

open Exec

variable {host : Host} {vm vm' : Vm} {lost : List (String × ThreadId)} {t : Thread} {e : Fault}

/-- A thread that has aborted has done so for a known reason. -/
def Thread.AbortsRightly (host : Host) (t : Thread) : Prop :=
  ∀ e, t.completion = some (.aborted e) → (Fault.fatal e).Explained host Fault.IsOwn

theorem Thread.AbortsRightly.of_same {u : Thread} (h : t.AbortsRightly host)
    (hc : u.completion = t.completion) : u.AbortsRightly host := fun e he => h e (hc.symm.trans he)

theorem Thread.abortsRightly_starting (id : ThreadId) (name : String) (r : MethodRef)
    (args : List Value) : (Thread.starting id name r args).AbortsRightly host := fun e he => by
  cases he

/-! ## Starting threads -/

namespace Vm

variable {className methodName descriptor mainClass : String} {args : List Value}

theorem prepareThread_own : FailsOwn (prepareThread className methodName descriptor args) := by
  have ready (r : MethodRef) : FailsOwn (do
      let id ← issueThreadId
      let name := rootThreadName id
      discard <| newThreadObject id name
      return .starting id name r args : Exec Thread) :=
    .bind modifyGet_failsWith fun _ => .bind (.discard newThreadObject_own) fun _ => .pure _
  refine .bind loadClass_own fun c => ?_
  split
  · dsimp only
    split
    · refine .bind (throw_own (.raise (by decide))) fun _ => ?_
      split
      exacts [.bind (throw_own (.fatal nofun)) fun _ => ready _, ready _]
    · split
      exacts [.bind (throw_own (.fatal nofun)) fun _ => ready _, ready _]
  · exact throw_own (.raise (by decide))

theorem argumentArray_own {args : List String} : FailsOwn (argumentArray args) :=
  .bind newArray_own fun _ => .bind (.forM fun _ => .bind newString_own fun _ => arrayStore_own)
    fun _ => .pure _

theorem spawn_own (h : (vm.spawn className methodName descriptor args).1 = .error e) :
    (vm.spawn className methodName descriptor args).2.machine.Raises e := by
  rw [spawn, withMachine_eq] at h ⊢
  split at h
  · cases h
  · next hx =>
    cases h
    obtain ⟨hf, rfl⟩ := Prod.mk.inj hx
    exact prepareThread_own _ _ _ (Prod.ext hf rfl)

theorem startMain_own {args : List String} (h : (vm.startMain mainClass args).1 = .error e) :
    (vm.startMain mainClass args).2.machine.Raises e := by
  rw [startMain, withMachine_eq] at h ⊢
  split at h
  · exact spawn_own h
  · next hx =>
    cases h
    obtain ⟨hf, rfl⟩ := Prod.mk.inj hx
    exact argumentArray_own _ _ _ (Prod.ext hf rfl)

/-! ## Between turns -/

/-- Between turns, the built-in classes can be loaded, and threads have aborted for known reasons. -/
structure Sound (host : Host) (vm : Vm) : Prop where
  initializing : ∃ lost, Initializing lost vm
  equipped : vm.machine.Equipped
  threads : ∀ t ∈ vm.threads, t.AbortsRightly host

/-- A step leaves a grounded machine. -/
theorem Initializing.grounded_step (hh : host.Within KeepsInit) (h : Initializing lost vm)
    {index : Nat} (ht : vm.threads[index]? = some t) (hr : t.status = .runnable) :
    ((t.step host).run vm.machine).2.Grounded := by
  obtain ⟨others, hw⟩ := h.share ht
  have ground := (h.threads t (Array.mem_of_getElem? ht)).1
  obtain ⟨lost', hc, -⟩ := t.step_stepped hh h.machine ground hw hr
  exact hc.grounded_machine h.machine

/-- A unit of work that has failed leaves the definitions as they were. -/
theorem Initializing.retains_of_fails (hh : host.Within KeepsInit) (h : Initializing lost vm)
    (ht : t ∈ vm.threads) {t₁ : Thread} {m₁ : Machine}
    (ha : t.Attempts host vm.machine (.error e, t₁, m₁)) : Retains vm.machine m₁ := by
  obtain ⟨index, hindex⟩ := Array.getElem?_of_mem ht
  obtain ⟨others, hw⟩ := h.share hindex
  cases ha.attempted hh h.machine ⟨rfl, .refl hw, (h.threads t ht).1⟩ with
  | fails raised => exact raised.tracked.retains
  | leaves raised => exact raised.tracked.retains

namespace Sound

theorem complete (h : Sound host vm) : vm.machine.Complete :=
  h.initializing.elim fun _ hi => ⟨hi.machine, h.equipped⟩

/-- After a unit of work that has failed the built-in classes can still be loaded. -/
theorem complete_of_fails (hh : host.Within KeepsInit) (h : Sound host vm) (ht : t ∈ vm.threads)
    {t₁ : Thread} {m₁ : Machine} (ha : t.Attempts host vm.machine (.error e, t₁, m₁)) :
    m₁.Complete :=
  h.initializing.elim fun _ hi => h.complete.retains (hi.retains_of_fails hh ht ha)

theorem eased (h : Sound host vm) (he : Eased vm.threads vm'.threads)
    (hk : KeepsInit vm.machine vm'.machine) : Sound host vm' where
  initializing := h.initializing.imp fun _ hi => hi.eased he hk
  equipped := hk.toRetains.equipped h.equipped
  threads u hu := by
    obtain ⟨j, hj⟩ := Array.getElem?_of_mem hu
    obtain ⟨t, ht, hu⟩ := he.get? hj
    exact (h.threads t (Array.mem_of_getElem? ht)).of_same hu.completion_eq

theorem choose (h : Sound host vm) : Sound host vm.choose.2 :=
  h.eased (choose_eased wakesWithin_keepsInit vm).1 (choose_eased wakesWithin_keepsInit vm).2

/-- A thread whose step aborts it has a reason. -/
theorem step (hh : host.Within KeepsInit) (h : Sound host vm) (ht : t ∈ vm.threads)
    (hr : t.status = .runnable) : ((t.step host).run vm.machine).1.AbortsRightly host := by
  intro e he
  rcases (t.step_steps host hr vm.machine).aborted (hh.mono fun _ _ h => h.toRetains) h.complete
    (fun f t₁ m₁ ha => h.complete_of_fails hh ht ha) he with he | he
  · exact h.threads t ht e he
  · exact he

/-- The threads that are there after the turn of a thread have aborted for known reasons. -/
theorem runThread_threads (hh : host.Within KeepsInit) (h : Sound host vm) {index : Nat}
    (ht : vm.threads[index]? = some t) (hr : t.status = .runnable) :
    ∀ u ∈ (vm.runThread host index).threads, u.AbortsRightly host := by
  intro u hu
  have stepped := h.step hh (Array.mem_of_getElem? ht) hr
  obtain ⟨j, hj⟩ := Array.getElem?_of_mem hu
  rcases runThread_get? host ht hj with ⟨-, v, hv, hvu⟩ | ⟨-, v, hv, huv⟩ | hnew
  · exact (h.threads v (Array.mem_of_getElem? hv)).of_same hvu.completion_eq
  · have hv := stepped.of_same hv.completion_eq
    rcases huv with rfl | ⟨_, b, -, -, rfl⟩
    · exact hv
    · exact hv.of_same (v.suspended_same b).1
  · obtain ⟨lost, hi⟩ := h.initializing
    obtain ⟨r, args, e, -⟩ := (hi.grounded_step hh ht hr).started u hnew
    exact (Thread.abortsRightly_starting _ _ _ _).of_same (congrArg Thread.completion e)

/-- Every action keeps it so. -/
theorem act (hh : host.Within KeepsInit) (h : Sound host vm) (a : Action) :
    Sound host (vm.act host a) := by
  obtain ⟨lost, hi⟩ := h.initializing
  obtain ⟨lost', id, es, hi', hpath⟩ := hi.act hh a
  refine ⟨⟨_, hi'⟩, hpath.retains.equipped h.equipped, ?_⟩
  by_cases ha : a = .turn
  · subst ha
    show ∀ t ∈ (vm.turn host).2.threads, t.AbortsRightly host
    rcases turn_cases host vm with ⟨-, e | e⟩ | ⟨index, t, -, ht, hr, e⟩ <;> rw [e]
    · exact h.threads
    · exact h.choose.threads
    · exact h.choose.runThread_threads hh ht hr
  · obtain ⟨machine, new, e, hnew⟩ := act_appends host vm ha
    rw [e]
    intro u hu
    rcases Array.mem_append.1 hu with hu | hu
    · exact h.threads u hu
    · obtain ⟨id, name, r, args, rfl, -⟩ := hnew u hu
      exact Thread.abortsRightly_starting _ _ _ _

theorem after (hh : host.Within KeepsInit) (h : Sound host vm) (as : List Action) :
    Sound host (vm.after host as) := by
  induction as generalizing vm with
  | nil => exact h
  | cons a as ih => exact ih (h.act hh a)

theorem boot (config : Config) (classPath : Table String ClassFile) (wallClock : Nat) :
    Sound host (.boot config classPath wallClock) where
  initializing := ⟨[], .boot config classPath wallClock⟩
  equipped _ h := h
  threads t ht := by simp [Vm.boot] at ht

end Sound

/-! ## Making throwables -/

/-- Faults that the machine raises itself become objects when they have to, and no thread has aborted
    because one could not be made. -/
structure Materializes (host : Host) (vm : Vm) : Prop where
  /-- A throwable of a built-in class becomes an object that reports it, at any point of a step that
      comes next. -/
  builtIn : ∀ m, Retains vm.machine m → ∀ name ∈ ClassName.builtInThrowables, ∀ message,
    ∃ r m', outcome (materialize (.symbolic name message)) m = (.ok r, m') ∧
      m'.heap.thrownChain r = [{ className := name, message }]
  /-- So does what the next step throws, unless its class is not built in and a function of the
      embedder raises it. -/
  thrown : ∀ t m e t₁ m₁, vm.next? = some (t, m) →
    outcome (ThreadM.tryStep host) (t, m) = (.error (.thrown e), t₁, m₁) →
      (∃ r m', outcome (materialize e) m₁ = (.ok r, m')) ∨
        ∃ name message, e = .symbolic name message ∧ name ∉ ClassName.builtInThrowables ∧
          host.Raises (.thrown e)
  /-- So does what keeps a thread from being started. -/
  spawn : ∀ className methodName descriptor args e,
    (vm.spawn className methodName descriptor args).1 = .error (.thrown e) →
      ∃ r m', outcome (materialize e) (vm.spawn className methodName descriptor args).2.machine =
        (.ok r, m')
  /-- And what keeps a program from being started. -/
  startMain : ∀ mainClass args e, (vm.startMain mainClass args).1 = .error (.thrown e) →
    ∃ r m', outcome (materialize e) (vm.startMain mainClass args).2.machine = (.ok r, m')
  /-- A thread that has aborted because an object could not be made has done so because a function of
      the embedder raises that, or a throwable whose class is not built in. -/
  aborted : ∀ t ∈ vm.threads, ∀ name reason,
    t.completion = some (.aborted (.materialize name reason)) →
      host.Raises (.fatal (.materialize name reason)) ∨ (name ∉ ClassName.builtInThrowables ∧
        ∃ message, host.Raises (.thrown (.symbolic name message)))

theorem Sound.materializes (hh : host.Within KeepsInit) (h : Sound host vm) :
    Materializes host vm where
  builtIn m hr name hn message := materialize_builtIn (h.complete.retains hr) hn message
  thrown t m e t₁ m₁ hn hx := by
    obtain ⟨mem, rfl⟩ := mem_of_next? hn
    have ha := ThreadM.tryStep_attempts host t vm.choose.2.machine
    rw [hx] at ha
    rcases exists_materialize (h.choose.complete_of_fails hh mem ha) e with hm | ⟨name, message, rfl, hb⟩
    · exact .inl hm
    · have explained := ha.explained (hh.mono fun _ _ h => h.toRetains) h.choose.complete
      exact .inr ⟨name, message, rfl, hb, explained.raises hb⟩
  spawn className methodName descriptor args e he := by
    have complete := (h.act hh (.spawn className methodName descriptor args)).complete
    exact materialize_own complete (spawn_own he).own
  startMain mainClass args e he := by
    have complete := (h.act hh (.startMain mainClass args)).complete
    exact materialize_own complete (startMain_own he).own
  aborted t ht name reason hc := (h.threads t ht _ hc).materialize

/-- **The machine can make an object of everything that it raises itself**, in every state that it can
    reach, whichever classes are there, could not be loaded or are being initialized. -/
theorem materializes_after (hh : host.Within KeepsInit) (config : Config)
    (classPath : Table String ClassFile) (wallClock : Nat) (as : List Action) :
    Materializes host ((boot config classPath wallClock).after host as) :=
  ((Sound.boot config classPath wallClock).after hh as).materializes hh

/-- What an initializer throws, while its class is being initialized. -/
theorem materializes_after_null :
    Host.idle.Within KeepsInit ∧ ∃ t m t₁ m₁ r m',
      ((ofInitializer [] (some (.ofList 1 0 [.literal .null, .throwTop]))).after .idle
        [.spawn "A" "main" "()V" [], .turn, .turn]).next? = some (t, m) ∧
      outcome (ThreadM.tryStep .idle) (t, m) =
        (.error (.thrown (.symbolic ClassName.nullPointer none)), t₁, m₁) ∧
      m₁.progress "A" = .inProgress t.id ∧
      outcome (materialize (.symbolic ClassName.nullPointer none)) m₁ = (.ok r, m') ∧
      Materializes .idle ((ofInitializer [] (some (.ofList 1 0 [.literal .null, .throwTop]))).after
        .idle [.spawn "A" "main" "()V" [], .turn, .turn]) := by
  generalize hvm : (ofInitializer [] (some (.ofList 1 0 [.literal .null, .throwTop]))).after .idle
    [.spawn "A" "main" "()V" [], .turn, .turn] = vm
  have raises : vm.next?.any fun p =>
      let x := outcome (ThreadM.tryStep .idle) p
      x.1 = .error (.thrown (.symbolic ClassName.nullPointer none)) ∧
        x.2.2.progress "A" = .inProgress p.1.id := by
    rw [← hvm]
    decide +kernel
  obtain ⟨⟨t, m⟩, hn, raises⟩ := (Option.any_eq_true _ _).1 raises
  obtain ⟨hx, hp⟩ := of_decide_eq_true raises
  have hx : outcome (ThreadM.tryStep .idle) (t, m) =
    (.error (.thrown (.symbolic ClassName.nullPointer none)), _) := Prod.ext hx rfl
  have makes : Materializes .idle vm := hvm ▸ materializes_after Host.idle_within _ _ _ _
  rcases makes.thrown t m _ _ _ hn hx with ⟨r, m', hm⟩ | ⟨name, _, h, hb, -⟩
  · exact ⟨Host.idle_within, t, m, _, _, r, m', hn, hx, hp, hm, makes⟩
  · cases h
    exact absurd (by simp) hb

end Vm

end GreenVm
