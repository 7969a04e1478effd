/-
  Eager linking of native methods.

  * `Machine.Provides m c`: something is registered for every native method of a class.
  * `MethodRef.IsLinked r m`: a method that can be called has something that runs.
  * `Machine.Withholds m f`: a class has just not been loaded, because a class file has a native
    method for which nothing is registered.
  * `Vm.linked_after`: if native methods are linked eagerly, every class that is loaded is provided for
    from then on, every method that is called is linked, and that a native method is missing is only
    ever found out when a class is loaded.
-/
import GreenVm.Proofs.Dispatch
import GreenVm.Proofs.Faults.Runs

namespace GreenVm

variable {host : Host} {id : ThreadId} {f f' : Frame} {m m₁ m₂ : Machine} {r : MethodRef}
  {e : Fault} {message : Option String} {c : Class}

/-! ## Classes that have been linked -/

namespace Sources.Defines

variable {s : Sources} {name : String} {method : Method}

/-- Where native methods are linked eagerly, all that a class declares are registered. -/
theorem contains (h : s.Defines name c) (he : s.eager = true) (hm : method ∈ c.declared.methods)
    (hn : method.isNative = true) :
    s.natives.contains c.name method.name method.descriptor = true := by
  cases h with
  | array => cases hm
  | file _ _ _ _ _ _ _ _ _ _ hl =>
    obtain ⟨declared, -, hnatives, rfl⟩ := Loader.linkClass_ok hl
    exact ClassFile.checkNatives_eq_ok.1 (hnatives he) method hm hn

/-- A method without code is native or abstract. -/
theorem codeless (h : s.Defines name c) (hm : method ∈ c.declared.methods)
    (hc : method.code = none) : method.isNative = true ∨ method.isAbstract = true := by
  cases h with
  | array => cases hm
  | file _ _ _ _ _ _ _ _ _ _ hl =>
    obtain ⟨declared, hd, -, rfl⟩ := Loader.linkClass_ok hl
    obtain ⟨d, -, hl⟩ := ClassFile.linkDeclaration_methods hd method hm
    exact MethodDecl.link_codeless hl hc

end Sources.Defines

namespace Machine

/-- Something is registered for every native method that the class declares. -/
def Provides (m : Machine) (c : Class) : Prop :=
  ∀ method ∈ c.declared.methods, method.isNative = true →
    (m.natives.lookup? c.name method.name method.descriptor).isSome = true

theorem Defines.provides (h : m.Defines c) (he : m.config.eagerNativeLinking = true) :
    m.Provides c := fun _ hm hn => Sources.Defines.contains h he hm hn

end Machine

/-! ## Methods that are called -/

/-- A method that is not abstract has something that runs when it is called: what is registered for it,
    or code. -/
def MethodRef.IsLinked (r : MethodRef) (m : Machine) : Prop :=
  r.method.isAbstract = false →
    (m.natives.lookup? r.owner.name r.method.name r.method.descriptor).isSome = true ∨
      r.method.code.isSome = true

namespace MethodRef

/-- What the class of a method declares natively is registered. -/
theorem isLinked (hd : m.Defines r.owner) (hr : r.IsDeclared)
    (he : m.config.eagerNativeLinking = true) : r.IsLinked m := by
  intro ha
  cases hc : r.method.code with
  | some code => exact .inr rfl
  | none =>
    rcases Sources.Defines.codeless hd hr hc with hn | habstract
    · exact .inl (hd.provides he r.method hr hn)
    · cases ha.symm.trans habstract

/-- A method that is linked is not refused because something is missing. -/
theorem IsLinked.ne_unsatisfiedLink (h : r.IsLinked m) (hr : r.Refused m e) :
    e ≠ .thrown (.symbolic ClassName.unsatisfiedLink message) := by
  obtain ⟨hnone, depth, maxDepth, he⟩ := hr
  unfold ThreadM.callFailure? at he
  split at he
  · next hc =>
    have abstract : r.method.isAbstract = true := by
      by_contra ha
      rcases h (by simpa using ha) with hsome | hcode
      · rw [hnone] at hsome
        cases hsome
      · rw [Option.isNone_iff_eq_none.1 hc] at hcode
        cases hcode
    rw [if_pos abstract] at he
    cases he
    exact (Fault.IsPlain.raise (by decide)).linked message
  · split at he
    · cases he
      exact (Fault.IsPlain.symbolic (by decide)).linked message
    · cases he

end MethodRef

/-! ## What instructions call -/

theorem Exec.resolveMethod_isDeclared {current : Class} {index : Nat}
    (h : outcome (resolveMethod current index) m = (.ok r, m₁)) : r.IsDeclared := by
  have found {member : MemberRef} {m : Machine}
      (h : outcome (methodOf current member) m = (.ok r, m₁)) : r.IsDeclared := by
    obtain ⟨owner, m₂, -, h⟩ := outcome_bind_eq_ok h
    split at h
    · next hr =>
      cases (outcome_pure _ _).symm.trans h
      exact Class.findMethod?_isDeclared hr
    · cases (outcome_throw _ _).symm.trans h
  obtain ⟨k, m₂, -, h⟩ := outcome_bind_eq_ok h
  split at h
  · exact found h
  · exact found h
  · cases (outcome_throw _ _).symm.trans h

theorem specialTarget_isDeclared {current : Class} (h : r.IsDeclared) :
    (specialTarget current r).IsDeclared := by
  unfold specialTarget
  dsimp only
  split
  · exact h
  · split
    · next s _ =>
      cases hm : s.findMethod? r.method.name r.method.descriptor with
      | none => exact h
      | some r => exact Class.findMethod?_isDeclared hm
    · exact h

theorem virtualTarget_isDeclared {receiver : Class} (h : r.IsDeclared) :
    (virtualTarget receiver r).IsDeclared := by
  unfold virtualTarget
  split
  · exact h
  · cases hm : receiver.findMethod? r.method.name r.method.descriptor with
    | none => exact h
    | some r => exact Class.findMethod?_isDeclared hm

/-- A static call calls the method that its reference means. -/
theorem FrameM.invokeStatic_isDeclared {index : Nat}
    (h : outcome (invokeStatic host id index) (f, m) = (.ok (.invoke r), f', m₁)) :
    r.IsDeclared := by
  rw [invokeStatic, outcome_bind_ok (outcome_owner _)] at h
  obtain ⟨resolved, m₂, hr, h⟩ := outcome_frame_bind_eq_ok h
  dsimp only at h
  split at h
  · obtain ⟨_, _, h, -⟩ := outcome_bind_eq_ok h
    cases (outcome_throw _ _).symm.trans h
  · rcases whenReady_ok h with ⟨-, hn⟩ | ⟨m₃, h⟩
    · exact absurd rfl (hn r)
    · cases (outcome_pure _ _).symm.trans h
      exact Exec.resolveMethod_isDeclared hr

namespace Frame

/-- Whatever method an instruction calls, its owner declares it. -/
theorem execute_isDeclared
    (h : outcome (Frame.execute host id) (f, m) = (.ok (.invoke r), f', m₁)) : r.IsDeclared := by
  cases execute_dispatches h with
  | special _ hr => exact specialTarget_isDeclared (Exec.resolveMethod_isDeclared hr)
  | virtual _ hr => exact virtualTarget_isDeclared (Exec.resolveMethod_isDeclared hr)
  | static hi =>
    rw [Frame.execute, outcome_bind_ok (outcome_getFrame _)] at h
    simp only [hi] at h
    exact FrameM.invokeStatic_isDeclared h

/-- An instruction that calls a method keeps the definitions, and that of the method is one of them. -/
theorem execute_defines (hh : host.Within Retains) (hm : m.Grounded) (hf : m.Defines f.owner)
    (h : outcome (Frame.execute host id) (f, m) = (.ok (.invoke r), f', m₁)) :
    Retains m m₁ ∧ m₁.Defines r.owner := by
  have ready {c : Class} {readiness : Readiness} {m m' : Machine}
      (h : outcome (Exec.readyClass host id c) m = (.ok readiness, m')) : Retains m m' :=
    (Exec.readyClass_within (StepsWithin.of_lively hh id).initializes).of_eq h
  have performs := execute_performs host id f m
  rw [h] at performs
  cases performs with
  | acts _ _ hx => cases hx _ rfl
  | uses _ _ _ _ hx => cases hx _ rfl
  | creates _ _ _ hx => cases hx _ rfl
  | calls _ hl hr => exact ⟨hl.within, hr hm hf⟩
  | callsStatic hc hr =>
    have kept := ready hr
    exact ⟨trans_of Retains hc.change.within kept, kept.defines (hc.defines hm hf)⟩

/-- Where native methods are linked eagerly, whatever an instruction calls is linked. -/
theorem execute_isLinked (hh : host.Within Retains) (he : m.config.eagerNativeLinking = true)
    (hm : m.Grounded) (hf : m.Defines f.owner)
    (h : outcome (Frame.execute host id) (f, m) = (.ok (.invoke r), f', m₁)) : r.IsLinked m₁ := by
  obtain ⟨kept, hd⟩ := execute_defines hh hm hf h
  exact MethodRef.isLinked hd (execute_isDeclared h) (kept.config_eq ▸ he)

end Frame

theorem MethodRef.IsLinked.retains (h : r.IsLinked m) (hr : Retains m m₁) : r.IsLinked m₁ :=
  fun ha => (h ha).imp_left fun hsome => hr.natives _ hsome

/-- Then no call is refused because something is missing. -/
theorem Thread.Refused.ne_unsatisfiedLink {t : Thread} (h : t.Refused host m e)
    (hh : host.Within Retains) (he : m.config.eagerNativeLinking = true) (hm : m.Grounded)
    (ht : t.Grounded m) : e ≠ .thrown (.symbolic ClassName.unsatisfiedLink message) := by
  obtain ⟨hf, hx, hr, refused⟩ := h
  have howner := ht.frames _ (hf ▸ List.mem_cons_self)
  exact ((Frame.execute_isLinked hh he hm howner hx).retains hr).ne_unsatisfiedLink refused

/-! ## Classes that cannot be loaded -/

/-- The loading of a class has just failed with the fault, because a class file has a native method for
    which nothing is registered. -/
def Machine.Withholds (m : Machine) (e : Fault) : Prop :=
  ∃ name loaded file d, outcome (Loader.load (Exec.sources m) [] name) loaded = (.error e, m.loaded) ∧
    (Exec.sources m).Lacks file d ∧ e = .nativeMissing file.name d.name d.descriptor

theorem Machine.Raises.withholds
    (h : m.Raises (.thrown (.symbolic ClassName.unsatisfiedLink message))) :
    m.Withholds (.thrown (.symbolic ClassName.unsatisfiedLink message)) := by
  generalize hf : Fault.thrown (.symbolic ClassName.unsatisfiedLink message) = e at *
  cases h with
  | plain h => exact absurd hf.symm (h.linked message)
  | loading h =>
    have refuses := Loader.load_own _ _ _ _ _ _ h
    rw [← hf] at refuses
    obtain ⟨file, d, lacks, e⟩ := refuses.lacks
    exact ⟨_, _, file, d, h, lacks, hf.symm.trans e⟩

namespace Vm

variable {vm : Vm} {lost : List (String × ThreadId)} {t : Thread}

/-! ## Between turns -/

/-- Whatever happens, the definitions are kept. -/
theorem Initializing.retains_after (hh : host.Within KeepsInit) (h : Initializing lost vm)
    (as : List Action) : Retains vm.machine (vm.after host as).machine := by
  induction as generalizing vm lost with
  | nil => exact .refl _
  | cons a as ih =>
    obtain ⟨_, _, _, h', hpath⟩ := h.act hh a
    exact hpath.retains.trans (ih h')

/-- The thread that has the next turn, and the machine it finds. -/
theorem Sound.next (h : Sound host vm) (hn : vm.next? = some (t, m)) :
    m.Complete ∧ t.Grounded m ∧ m.config = vm.machine.config := by
  obtain ⟨ht, rfl⟩ := mem_of_next? hn
  obtain ⟨lost, hi⟩ := h.choose.initializing
  exact ⟨h.choose.complete, (hi.threads t ht).1,
    (choose_eased wakesWithin_keepsInit vm).2.config_eq⟩

/-- What it means for a virtual machine that native methods have been linked eagerly. -/
structure Linked (host : Host) (vm : Vm) : Prop where
  /-- A class that is loaded is provided for, whatever happens next. -/
  provided : ∀ name c, vm.machine.loaded.get? name = some c → ∀ as,
    (vm.after host as).machine.Provides c
  /-- What an instruction calls next is linked. -/
  called : ∀ t m f rest r f' m', vm.next? = some (t, m) → t.frames = f :: rest →
    outcome (Frame.execute host t.id) (f, m) = (.ok (.invoke r), f', m') → r.IsLinked m'
  /-- That something is missing is thrown next only if a function of the embedder throws it, or a class
      cannot be loaded. -/
  thrown : ∀ t m message t₁ m₁, vm.next? = some (t, m) →
    outcome (ThreadM.tryStep host) (t, m) =
        (.error (.thrown (.symbolic ClassName.unsatisfiedLink message)), t₁, m₁) →
      host.Raises (.thrown (.symbolic ClassName.unsatisfiedLink message)) ∨
        m₁.Withholds (.thrown (.symbolic ClassName.unsatisfiedLink message))
  /-- It keeps a thread from being started only if a class cannot be loaded. -/
  spawn : ∀ className methodName descriptor args message,
    (vm.spawn className methodName descriptor args).1 =
        .error (.thrown (.symbolic ClassName.unsatisfiedLink message)) →
      (vm.spawn className methodName descriptor args).2.machine.Withholds
        (.thrown (.symbolic ClassName.unsatisfiedLink message))
  /-- And so with a program. -/
  startMain : ∀ mainClass args message,
    (vm.startMain mainClass args).1 =
        .error (.thrown (.symbolic ClassName.unsatisfiedLink message)) →
      (vm.startMain mainClass args).2.machine.Withholds
        (.thrown (.symbolic ClassName.unsatisfiedLink message))

theorem Sound.linked (hh : host.Within KeepsInit) (h : Sound host vm)
    (he : vm.machine.config.eagerNativeLinking = true) : Linked host vm where
  provided name c hc as := by
    obtain ⟨lost, hi⟩ := h.initializing
    have kept := hi.retains_after hh as
    exact (kept.defines (hi.machine.of_loaded hc)).provides (kept.config_eq ▸ he)
  called t m f rest r f' m' hn hf hx := by
    obtain ⟨complete, ground, hconfig⟩ := h.next hn
    exact Frame.execute_isLinked (hh.mono fun _ _ h => h.toRetains) (hconfig ▸ he) complete.grounded
      (ground.frames f (hf ▸ List.mem_cons_self)) hx
  thrown t m message t₁ m₁ hn hx := by
    obtain ⟨complete, ground, hconfig⟩ := h.next hn
    have retains := hh.mono fun _ _ h => h.toRetains
    have attempts := ThreadM.tryStep_attempts host t m
    rw [hx] at attempts
    rcases attempts.fails retains complete with explained | refused
    · cases explained with
      | own h => exact .inr h.withholds
      | raised h => exact .inl h
    · exact absurd rfl
        (refused.ne_unsatisfiedLink retains (hconfig ▸ he) complete.grounded ground)
  spawn _ _ _ _ _ hx := (spawn_own hx).withholds
  startMain _ _ _ hx := (startMain_own hx).withholds

/-- **Eager linking of native methods.**  Whatever is on the class path, and whatever has been
    registered, loaded and run since a virtual machine was booted that links native methods eagerly:
    every native method of a class that is loaded has a function from then on, so that no call is
    refused because one is missing.  That one is missing is only ever found out when a class is
    loaded. -/
theorem linked_after (hh : host.Within KeepsInit) (config : Config)
    (he : config.eagerNativeLinking = true) (classPath : Table String ClassFile) (wallClock : Nat)
    (as : List Action) : Linked host ((boot config classPath wallClock).after host as) := by
  have kept := (Initializing.boot config classPath wallClock).retains_after hh as
  exact ((Sound.boot config classPath wallClock).after hh as).linked hh (kept.config_eq ▸ he)

end Vm

/-! ## A program -/

/-- A class `B` with a native method `f`. -/
def promising : ClassFile :=
  { ClassFile.ofClass "B" with
    methods := [
      { flags := .ofList [.staticMember, .native], name := "f", descriptor := "()V", code := none }] }

/-- A class `A` whose main method calls `B.f`. -/
def relying : ClassFile :=
  { ClassFile.ofClass "A" with
    pool := [.method ⟨"B", "f", "()V"⟩]
    methods := [
      { flags := .ofList [.staticMember], name := "main", descriptor := "()V"
        code := some (.ofList 0 0 [.invokeStatic 1, .leave none]) }] }

namespace Vm

/-- A virtual machine that knows both classes. -/
def ofRelying : Vm := boot {} (.ofList [("A", relying), ("B", promising)]) 0

/-- If nothing is registered, the call fails because `B` cannot be loaded.  Otherwise the class is
    loaded, and provided for. -/
theorem linked_after_call :
    Host.idle.Within KeepsInit ∧ ({} : Config).eagerNativeLinking = true ∧
    (∃ t m t₁ m₁, (ofRelying.after .idle [.spawn "A" "main" "()V" [], .turn]).next? = some (t, m) ∧
      outcome (ThreadM.tryStep .idle) (t, m) = (.error (.nativeMissing "B" "f" "()V"), t₁, m₁) ∧
      m₁.Withholds (.nativeMissing "B" "f" "()V")) ∧
    ∃ c, (ofRelying.after .idle [.register "B" "f" "()V" "f", .spawn "A" "main" "()V" [], .turn,
        .turn]).machine.loaded.get? "B" = some c ∧
      (c.declared.methods.any fun method => method.isNative) = true ∧
      ∀ as, (Vm.after .idle (ofRelying.after .idle [.register "B" "f" "()V" "f",
        .spawn "A" "main" "()V" [], .turn, .turn]) as).machine.Provides c := by
  have links (as : List Action) : Linked .idle (ofRelying.after .idle as) :=
    linked_after Host.idle_within {} rfl _ _ as
  refine ⟨Host.idle_within, rfl, ?_, ?_⟩
  · have fails : (ofRelying.after .idle [.spawn "A" "main" "()V" [], .turn]).next?.any fun p =>
        (outcome (ThreadM.tryStep .idle) p).1 = .error (.nativeMissing "B" "f" "()V") := by
      decide +kernel
    obtain ⟨⟨t, m⟩, hn, fails⟩ := (Option.any_eq_true _ _).1 fails
    have hx : outcome (ThreadM.tryStep .idle) (t, m) = (.error (.nativeMissing "B" "f" "()V"), _) :=
      Prod.ext (of_decide_eq_true fails) rfl
    rcases (links _).thrown t m _ _ _ hn hx with ⟨_, _, _, h⟩ | h
    · cases h
    · exact ⟨t, m, _, _, hn, hx, h⟩
  · have loads : ((ofRelying.after .idle [.register "B" "f" "()V" "f", .spawn "A" "main" "()V" [],
        .turn, .turn]).machine.loaded.get? "B").any fun c =>
          c.declared.methods.any fun method => method.isNative := by
      decide +kernel
    obtain ⟨c, hc, native⟩ := (Option.any_eq_true _ _).1 loads
    exact ⟨c, hc, native, (links _).provided "B" c hc⟩

end Vm

end GreenVm
