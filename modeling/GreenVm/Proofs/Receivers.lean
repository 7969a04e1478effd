/-
  The receivers of calls.

  * `Frame.Receives f m m' r o`: what the instruction of a frame has found out about the class of the
    receiver `o` when it calls the method `r`.
  * `Frame.Expects f m c`: an object of the class `c` is what the reference of the call is for.
  * `Vm.receives_after`: every call on an object has one, which is passed to the method, and whose class
    may stand where that of the method is expected, as long as the reference of the call is for it.
    Only a call through an interface is refused for the class of the receiver.
-/
import GreenVm.Proofs.Fairness
import GreenVm.Proofs.Initialization.Runs
import GreenVm.Proofs.Nesting
import GreenVm.Proofs.Subtyping

namespace GreenVm

/-! ## The class of a receiver -/

namespace Class.Covers

variable {P : Class → Prop} {c k : Class}

/-- What holds above a class holds above its superclasses. -/
theorem of_lineage (h : Covers P c) (hk : k ∈ c.lineage) : Covers P k :=
  lineage_of (P := Covers P) (fun _ _ => superClass) h k hk

end Class.Covers

namespace Sources.Defines

variable {s : Sources} {c current : Class} {resolved : MethodRef}

/-- What a special call runs is declared above the class of the receiver, if this is below the class
    whose code makes the call and has the method of the reference. -/
theorem assignable_specialTarget (h : s.Defines c.name c) (hcur : s.Defines current.name current)
    (hb : c.isBelow current.name = true) (hr : c.isAssignableTo resolved.owner = true) :
    c.isAssignableTo (specialTarget current resolved).owner = true := by
  unfold specialTarget
  dsimp only
  split
  · exact hr
  · split
    · next d hd =>
      cases hm : d.findMethod? resolved.method.name resolved.method.descriptor with
      | none => exact hr
      | some r => exact ((h.covers.of_lineage (h.mem_lineage hcur hb)).superClass hd).findMethod? hm
    · exact hr

end Sources.Defines

namespace Frame

variable {f : Frame} {m m' : Machine} {r : MethodRef} {n : Nat} {o : Ref}

/-- What the instruction of a frame has found out about the class of the receiver `o` of a call, which
    lies beneath `n` other arguments. -/
inductive Receives (f : Frame) (m m' : Machine) (r : MethodRef) (n : Nat) (o : Ref) : Prop
  /-- It may stand where the class of the method is expected, which has been selected by the name and
      the descriptor of the reference. -/
  | fits {index : Nat} {resolved : MethodRef} {object : Object}
      (hi : f.code.instructions[f.pc]? = some (.invokeVirtual index) ∨
        f.code.instructions[f.pc]? = some (.invokeInterface index))
      (hr : outcome (Exec.resolveMethod f.owner index) m = (.ok resolved, m'))
      (hn : resolved.method.argumentCount = n + 1) (ho : m'.heap.get? o = some object)
      (hc : object.type.isAssignableTo r.owner = true)
  /-- Nothing, for the method is that of the reference itself, as it is private, or as the receiver has
      none of that name and descriptor. -/
  | named {index : Nat} {object : Object}
      (hi : f.code.instructions[f.pc]? = some (.invokeVirtual index) ∨
        f.code.instructions[f.pc]? = some (.invokeInterface index))
      (hr : outcome (Exec.resolveMethod f.owner index) m = (.ok r, m'))
      (hn : r.method.argumentCount = n + 1) (ho : m'.heap.get? o = some object)
      (hclass : r.owner.isInterface = false)
      (hfind : r.method.isPrivate = true ∨
        object.type.findMethod? r.method.name r.method.descriptor = none)
  /-- Nothing, for the call is a special one. -/
  | special {index : Nat} {resolved : MethodRef}
      (hi : f.code.instructions[f.pc]? = some (.invokeSpecial index))
      (hr : outcome (Exec.resolveMethod f.owner index) m = (.ok resolved, m'))
      (he : r = specialTarget f.owner resolved) (hn : r.method.argumentCount = n + 1)

/-- An object of a class is what the reference of a call is for: it has the method of the reference,
    and it has the class whose code runs if this is a special call. -/
def Expects (f : Frame) (m : Machine) (c : Class) : Prop :=
  ∀ index resolved m', outcome (Exec.resolveMethod f.owner index) m = (.ok resolved, m') →
    (f.code.instructions[f.pc]? = some (.invokeVirtual index) →
      c.isAssignableTo resolved.owner = true) ∧
    (f.code.instructions[f.pc]? = some (.invokeInterface index) →
      c.isAssignableTo resolved.owner = true) ∧
    (f.code.instructions[f.pc]? = some (.invokeSpecial index) →
      c.isAssignableTo resolved.owner = true ∧ c.isBelow f.owner.name = true)

/-- **A receiver that the reference is for has a class that may stand where that of the method is
    expected.** -/
theorem Receives.assignable {object : Object} (h : f.Receives m m' r n o) (hg : m'.Grounded)
    (hf : m'.Defines f.owner) (ho : m'.heap.get? o = some object) (he : f.Expects m object.type) :
    object.type.isAssignableTo r.owner = true := by
  cases h with
  | fits _ _ _ ho' hc =>
    cases ho.symm.trans ho'
    exact hc
  | named hi hr =>
    rcases hi with hi | hi
    · exact (he _ _ _ hr).1 hi
    · exact (he _ _ _ hr).2.1 hi
  | special hi hr e =>
    obtain ⟨hc, hb⟩ := (he _ _ _ hr).2.2 hi
    rw [e]
    exact (hg.types o object ho).assignable_specialTarget hf hb hc

/-- Coming to a call on an object takes no definition back. -/
theorem Dispatches.retains (hd : f.Dispatches m m' r) (hs : r.method.isStatic = false) :
    Retains m m' := by
  cases hd with
  | static _ hstatic => cases hs.symm.trans hstatic
  | special _ hr => exact Exec.resolveMethod_within.of_eq hr
  | virtual _ hr => exact Exec.resolveMethod_within.of_eq hr

/-- A call on an object has a receiver, and has found out about its class what it could. -/
theorem Dispatches.receives (hd : f.Dispatches m m' r) (hg : m'.Grounded)
    (hs : r.method.isStatic = false) :
    ∃ n o, f.stack.peek n = .ok (.ofRef o) ∧ f.Receives m m' r n o := by
  cases hd with
  | static _ hstatic => cases hs.symm.trans hstatic
  | @special index n resolved o hi hr hn ho => exact ⟨n, o, ho, .special hi hr rfl hn⟩
  | @virtual index n resolved o object hi hr _ hn ho hobject hc =>
    refine ⟨n, o, ho, ?_⟩
    have named (e : virtualTarget object.type resolved = resolved)
        (hfind : resolved.method.isPrivate = true ∨
          object.type.findMethod? resolved.method.name resolved.method.descriptor = none) :
        f.Receives m m' (virtualTarget object.type resolved) n o := by
      rw [e]
      cases hclass : resolved.owner.isInterface with
      | true => exact .fits hi hr hn hobject (hc hclass)
      | false => exact .named hi hr hn hobject hclass hfind
    by_cases hp : resolved.method.isPrivate = true
    · exact named (if_pos hp) (.inl hp)
    · cases hm : object.type.findMethod? resolved.method.name resolved.method.descriptor with
      | none => exact named (by rw [virtualTarget, if_neg hp, hm]; rfl) (.inr hm)
      | some r =>
        have e : virtualTarget object.type resolved = r := by rw [virtualTarget, if_neg hp, hm]; rfl
        rw [e]
        exact .fits hi hr hn hobject ((hg.types o object hobject).assignable_findMethod? hm)

end Frame

/-! ## What the method gets -/

/-- Whatever takes the arguments of a call off a stack passes the method the receiver: to a native as
    such, and to bytecode in the first local variable. -/
def MethodRef.CallsOn (r : MethodRef) (s : OperandStack) (o : Ref) : Prop :=
  ∀ args s', s.popArgs r.method.argumentCount = .ok (args, s') →
    (∃ others, r.splitReceiver args = .ok (some o, others)) ∧
      ∀ g, Frame.enter r args .method = .ok g → g.locals[0]? = some (.ofRef o)

theorem MethodRef.callsOn {r : MethodRef} {s : OperandStack} {n : Nat} {o : Ref}
    (hs : r.method.isStatic = false) (hn : r.method.argumentCount = n + 1)
    (ho : s.peek n = .ok (.ofRef o)) : r.CallsOn s o := by
  intro args s' ha
  rw [hn] at ha
  obtain ⟨others, rfl⟩ := OperandStack.popArgs_cons ha ho
  refine ⟨⟨others, by simp [splitReceiver, hs, bind, Except.bind]; rfl⟩, fun g hg => ?_⟩
  obtain ⟨-, -, -, locals, hl⟩ := Frame.enter_ok hg
  exact Frame.layOut_first hl

/-! ## Refusals -/

theorem FrameM.invokeVirtual_refuses {f : Frame} {m m₁ : Machine} {index n : Nat}
    {resolved : MethodRef} {o : Ref} {object : Object}
    (hr : outcome (Exec.resolveMethod f.owner index) m = (.ok resolved, m₁))
    (hs : resolved.method.isStatic = false) (hn : resolved.method.argumentCount = n + 1)
    (ho : f.stack.peek n = .ok (.ofRef o)) (hobject : m₁.heap.get? o = some object)
    (hi : resolved.owner.isInterface = true)
    (hc : object.type.isAssignableTo resolved.owner = false) :
    outcome (invokeVirtual index) (f, m) =
      (.error (.interfaceNotImplemented object.type.name resolved.owner.name), f, m₁) := by
  rw [invokeVirtual, outcome_bind_ok (outcome_owner _), outcome_frame_bind_ok hr]
  simp only [hs, Bool.false_eq_true, if_false, hn]
  rw [outcome_bind_ok (outcome_receiver ho m₁), outcome_frame_bind_ok (Exec.outcome_typeOf hobject)]
  simp only [hi, hc, Bool.not_false, Bool.and_self, if_true]
  rw [outcome_bind_error (outcome_throw _ _)]

/-- A unit of work in which an instruction fails comes to nothing more. -/
theorem ThreadM.outcome_tryStep_error {host : Host} {t : Thread} {m m₁ : Machine} {f f' : Frame}
    {rest : List Frame} {e : Fault} (hr : t.reacquire = none) (hf : t.frames = f :: rest)
    (hx : outcome (Frame.execute host t.id) (f, m) = (.error e, f', m₁)) :
    outcome (tryStep host) (t, m) = (.error e, { t with frames := f' :: rest }, m₁) := by
  have hi : outcome (instruction host t.id) (t, m) = _ := outcome_onTop _ hf m
  rw [outcome_bind_error hx] at hi
  unfold tryStep
  rw [outcome_bind_ok (outcome_getThread _)]
  simp only [hr, hf]
  unfold runInstruction
  rw [outcome_bind_ok (outcome_threadId _), outcome_bind_error hi]
  simp only [hr]

namespace Vm

variable {host : Host} {i : Nat} {t : Thread} {m : Machine} {f : Frame} {rest : List Frame}

/-- **Calls on objects.**  Whatever has happened since a virtual machine was booted: if the instruction
    that a thread executes next calls a method that is not static, then there is a receiver, which is
    passed to the method, and whose class may stand where that of the method is expected, as long as it
    is one that the reference of the call is for.  For a call through an interface, and for one whose
    method the receiver has, the instruction sees to that itself.  A call through an interface that the
    receiver does not implement is refused with an `IncompatibleClassChangeError`, and nothing of it is
    done. -/
theorem receives_after (hh : host.Within KeepsInit) (config : Config)
    (classPath : Table String ClassFile) (wallClock : Nat) (as : List Action)
    (ht : Takes ((boot config classPath wallClock).after host as) i t m) (hr : t.reacquire = none)
    (hf : t.frames = f :: rest) :
    (∀ r f' m₁, outcome (Frame.execute host t.id) (f, m) = (.ok (.invoke r), f', m₁) →
      r.method.isStatic = false →
        ∃ n o, f.stack.peek n = .ok (.ofRef o) ∧ f.Receives m m₁ r n o ∧
          (r.method.argumentCount = n + 1 → r.CallsOn f.stack o) ∧
          ∀ object, m₁.heap.get? o = some object → f.Expects m object.type →
            object.type.isAssignableTo r.owner = true) ∧
    ∀ index resolved m₁ n o object,
      (f.code.instructions[f.pc]? = some (.invokeVirtual index) ∨
        f.code.instructions[f.pc]? = some (.invokeInterface index)) →
      outcome (Exec.resolveMethod f.owner index) m = (.ok resolved, m₁) →
      resolved.method.isStatic = false → resolved.method.argumentCount = n + 1 →
      f.stack.peek n = .ok (.ofRef o) → m₁.heap.get? o = some object →
      resolved.owner.isInterface = true → object.type.isAssignableTo resolved.owner = false →
        outcome (ThreadM.tryStep host) (t, m) =
          (.error (.interfaceNotImplemented object.type.name resolved.owner.name), t, m₁) := by
  obtain ⟨hpicked, hthread, rfl⟩ := ht
  obtain ⟨lost, initializing⟩ := (Initializing.boot config classPath wallClock).after hh as
  obtain ⟨heased, hkept⟩ := choose_eased wakesWithin_keepsInit
    ((boot config classPath wallClock).after host as)
  have chosen := initializing.eased heased hkept
  generalize ((boot config classPath wallClock).after host as).choose.2 = vm at *
  obtain ⟨hground, -⟩ := chosen.threads t (Array.mem_of_getElem? hthread)
  have howner : vm.machine.Defines f.owner := hground.frames f (hf ▸ List.mem_cons_self)
  constructor
  · intro r f' m₁ hx hs
    have dispatches := Frame.execute_dispatches hx
    have kept := dispatches.retains hs
    have grounded := kept.grounded chosen.machine
    obtain ⟨n, o, ho, hreceives⟩ := dispatches.receives grounded hs
    exact ⟨n, o, ho, hreceives, fun hn => MethodRef.callsOn hs hn ho, fun object hobject he =>
      hreceives.assignable grounded (kept.defines howner) hobject he⟩
  · intro index resolved m₁ n o object hi hres hs hn ho hobject hiface hc
    have hx : outcome (Frame.execute host t.id) (f, vm.machine) =
        (.error (.interfaceNotImplemented object.type.name resolved.owner.name), f, m₁) := by
      have refused := FrameM.invokeVirtual_refuses hres hs hn ho hobject hiface hc
      rw [Frame.execute, outcome_bind_ok (outcome_getFrame _)]
      rcases hi with hi | hi <;> rw [hi] <;> exact refused
    rw [ThreadM.outcome_tryStep_error hr hf hx, ← hf]

end Vm

/-! ## Programs -/

/-- A class `A` whose method `f` answers a number. -/
def answering : ClassFile :=
  { ClassFile.ofClass "A" with
    methods := [
      { flags := .ofList [.publicAccess], name := "f", descriptor := "()I"
        code := some (.ofList 1 1 [.literal (.int 7), .leave (some .int)]) }] }

/-- A class `B` whose main method calls `A.f` on a new object of some class. -/
def askerOf (created : String) : ClassFile :=
  { ClassFile.ofClass "B" with
    pool := [.classRef created, .method ⟨"A", "f", "()I"⟩]
    methods := [
      { flags := .ofList [.staticMember], name := "main", descriptor := "()I"
        code := some (.ofList 1 0 [.new 1, .invokeVirtual 2, .leave (some .int)]) }] }

namespace Vm

/-- What has a thread make the object. -/
def asking : List Action := [.spawn "B" "main" "()I" [], .turn, .turn]

/-- A virtual machine in which a thread calls `A.f` on a new object of some class. -/
def ofAsker (created : String) : Vm :=
  boot {} (.ofList [("A", answering), ("B", askerOf created)]) 0

/-- The call of a method on an object of its class. -/
theorem receives_after_new :
    ∃ t m f r f' m₁ o, Takes ((ofAsker "A").after .idle asking) 0 t m ∧ t.frames = [f] ∧
      outcome (Frame.execute .idle t.id) (f, m) = (.ok (.invoke r), f', m₁) ∧
      r.method.isStatic = false ∧ f.stack.peek 0 = .ok (.ofRef o) ∧ f.Receives m m₁ r 0 o ∧
      r.CallsOn f.stack o := by
  generalize hvm : (ofAsker "A").after .idle asking = vm
  have h : vm.picked? = some 0 ∧ (vm.choose.2.threads[0]?.any fun t =>
      t.reacquire = none ∧ t.frames.length = 1 ∧ t.frames.all fun f =>
        f.stack.values.length = 1 ∧ (((outcome (Frame.execute .idle t.id)
          (f, vm.choose.2.machine)).1.toOption.bind Next.method?).any fun r =>
            !r.method.isStatic && r.method.argumentCount == 1) = true) := by
    rw [← hvm]
    decide +kernel
  subst hvm
  obtain ⟨hp, hany⟩ := h
  obtain ⟨t, ht, hany⟩ := (Option.any_eq_true _ _).1 hany
  obtain ⟨hr, hone, hany⟩ := of_decide_eq_true hany
  obtain ⟨f, hf⟩ := List.length_eq_one_iff.1 hone
  rw [hf, List.all_cons, List.all_nil, Bool.and_true] at hany
  obtain ⟨hlen, hx⟩ := of_decide_eq_true hany
  obtain ⟨r, s, hx, hmethod⟩ := Next.exists_of_method? hx
  simp only [Bool.and_eq_true, Bool.not_eq_true', beq_iff_eq] at hmethod
  have takes : Takes ((ofAsker "A").after .idle asking) 0 t _ := ⟨hp, ht, rfl⟩
  obtain ⟨n, o, ho, hreceives, hcalls, -⟩ := (receives_after Host.idle_within {}
    (.ofList [("A", answering), ("B", askerOf "A")]) 0 asking takes hr hf).1 r s.1 s.2 hx hmethod.1
  obtain rfl : n = 0 := by
    cases n with
    | zero => rfl
    | succ n =>
      have hnone : f.stack.values[n + 1]? = none := List.getElem?_eq_none (by omega)
      simp [OperandStack.peek, hnone] at ho
  exact ⟨t, _, f, r, _, _, o, takes, hf, hx, hmethod.1, ho, hreceives, hcalls hmethod.2⟩

/-- A method of a class is called on an object that has nothing to do with the class, and runs to its
    end. -/
theorem receives_stranger :
    let vm := (ofAsker "B").after .idle asking
    (∃ t m f r f' m₁ o object, Takes vm 0 t m ∧ t.frames = [f] ∧
      outcome (Frame.execute .idle t.id) (f, m) = (.ok (.invoke r), f', m₁) ∧
      r.method.isStatic = false ∧ f.stack.peek 0 = .ok (.ofRef o) ∧
      m₁.heap.get? o = some object ∧ object.type.isAssignableTo r.owner = false) ∧
    (vm.after .idle [.turn]).threads[0]?.map (fun t => t.frames.map (·.method.qualifiedName)) =
      some ["A.f()I", "B.main()I"] ∧
    (vm.after .idle [.turn, .turn, .turn, .turn]).threads[0]?.map Thread.completion =
      some (some (.returned (some (.int 7)))) := by
  intro vm
  have h : vm.picked? = some 0 ∧ (vm.choose.2.threads[0]?.any fun t =>
      t.frames.length = 1 ∧ t.frames.all fun f =>
        let x := outcome (Frame.execute .idle t.id) (f, vm.choose.2.machine)
        (x.1.toOption.bind Next.method?).any fun r =>
          !r.method.isStatic && (f.stack.peek 0).toOption.any fun v => v.asObject.toOption.any fun o =>
            (x.2.2.heap.get? o).any fun object => !object.type.isAssignableTo r.owner) ∧
      (vm.after .idle [.turn]).threads[0]?.map (fun t => t.frames.map (·.method.qualifiedName)) =
        some ["A.f()I", "B.main()I"] ∧
      (vm.after .idle [.turn, .turn, .turn, .turn]).threads[0]?.map Thread.completion =
        some (some (.returned (some (.int 7)))) := by
    decide +kernel
  obtain ⟨hp, hany, hafter⟩ := h
  obtain ⟨t, ht, hany⟩ := (Option.any_eq_true _ _).1 hany
  obtain ⟨hone, hany⟩ := of_decide_eq_true hany
  obtain ⟨f, hf⟩ := List.length_eq_one_iff.1 hone
  rw [hf, List.all_cons, List.all_nil, Bool.and_true] at hany
  obtain ⟨r, s, hx, hany⟩ := Next.exists_of_method? hany
  rw [hx, Bool.and_eq_true, Bool.not_eq_true'] at hany
  obtain ⟨hs, hany⟩ := hany
  obtain ⟨v, hpeek, hany⟩ := except_any_toOption.1 hany
  obtain ⟨o, hv, hany⟩ := except_any_toOption.1 hany
  obtain ⟨object, ho, hc⟩ := (Option.any_eq_true _ _).1 hany
  rw [Value.asObject_eq_ok hv] at hpeek
  exact ⟨⟨t, _, f, r, _, _, o, object, ⟨hp, ht, rfl⟩, hf, hx, hs, hpeek, ho, by simpa using hc⟩,
    hafter⟩

end Vm

end GreenVm
