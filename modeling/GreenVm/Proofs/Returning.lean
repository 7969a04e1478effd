/-
  What calls leave behind on the operand stack of the caller.

  * `Frame.calling f r`: the frame of a caller while the method `r` runs, without the arguments.
  * `Frame.resumed f r value`: that frame after the call, with the result on top, if there is one, and
    at the next instruction.
  * `Vm.completes_after`: a native call that completes has the caller so at once, with the result that
    the type of the method allows; a call of bytecode, when it returns, with the value that the return
    instruction carries, whatever the type of the method says.
-/
import GreenVm.Proofs.Retrying

namespace GreenVm

/-! ## Stacks and frames -/

namespace OperandStack

variable {s s' : OperandStack} {n : Nat}

/-- The stack without the top entries. -/
def without (s : OperandStack) (n : Nat) : OperandStack :=
  { s with
    values := s.values.drop n
    depth := s.depth - totalSlots (s.values.take n).reverse }

/-- The stack with a result on top, if there is one and room for it. -/
def withResult (s : OperandStack) (value : Option Value) : OperandStack :=
  { s with values := value.toList ++ s.values, depth := s.depth + totalSlots value.toList }

theorem popArgs_eq_ok {args : List Value} (h : s.popArgs n = .ok (args, s')) :
    n ≤ s.values.length ∧ args = (s.values.take n).reverse ∧ s' = s.without n := by
  rw [popArgs] at h
  split at h
  · cases h
  · next hn =>
    cases h
    exact ⟨Nat.not_lt.1 hn, rfl, rfl⟩

theorem pushResult_eq_ok {value : Option Value} (h : s.pushResult value = .ok s') :
    s' = s.withResult value := by
  cases value with
  | none =>
    cases h
    rfl
  | some v =>
    rw [pushResult, push] at h
    split at h
    · cases h
      rfl
    · cases h

end OperandStack

namespace Frame

/-- The frame of a caller while a method runs that it has called. -/
def calling (f : Frame) (r : MethodRef) : Frame :=
  { f with stack := f.stack.without r.method.argumentCount }

/-- The frame of a caller after a call that has completed with a result. -/
def resumed (f : Frame) (r : MethodRef) (value : Option Value) : Frame :=
  { f.calling r with stack := (f.calling r).stack.withResult value, pc := f.pc + 1 }

/-- Only a return instruction leaves a frame, with a value if it is there to return one. -/
theorem execute_leave {host : Host} {id : ThreadId} {f f' : Frame} {m m₁ : Machine}
    {value : Option Value}
    (h : outcome (Frame.execute host id) (f, m) = (.ok (.leave value), f', m₁)) :
    ∃ kind, f.code.instructions[f.pc]? = some (.leave kind) ∧ value.isSome = kind.isSome := by
  rw [Frame.execute, outcome_bind_ok (outcome_getFrame _)] at h
  cases hi : f.code.instructions[f.pc]? with
  | none =>
    simp only [hi] at h
    cases (outcome_throw _ _).symm.trans h
  | some i =>
    simp only [hi] at h
    cases FrameM.execute_mayAnswer host id i _ _ _ h with
    | leaves hv => exact ⟨_, rfl, hv⟩

end Frame

/-- The return instructions of a method carry a value just when its type has a result. -/
def MethodRef.ReturnsAsTyped (r : MethodRef) : Prop :=
  ∀ code, r.method.code = some code → ∀ kind, .leave kind ∈ code.instructions →
    kind.isSome = r.method.type.returnType.isSome

/-- A native method never has a result that its type does not have. -/
theorem MethodRef.result_isSome (r : MethodRef) (value : Option Value) :
    (r.result value).isSome = (r.method.type.returnType.isSome && value.isSome) := by
  unfold MethodRef.result
  cases r.method.type.returnType <;> rfl

namespace Thread

variable {host : Host} {t u : Thread} {m m' m₁ : Machine} {f g caller : Frame} {rest : List Frame}
  {r : MethodRef} {value : Option Value}

/-! ## Making a call -/

/-- What a call has come to that is made on behalf of the frame `f`, which lies on the `rest`. -/
inductive Called (host : Host) (f : Frame) (rest : List Frame) (r : MethodRef) (fs : List Frame) :
    Prop
  /-- A native method has run. -/
  | native {args : List Value} {native : Native} {receiver : Option Ref} {others : List Value}
      {thread : ThreadId} {value : Option Value} {m m' : Machine}
      (hn : m.natives.lookup? r.owner.name r.method.name r.method.descriptor = some native)
      (ha : args = (f.stack.values.take r.method.argumentCount).reverse)
      (hs : r.splitReceiver args = .ok (receiver, others))
      (hr : outcome (native.run host { owner := r.owner, receiver, args := others, thread }) m =
        (.ok value, m'))
      (hf : fs = f.resumed r (r.result value) :: rest)
  /-- The method has a frame. -/
  | bytecode {g : Frame} (hm : g.method = r) (hk : g.kind = .method)
      (hc : r.method.code = some g.code) (hf : fs = g :: f.calling r :: rest)

theorem Calls.called {lock : Option Ref} (hc : t.Calls host f m r lock (.ok (), u, m'))
    (hf : t.frames = f :: rest) :
    r.method.argumentCount ≤ f.stack.values.length ∧ Called host f rest r u.frames := by
  have top (f' : Frame) : (t.withTop f').frames = f' :: rest := congrArg (f' :: List.tail ·) hf
  cases hc with
  | @entered args stack callee ha _ _ he =>
    obtain ⟨hl, -, rfl⟩ := OperandStack.popArgs_eq_ok ha
    obtain ⟨hm, hk, -⟩ := Frame.enter_ok he
    have hcode : r.method.code = some callee.code := Frame.enter_code he
    exact ⟨hl, .bytecode (g := { callee with monitors := lock.toList }) hm hk hcode
      (congrArg (_ :: ·) (top _))⟩
  | returned ha hn hs hr hv =>
    obtain ⟨hl, hargs, rfl⟩ := OperandStack.popArgs_eq_ok ha
    cases OperandStack.pushResult_eq_ok hv
    exact ⟨hl, .native hn hargs hs hr (top _)⟩

/-- A call that is not put off is made. -/
theorem Invokes.called (hi : t.Invokes host f m r (.ok (), u, m')) (hf : t.frames = f :: rest)
    (hp : u.status ≠ .blocked) :
    r.method.argumentCount ≤ f.stack.values.length ∧ Called host f rest r u.frames := by
  cases hi with
  | busy => exact absurd rfl hp
  | unguarded _ hc => exact hc.called hf
  | guarded _ hc => exact hc.called hf

/-- So it is with a step of a thread that executes a call. -/
theorem step_called (hs : t.status = .runnable) (hr : t.reacquire = none) (hf : t.frames = f :: rest)
    {f' : Frame} (hx : outcome (Frame.execute host t.id) (f, m) = (.ok (.invoke r), f', m₁))
    (hok : (outcome (ThreadM.tryStep host) (t, m)).1 = .ok ())
    (hp : ¬ t.PutsOff ((t.step host).run m).1) :
    r.method.argumentCount ≤ f.stack.values.length ∧
      Called host f rest r ((t.step host).run m).1.frames := by
  cases Frame.execute_same hx rfl
  have hi := ThreadM.outcome_tryStep_invoke hr hf (ThreadM.outcome_instruction hf hx)
  have hc : Thread.Invokes host { t with frames := f :: rest } f m₁ r _ :=
    ThreadM.invoke_invokes r rfl m₁
  rcases ho : outcome (ThreadM.tryStep host) (t, m) with ⟨e | _, u, m'⟩ <;> rw [ho] at hok hi
  · cases hok
  · rw [show f.moved (.invoke r) = f from rfl] at hi
    rw [← hi] at hc
    rw [step_of_ok hs ho] at hp ⊢
    exact hc.called rfl fun hb => hp (.blocks hb)

/-! ## Returning from it -/

/-- A return that succeeds puts the result on the stack of the caller. -/
theorem Returns.resumed (h : t.Returns f m value (caller :: rest) (.ok (), u, m'))
    (hk : f.kind = .method) :
    u.frames = { caller with stack := caller.stack.withResult value, pc := caller.pc + 1 } :: rest := by
  cases h with
  | initialized hc => cases hk.symm.trans hc
  | returned _ hv =>
    cases OperandStack.pushResult_eq_ok hv
    rfl

/-- So it is with the step that completes the call of a method. -/
theorem Completes.resumed (hc : t.Completes host m g (caller :: rest) value) (hk : g.kind = .method)
    (hs : t.status = .runnable) (hok : (outcome (ThreadM.tryStep host) (t, m)).1 = .ok ()) :
    ((t.step host).run m).1.frames =
      { caller with stack := caller.stack.withResult value, pc := caller.pc + 1 } :: rest := by
  obtain ⟨hr, g', f', m₁, hf, hg, hx⟩ := hc
  have hl := ThreadM.outcome_tryStep_leave hr hf (ThreadM.outcome_instruction hf hx)
  have hret := ThreadM.returnFrom_returns (t := { t with frames := f' :: caller :: rest }) value rfl m₁
  rcases ho : outcome (ThreadM.tryStep host) (t, m) with ⟨e | _, u, m'⟩ <;> rw [ho] at hok hl
  · cases hok
  · rw [show f'.moved (.leave value) = f' from rfl] at hl
    rw [← hl] at hret
    rw [step_of_ok hs ho]
    exact hret.resumed (((Frame.execute_keeps hx).kind_eq.trans hg.kind_eq).trans hk)

/-- The value that it carries is that of a return instruction of the method. -/
theorem Completes.isSome_eq (hc : t.Completes host m g rest value) :
    ∃ kind, .leave kind ∈ g.code.instructions ∧ value.isSome = kind.isSome := by
  obtain ⟨-, g', f', m₁, -, hg, hx⟩ := hc
  obtain ⟨kind, hi, hv⟩ := Frame.execute_leave hx
  rw [hg.code_eq] at hi
  exact ⟨kind, Array.mem_of_getElem? hi, hv⟩

end Thread

namespace Thread

variable {host : Host} {t : Thread} {m : Machine} {f g : Frame} {rest : List Frame} {r : MethodRef}

/-- How the next step of a thread ends the call of a method `r` with the frame `g`, which the frame `f`
    above the `rest` has made. -/
inductive Ends (host : Host) (t : Thread) (m : Machine) (f : Frame) (rest : List Frame)
    (r : MethodRef) (g : Frame) : Prop
  /-- A return instruction completes it: the caller gets the value that this carries. -/
  | returns {value : Option Value} {kind : Option ValueKind}
      (hc : t.Completes host m g (f.calling r :: rest) value)
      (hi : .leave kind ∈ g.code.instructions) (hv : value.isSome = kind.isSome)
      (htype : r.ReturnsAsTyped → value.isSome = r.method.type.returnType.isSome)
      (hf : ((t.step host).run m).1.frames = f.resumed r value :: rest)
  /-- It fails, and at least the frame of the method is gone. -/
  | fails (hx : (outcome (ThreadM.tryStep host) (t, m)).1 ≠ .ok ())
      (hl : ((t.step host).run m).1.frames.length ≤ rest.length + 1)

/-- Until then the thread is inside the call. -/
theorem Inside.ends (h : t.Inside g (f.calling r :: rest)) (hk : g.kind = .method)
    (hc : r.method.code = some g.code) (host : Host) (m : Machine) :
    ((t.step host).run m).1.Inside g (f.calling r :: rest) ∨ t.Ends host m f rest r g := by
  rcases h.step host m with h | ⟨hok, hs, ⟨value, hcomp⟩, -⟩ | ⟨hx, -, hl⟩
  · exact .inl h
  · obtain ⟨kind, hi, hv⟩ := hcomp.isSome_eq
    exact .inr (.returns hcomp hi hv (fun hret => hv.trans (hret _ hc kind hi))
      (hcomp.resumed hk hs hok))
  · exact .inr (.fails hx hl)

end Thread

namespace Vm

variable {host : Host} {vm : Vm} {i : Nat} {t : Thread} {m m₁ : Machine} {f f' : Frame}
  {rest : List Frame} {r : MethodRef}

/-- **The stack of a caller after a call.**  A call that is made takes its arguments off the operand
    stack.  If the method is native, the caller goes on at once with the next instruction, with the
    result on top of what is left if the type of the method has one, and with nothing else.  If it is
    bytecode, the caller stays so beneath the frame of the method and whatever this calls in turn or
    initializes, whatever all threads do, until it fails or a return instruction of the method
    completes it: then the caller goes on with the next instruction, and with the value on top that
    this return instruction carries, if it carries one.  So there is one value on top just when the
    type of the method has a result, provided the return instructions of the method agree with it. -/
theorem completes_after (ht : Takes vm i t m) (hr : t.reacquire = none) (hf : t.frames = f :: rest)
    (hx : outcome (Frame.execute host t.id) (f, m) = (.ok (.invoke r), f', m₁))
    (hok : (outcome (ThreadM.tryStep host) (t, m)).1 = .ok ())
    (hp : ¬ t.PutsOff ((t.step host).run m).1) :
    r.method.argumentCount ≤ f.stack.values.length ∧
      ((∃ (native : Native) (call : NativeCall) (value : Option Value) (m₂ m₃ : Machine),
          m₂.natives.lookup? r.owner.name r.method.name r.method.descriptor = some native ∧
          r.splitReceiver (f.stack.values.take r.method.argumentCount).reverse =
            .ok (call.receiver, call.args) ∧
          outcome (native.run host call) m₂ = (.ok value, m₃) ∧
          (r.result value).isSome = (r.method.type.returnType.isSome && value.isSome) ∧
          ((t.step host).run m).1.frames = f.resumed r (r.result value) :: rest) ∨
        ∃ g : Frame, g.method = r ∧ ((t.step host).run m).1.frames = g :: f.calling r :: rest ∧
          ∀ as,
            (∃ u, ((vm.turn host).2.after host as).threads[i]? = some u ∧
              u.Inside g (f.calling r :: rest)) ∨
            ∃ bs cs u m', as = bs ++ .turn :: cs ∧ Takes ((vm.turn host).2.after host bs) i u m' ∧
              u.Inside g (f.calling r :: rest) ∧ u.Ends host m' f rest r g) := by
  obtain ⟨w, hw, hs⟩ := choose_runnable vm (turn_of_picked host ht.picked).2.1
  cases hw.symm.trans ht.thread
  obtain ⟨hlen, hcalled⟩ := Thread.step_called hs hr hf hx hok hp
  refine ⟨hlen, ?_⟩
  cases hcalled with
  | native hn ha hsplit hrun hf' =>
    cases ha
    exact .inl ⟨_, _, _, _, _, hn, hsplit, hrun, r.result_isSome _, hf'⟩
  | @bytecode g hm hk hc hf' =>
    refine .inr ⟨g, hm, hf', fun as => ?_⟩
    obtain ⟨v, hv, hvf⟩ := ht.frames_eq host
    have inside : v.Inside g (f.calling r :: rest) := ⟨[], g, hvf.trans hf', .refl g⟩
    rcases after_until (P := (·.Inside g (f.calling r :: rest))) (fun _ _ e h => h.of_frames e) hv
      inside with h | ⟨bs, cs, u, m', e, hu, h, hend⟩
    · exact .inl h
    · exact .inr ⟨bs, cs, u, m', e, hu, h, (h.ends hk hc host m').resolve_left hend⟩

end Vm

/-! ## A program -/

/-- A class `A` whose method `f` returns a number, whatever its descriptor says, and whose method `main`
    returns what is on the stack after a call of `f`. -/
def answererOf (descriptor : String) : ClassFile :=
  { ClassFile.ofClass "A" with
    pool := [.method ⟨"A", "f", descriptor⟩]
    methods := [
      { flags := .ofList [.staticMember], name := "f", descriptor
        code := some (.ofList 1 0 [.literal (.int 7), .leave (some .int)]) },
      { flags := .ofList [.staticMember], name := "main", descriptor := "()I"
        code := some (.ofList 1 0 [.invokeStatic 1, .leave (some .int)]) }] }

namespace Vm

/-- A virtual machine that has this class, and in which a thread is about to make the call. -/
def ofAnswerer (descriptor : String) : Vm :=
  (boot {} (.ofList [("A", answererOf descriptor)]) 0).after .idle
    [.spawn "A" "main" "()I" [], .turn]

/-- The call of a method that returns a number, as its descriptor says. -/
theorem completes_after_call :
    let vm := ofAnswerer "()I"
    ∃ t m f r g, Takes vm 0 t m ∧ t.frames = [f] ∧
      ((t.step .idle).run m).1.frames = [g, f.calling r] ∧
      ∃ bs cs u m', List.replicate 4 .turn = bs ++ .turn :: cs ∧
        Takes ((vm.turn .idle).2.after .idle bs) 0 u m' ∧ u.Inside g [f.calling r] ∧
        u.Ends .idle m' f [] r g := by
  intro vm
  have h : vm.picked? = some 0 ∧ (vm.choose.2.threads[0]?.any fun t =>
      let m := vm.choose.2.machine
      let u := ((t.step .idle).run m).1
      t.reacquire = none ∧ t.frames.length = 1 ∧
        (t.frames.all fun f => ((outcome (Frame.execute .idle t.id) (f, m)).1.toOption.bind
          Next.method?).any fun _ => true) ∧
        (outcome (ThreadM.tryStep .idle) (t, m)).1.toBool ∧
        u.status = .runnable ∧ u.frames.length = 2 ∧ u.frames.all (·.kind = .method)) ∧
      ((vm.turn .idle).2.after .idle (List.replicate 4 .turn)).threads[0]?.all fun u =>
        u.frames.isEmpty := by
    decide +kernel
  obtain ⟨hp, hany, hend⟩ := h
  obtain ⟨t, ht, hany⟩ := (Option.any_eq_true _ _).1 hany
  obtain ⟨hr, hone, hx, hok, hs, hlen, hkind⟩ := of_decide_eq_true hany
  obtain ⟨f, hf⟩ := List.length_eq_one_iff.1 hone
  rw [hf, List.all_cons, List.all_nil, Bool.and_true] at hx
  obtain ⟨r, s, hx, -⟩ := Next.exists_of_method? hx
  have takes : Takes vm 0 t vm.choose.2.machine := ⟨hp, ht, rfl⟩
  have work : (outcome (ThreadM.tryStep .idle) (t, vm.choose.2.machine)).1 = .ok () := by
    cases ho : (outcome (ThreadM.tryStep .idle) (t, vm.choose.2.machine)).1 with
    | error e => rw [ho] at hok; cases hok
    | ok => rfl
  have called : ¬ t.PutsOff ((t.step .idle).run vm.choose.2.machine).1 := by
    intro hput
    cases hput with
    | blocks hb => cases hs.symm.trans hb
    | awaits hw => cases hs.symm.trans hw
    | initializes hg hk _ =>
      rw [hg, List.all_cons, hk] at hkind
      cases hkind
  obtain ⟨-, ⟨_, _, _, _, _, -, -, -, -, hn⟩ | ⟨g, -, hg, hruns⟩⟩ :=
    completes_after takes hr hf hx work called
  · rw [hn] at hlen
    cases hlen
  refine ⟨t, _, f, r, g, takes, hf, hg, (hruns (List.replicate 4 .turn)).resolve_left ?_⟩
  rintro ⟨u, hu, above, g', hin, -⟩
  rw [hu, Option.all_some, hin] at hend
  simp at hend

/-- A method whose descriptor has no result leaves the number that it returns on the stack of its caller,
    which goes on with it. -/
theorem leaves_value_of_void :
    let vm := ofAnswerer "()V"
    (∃ t m f r s, Takes vm 0 t m ∧ t.frames = [f] ∧ f.pc = 0 ∧ f.stack.values = [] ∧
      outcome (Frame.execute .idle t.id) (f, m) = (.ok (.invoke r), s) ∧
      r.method.type.returnType = none) ∧
    (vm.after .idle [.turn, .turn, .turn]).threads[0]?.map
      (fun t => (t.status, t.frames.map fun f => (f.pc, f.stack.values))) =
        some (.runnable, [(1, [.int 7])]) ∧
    (vm.after .idle [.turn, .turn, .turn, .turn]).threads[0]?.map Thread.completion =
      some (some (.returned (some (.int 7)))) := by
  intro vm
  have h : vm.picked? = some 0 ∧ (vm.choose.2.threads[0]?.any fun t =>
      t.frames.length = 1 ∧ t.frames.all fun f => f.pc = 0 ∧ f.stack.values = [] ∧
        (((outcome (Frame.execute .idle t.id) (f, vm.choose.2.machine)).1.toOption.bind
          Next.method?).any fun r => r.method.type.returnType.isNone) = true) ∧
      (vm.after .idle [.turn, .turn, .turn]).threads[0]?.map
        (fun t => (t.status, t.frames.map fun f => (f.pc, f.stack.values))) =
          some (.runnable, [(1, [.int 7])]) ∧
      (vm.after .idle [.turn, .turn, .turn, .turn]).threads[0]?.map Thread.completion =
        some (some (.returned (some (.int 7)))) := by
    decide +kernel
  obtain ⟨hp, hany, hafter⟩ := h
  obtain ⟨t, ht, hany⟩ := (Option.any_eq_true _ _).1 hany
  obtain ⟨hone, hany⟩ := of_decide_eq_true hany
  obtain ⟨f, hf⟩ := List.length_eq_one_iff.1 hone
  rw [hf, List.all_cons, List.all_nil, Bool.and_true] at hany
  obtain ⟨hpc, hvalues, hx⟩ := of_decide_eq_true hany
  obtain ⟨r, s, hx, hvoid⟩ := Next.exists_of_method? hx
  exact ⟨⟨t, _, f, r, s, ⟨hp, ht, rfl⟩, hf, hpc, hvalues, hx, Option.isNone_iff_eq_none.1 hvoid⟩, hafter⟩

end Vm

end GreenVm
