/-
  What instructions do to the local variables and the operand stack of their frame.

  * `Frame.Operates`: a frame comes from another one by work on its operand stack: the code and the
    local variables are the same.
  * `FrameM.execute_operates`: so it does whenever an instruction is executed that sets no local variable.
  * `Instruction.sets`: the local variable that an instruction sets, and the value.
  * `Frame.execute_sets`: an instruction that succeeds sets it, and one that fails sets none.
-/
import GreenVm.Proofs.OperandStacks
import GreenVm.Proofs.Quiet.Instructions

namespace GreenVm

/-- Work on the operand stack of a frame: the code and the local variables are the same. -/
structure Frame.Operates (f f' : Frame) : Prop where
  code_eq : f'.code = f.code
  locals_eq : f'.locals = f.locals
  stack : f.stack.Evolves f'.stack

namespace Frame.Operates

variable {f f' f'' : Frame}

theorem refl (f : Frame) : f.Operates f := ⟨rfl, rfl, .refl f.stack⟩

theorem trans (h : f.Operates f') (h' : f'.Operates f'') : f.Operates f'' :=
  ⟨h'.code_eq.trans h.code_eq, h'.locals_eq.trans h.locals_eq, h.stack.trans h'.stack⟩

theorem of_stack {stack : OperandStack} (h : f.stack.Evolves stack) :
    f.Operates { f with stack } := ⟨rfl, rfl, h⟩

theorem moved (f : Frame) (next : Next) : f.Operates (f.moved next) := by
  cases next <;> exact ⟨rfl, rfl, .refl f.stack⟩

end Frame.Operates

/-- Work on the operand stack of a frame, and whatever becomes of the machine. -/
def Operating (s s' : Frame × Machine) : Prop := s.1.Operates s'.1

instance : Std.Refl Operating := ⟨fun s => .refl s.1⟩

instance : IsTrans (Frame × Machine) Operating := ⟨fun _ _ _ => .trans⟩

namespace FrameM

variable {α : Type} {index : Nat} {v : Value} {host : Host} {thread : ThreadId}

/-! ## The frame -/

theorem lift_operates (x : Exec α) : Within Operating (liftM x : FrameM α) := fun s => by
  rw [outcome_liftFrame]
  exact .refl s.1

theorem readFrame_operates {g : Frame → FrameM α} (h : ∀ f, Within Operating (g f)) :
    Within Operating (getThe Frame >>= g) := by
  refine .bind (fun s => ?_) h
  rw [outcome_getFrame]
  exact .refl s.1

theorem onStack_operates {g : OperandStack → Except EngineError OperandStack}
    (h : ∀ s s', g s = .ok s' → s.Evolves s') : Within Operating (onStack g) := by
  rintro ⟨f, m⟩
  rw [onStack, outcome_bind_ok (outcome_getFrame _)]
  cases hg : g f.stack with
  | error e => exact .refl f
  | ok stack => exact .of_stack (h _ _ hg)

theorem takeOff_operates {g : OperandStack → Except EngineError (α × OperandStack)}
    (h : ∀ s a s', g s = .ok (a, s') → s.Evolves s') : Within Operating (takeOff g) := by
  rintro ⟨f, m⟩
  rw [takeOff, outcome_bind_ok (outcome_getFrame _)]
  cases hg : g f.stack with
  | error e => exact .refl f
  | ok p => exact .of_stack (h _ _ _ hg)

theorem push_operates : Within Operating (push v) :=
  onStack_operates fun _ _ => OperandStack.push_evolves

theorem pop_operates : Within Operating pop := takeOff_operates fun _ _ _ => OperandStack.pop_evolves

theorem peek_operates : Within Operating (peek index) := readFrame_operates fun _ => .liftExcept _

theorem popInt_operates : Within Operating popInt := .bind pop_operates fun _ => .liftExcept _

theorem popLong_operates : Within Operating popLong := .bind pop_operates fun _ => .liftExcept _

theorem popFloat_operates : Within Operating popFloat := .bind pop_operates fun _ => .liftExcept _

theorem popDouble_operates : Within Operating popDouble := .bind pop_operates fun _ => .liftExcept _

theorem popReference_operates : Within Operating popReference :=
  .bind pop_operates fun _ => .liftExcept _

theorem popObject_operates : Within Operating popObject := .bind pop_operates fun _ => .liftExcept _

theorem popNumber_operates {kind : NumKind} : Within Operating (popNumber kind) := by
  cases kind with
  | int => exact .bind popInt_operates fun _ => .pure _
  | long => exact .bind popLong_operates fun _ => .pure _
  | float => exact .bind popFloat_operates fun _ => .pure _
  | double => exact .bind popDouble_operates fun _ => .pure _

theorem load_operates : Within Operating (load index) := readFrame_operates fun _ => .liftExcept _

theorem owner_operates : Within Operating owner := readFrame_operates fun _ => .pure _

theorem constant_operates : Within Operating (constant index) :=
  .bind owner_operates fun _ => .liftExcept _

theorem wrongConstant_operates {expected : ConstantRole} :
    Within Operating (wrongConstant index expected : FrameM α) :=
  .bind owner_operates fun _ => .throw _

theorem andAdvance_operates {x : FrameM Unit} (h : Within Operating x) :
    Within Operating (andAdvance x) := .bind h fun _ => .pure _

/-! ## Arithmetic -/

theorem binary_operates {op : BinaryOp} {kind : NumKind} : Within Operating (binary op kind) := by
  cases kind with
  | int =>
    exact .bind popInt_operates fun _ => .bind popInt_operates fun _ => .bind (.liftExcept _)
      fun _ => push_operates
  | long =>
    exact .bind popLong_operates fun _ => .bind popLong_operates fun _ => .bind (.liftExcept _)
      fun _ => push_operates
  | float =>
    exact .bind popFloat_operates fun _ => .bind popFloat_operates fun _ => .bind (.liftExcept _)
      fun _ => push_operates
  | double =>
    exact .bind popDouble_operates fun _ => .bind popDouble_operates fun _ => .bind (.liftExcept _)
      fun _ => push_operates

theorem shift_operates {op : ShiftOp} {kind : NumKind} : Within Operating (shift op kind) := by
  refine .bind popInt_operates fun _ => .bind popNumber_operates fun v => ?_
  split
  · exact push_operates
  · exact push_operates
  · exact .throw _

theorem negate_operates {kind : NumKind} : Within Operating (negate kind) := by
  cases kind with
  | int => exact .bind popInt_operates fun _ => push_operates
  | long => exact .bind popLong_operates fun _ => push_operates
  | float => exact .bind popFloat_operates fun _ => push_operates
  | double => exact .bind popDouble_operates fun _ => push_operates

theorem convert_operates {source target : NumKind} : Within Operating (convert source target) :=
  .bind popNumber_operates fun _ => push_operates

theorem compareLongs_operates : Within Operating compareLongs :=
  .bind popLong_operates fun _ => .bind popLong_operates fun _ => push_operates

theorem compareFloats_operates {bias : NanBias} : Within Operating (compareFloats bias) :=
  .bind popFloat_operates fun _ => .bind popFloat_operates fun _ => push_operates

theorem compareDoubles_operates {bias : NanBias} : Within Operating (compareDoubles bias) :=
  .bind popDouble_operates fun _ => .bind popDouble_operates fun _ => push_operates

/-! ## Arrays -/

theorem arrayLoad_operates {kind : ArrayKind} : Within Operating (arrayLoad kind) :=
  .bind popInt_operates fun _ => .bind popObject_operates fun _ => .bind (lift_operates _) fun _ =>
    .bind (.liftExcept _) fun _ => .bind (.liftExcept _) fun _ => push_operates

theorem arrayStore_operates {kind : ArrayKind} : Within Operating (arrayStore kind) :=
  .bind pop_operates fun _ => .bind popInt_operates fun _ => .bind popObject_operates fun _ =>
    .bind (lift_operates _) fun _ => .bind (.liftExcept _) fun _ => .bind (lift_operates _) fun _ =>
      lift_operates _

theorem classNameAt_operates : Within Operating (classNameAt index) := by
  refine .bind constant_operates fun _ => ?_
  split
  · exact .pure _
  · exact wrongConstant_operates

theorem newArray_operates {kind : ArrayKind} : Within Operating (newArray kind) := by
  refine .bind popInt_operates fun _ => ?_
  split
  · exact .throw _
  · exact .bind (lift_operates _) fun _ => push_operates

theorem newReferenceArray_operates : Within Operating (newReferenceArray index) :=
  .bind classNameAt_operates fun _ => .bind popInt_operates fun _ => .bind (lift_operates _) fun _ =>
    push_operates

theorem newMultiArray_operates {dimensions : Nat} :
    Within Operating (newMultiArray index dimensions) := by
  refine .bind classNameAt_operates fun _ =>
    .bind (takeOff_operates fun _ _ _ => OperandStack.popArgs_evolves) fun _ =>
      .bind (.mapM fun _ => .liftExcept _) fun _ => ?_
  dsimp only
  split
  · exact .bind (.throw _) fun _ => .bind (lift_operates _) fun _ => push_operates
  · exact .bind (lift_operates _) fun _ => push_operates

theorem arrayLength_operates : Within Operating arrayLength := by
  refine .bind popObject_operates fun _ => .bind (lift_operates _) fun _ => ?_
  split
  · exact push_operates
  · exact .throw _

/-! ## Fields -/

theorem classAt_operates : Within Operating (classAt index) :=
  .bind owner_operates fun _ => lift_operates _

theorem staticSite_operates : Within Operating (staticSite index) := by
  refine .bind owner_operates fun _ => .bind (lift_operates _) fun site => ?_
  cases site with
  | staticSlot c i => exact .pure _
  | instanceSlot => exact .throw _

theorem instanceSite_operates : Within Operating (instanceSite index) := by
  refine .bind owner_operates fun _ => .bind (lift_operates _) fun site => ?_
  cases site with
  | staticSlot => exact .throw _
  | instanceSlot c i => exact .pure _

theorem whenReady_operates {c : Class} {use : FrameM Next} (h : Within Operating use) :
    Within Operating (whenReady host thread c use) := by
  refine .bind (lift_operates _) fun r => ?_
  cases r with
  | ready => exact h
  | await => exact .pure _
  | runInitializer => exact .pure _

theorem getStatic_operates : Within Operating (getStatic host thread index) :=
  .bind staticSite_operates fun _ => whenReady_operates
    (.bind (lift_operates _) fun _ => .bind push_operates fun _ => .pure _)

theorem putStatic_operates : Within Operating (putStatic host thread index) :=
  .bind staticSite_operates fun _ => whenReady_operates
    (.bind pop_operates fun _ => .bind (lift_operates _) fun _ => .pure _)

theorem popHolder_operates {declaring : Class} : Within Operating (popHolder declaring) := by
  refine .bind popObject_operates fun _ => .bind (lift_operates _) fun _ => ?_
  split
  · exact .pure _
  · exact .throw _

theorem getField_operates : Within Operating (getField index) :=
  .bind instanceSite_operates fun _ => .bind popHolder_operates fun _ => .bind (.liftExcept _)
    fun _ => push_operates

theorem putField_operates : Within Operating (putField index) :=
  .bind instanceSite_operates fun _ => .bind pop_operates fun _ => .bind popHolder_operates fun _ =>
    .bind (.liftExcept _) fun _ => lift_operates _

/-! ## Calls, objects and constants -/

theorem receiver_operates {arguments : Nat} : Within Operating (receiver arguments) := by
  cases arguments with
  | zero => exact .throw _
  | succ n => exact .bind peek_operates fun _ => .liftExcept _

theorem invokeStatic_operates : Within Operating (invokeStatic host thread index) := by
  refine .bind owner_operates fun _ => .bind (lift_operates _) fun _ => ?_
  dsimp only
  split
  · exact .bind (.throw _) fun _ => whenReady_operates (.pure _)
  · exact whenReady_operates (.pure _)

theorem invokeSpecial_operates : Within Operating (invokeSpecial index) :=
  .bind owner_operates fun _ => .bind (lift_operates _) fun _ => .bind (.discard receiver_operates)
    fun _ => .pure _

theorem invokeVirtual_operates : Within Operating (invokeVirtual index) := by
  refine .bind owner_operates fun _ => .bind (lift_operates _) fun resolved => ?_
  have select : Within Operating (do
      let c ← Exec.typeOf (← receiver resolved.method.argumentCount)
      if resolved.owner.isInterface && !c.isAssignableTo resolved.owner then
        throw (.interfaceNotImplemented c.name resolved.owner.name)
      return .invoke (virtualTarget c resolved) : FrameM Next) := by
    refine .bind receiver_operates fun _ => .bind (lift_operates _) fun c => ?_
    dsimp only
    split
    · exact .bind (.throw _) fun _ => .pure _
    · exact .pure _
  dsimp only
  split
  · exact .bind (.throw _) fun _ => select
  · exact select

theorem invokeDynamic_operates : Within Operating (invokeDynamic index) := by
  refine .bind constant_operates fun _ => ?_
  split
  · exact .throw _
  · exact wrongConstant_operates

theorem new_operates : Within Operating (new host thread index) := by
  refine .bind classAt_operates fun c => ?_
  have create : Within Operating (do
      push (.ofRef (← Exec.instantiate c))
      return .advance : FrameM Next) :=
    .bind (lift_operates _) fun _ => .bind push_operates fun _ => .pure _
  dsimp only
  split
  · exact create
  · exact whenReady_operates create

theorem checkCast_operates : Within Operating (checkCast index) := by
  refine .bind peek_operates fun _ => .bind (.liftExcept _) fun r => ?_
  cases r with
  | none => exact .pure _
  | some r =>
    refine .bind classAt_operates fun _ => .bind (lift_operates _) fun _ => ?_
    split
    · exact .throw _
    · exact .pure _

theorem instanceOf_operates : Within Operating (instanceOf index) := by
  refine .bind popReference_operates fun r => ?_
  cases r with
  | none => exact push_operates
  | some r =>
    exact .bind classAt_operates fun _ => .bind (lift_operates _) fun _ => push_operates

theorem loadConstant_operates : Within Operating (loadConstant index) := by
  refine .bind owner_operates fun _ => .bind constant_operates fun constant => ?_
  cases constant with
  | int => exact push_operates
  | float => exact push_operates
  | long => exact push_operates
  | double => exact push_operates
  | string => exact .bind (lift_operates _) fun _ => push_operates
  | classRef =>
    exact .bind (lift_operates _) fun _ => .bind (lift_operates _) fun _ => push_operates
  | methodHandle => exact .throw _
  | methodType => exact .throw _
  | _ => exact wrongConstant_operates

/-! ## Monitors -/

theorem modifyFrame_operates {g : Frame → Frame} (h : ∀ f : Frame, f.Operates (g f)) :
    Within Operating (modifyThe Frame g : FrameM Unit) := fun s => by
  rw [outcome_modifyFrame]
  exact h s.1

theorem monitorEnter_operates : Within Operating (monitorEnter thread) := by
  refine .bind peek_operates fun _ => .bind (.liftExcept _) fun _ => .bind (lift_operates _)
    fun entered => ?_
  split
  · exact .bind (.discard pop_operates) fun _ =>
      .bind (modifyFrame_operates fun f => ⟨rfl, rfl, .refl f.stack⟩) fun _ => .pure _
  · exact .pure _

theorem monitorExit_operates : Within Operating (monitorExit thread) :=
  .bind popObject_operates fun _ => .bind (lift_operates _) fun _ => .bind (lift_operates _) fun _ =>
    modifyFrame_operates fun f => ⟨rfl, rfl, .refl f.stack⟩

/-! ## Setting local variables -/

/-- Setting a local variable, if the frame has the slots. -/
theorem store_cases (index : Nat) (v : Value) (f : Frame) (m : Machine) :
    (∃ e, outcome (store index v) (f, m) = (.error e, f, m)) ∨
      f.checkSlots index v = .ok () ∧
        outcome (store index v) (f, m) = (.ok (), f.put index v, m) := by
  rw [store, outcome_bind_ok (outcome_getFrame _)]
  cases hs : f.checkSlots index v with
  | error e => exact .inl ⟨.fatal e, rfl⟩
  | ok u => exact .inr ⟨rfl, rfl⟩

end FrameM

/-- The instruction sets a local variable. -/
def Instruction.setsLocal : Instruction → Bool
  | .store _ _ | .increment _ _ => true
  | _ => false

/-- The local variable that an instruction sets in a frame, and its value. -/
def Instruction.sets (f : Frame) : Instruction → Option (Nat × Value)
  | .store _ index => f.stack.values.head?.map fun v => (index, v)
  | .increment index delta =>
    match f.locals[index]? with
    | some (.int i) => some (index, .int (i + delta.toInt32))
    | _ => none
  | _ => none

/-- What can come of executing an instruction that sets a local variable, or none. -/
inductive Frame.Sets (f : Frame) (w : Option (Nat × Value)) : Except Fault Next × Frame × Machine → Prop
  | failed {e : Fault} {f' : Frame} {m : Machine} (h : f.Operates f') : Sets f w (.error e, f', m)
  | none {next : Next} {f' : Frame} {m : Machine} (hw : w = none) (h : f.Operates f') :
    Sets f w (.ok next, f', m)
  | one {next : Next} {g : Frame} {m : Machine} {index : Nat} {v : Value} (hw : w = some (index, v))
      (h : f.Operates g) (hs : g.checkSlots index v = .ok ()) : Sets f w (.ok next, g.put index v, m)

/-- The local variable that a frame sets at its position. -/
def Frame.sets (f : Frame) : Option (Nat × Value) :=
  f.code.instructions[f.pc]?.bind (·.sets f)

theorem Value.asInt_eq_ok {v : Value} {i : Int32} (h : v.asInt = .ok i) : v = .int i := by
  cases v <;> cases h
  rfl

theorem Frame.load_eq_ok {f : Frame} {index : Nat} {v : Value} :
    f.load index = .ok v ↔ f.locals[index]? = some v := by
  rw [load]
  cases f.locals[index]? <;> simp

namespace FrameM

variable {host : Host} {thread : ThreadId} {index : Nat}

/-- An instruction that sets no local variable works on the operand stack. -/
theorem execute_operates {i : Instruction} (h : i.setsLocal = false) :
    Within Operating (execute host thread i) := by
  cases i with
  | nop => exact .pure _
  | literal => exact andAdvance_operates push_operates
  | loadConstant => exact andAdvance_operates loadConstant_operates
  | load =>
    exact andAdvance_operates
      (.bind load_operates fun _ => .bind (.liftExcept _) fun _ => push_operates)
  | store => cases h
  | arrayLoad => exact andAdvance_operates arrayLoad_operates
  | arrayStore => exact andAdvance_operates arrayStore_operates
  | pop =>
    exact andAdvance_operates
      (.discard (takeOff_operates fun _ _ _ => OperandStack.popSlots_evolves))
  | dup slots skip =>
    refine andAdvance_operates (onStack_operates fun s s' h => ?_)
    rw [s.dup_eq_rearrange] at h
    exact OperandStack.rearrange_evolves h
  | swap =>
    refine andAdvance_operates (onStack_operates fun s s' h => ?_)
    rw [s.swap_eq_rearrange] at h
    exact OperandStack.rearrange_evolves h
  | binary => exact andAdvance_operates binary_operates
  | shift => exact andAdvance_operates shift_operates
  | neg => exact andAdvance_operates negate_operates
  | increment => cases h
  | convert => exact andAdvance_operates convert_operates
  | narrow => exact andAdvance_operates (.bind popInt_operates fun _ => push_operates)
  | compareLong => exact andAdvance_operates compareLongs_operates
  | compareFloat => exact andAdvance_operates compareFloats_operates
  | compareDouble => exact andAdvance_operates compareDoubles_operates
  | branchZero => exact .bind popInt_operates fun _ => .pure _
  | branchInts => exact .bind popInt_operates fun _ => .bind popInt_operates fun _ => .pure _
  | branchSame =>
    exact .bind popReference_operates fun _ => .bind popReference_operates fun _ => .pure _
  | branchNull => exact .bind popReference_operates fun _ => .pure _
  | goto => exact .pure _
  | jumpSubroutine => exact readFrame_operates fun _ => .bind push_operates fun _ => .pure _
  | returnSubroutine =>
    exact .bind load_operates fun _ => .bind (.liftExcept _) fun _ => .pure _
  | tableSwitch => exact .bind popInt_operates fun _ => .pure _
  | lookupSwitch => exact .bind popInt_operates fun _ => .pure _
  | leave kind =>
    cases kind with
    | none => exact .pure _
    | some kind => exact .bind pop_operates fun _ => .bind (.liftExcept _) fun _ => .pure _
  | getStatic => exact getStatic_operates
  | putStatic => exact putStatic_operates
  | getField => exact andAdvance_operates getField_operates
  | putField => exact andAdvance_operates putField_operates
  | invokeVirtual => exact invokeVirtual_operates
  | invokeInterface => exact invokeVirtual_operates
  | invokeSpecial => exact invokeSpecial_operates
  | invokeStatic => exact invokeStatic_operates
  | invokeDynamic => exact invokeDynamic_operates
  | new => exact new_operates
  | newArray => exact andAdvance_operates newArray_operates
  | newReferenceArray => exact andAdvance_operates newReferenceArray_operates
  | newMultiArray => exact andAdvance_operates newMultiArray_operates
  | arrayLength => exact andAdvance_operates arrayLength_operates
  | throwTop => exact .bind popObject_operates fun _ => .throw _
  | checkCast => exact andAdvance_operates checkCast_operates
  | instanceOf => exact andAdvance_operates instanceOf_operates
  | monitorEnter => exact monitorEnter_operates
  | monitorExit => exact andAdvance_operates monitorExit_operates

/-- Storing takes the top value, and sets the local variable to it. -/
theorem execute_store_sets (kind : ValueKind) (index : Nat) (f : Frame) (m : Machine) :
    f.Sets (Instruction.sets f (.store kind index))
      (outcome (execute host thread (.store kind index)) (f, m)) := by
  have hp : Operating (f, m) (outcome pop (f, m)).2 := pop_operates (f, m)
  rw [execute, andAdvance]
  rcases hx : outcome pop (f, m) with ⟨e | v, g, m₁⟩ <;> rw [hx] at hp
  · rw [outcome_bind_error (outcome_bind_error hx)]
    exact .failed hp
  obtain ⟨stack, hv, hg⟩ := pop_ok hx
  cases hg
  cases hc : kind.check true v with
  | error e =>
    rw [outcome_bind_error (e := .fatal e) (by rw [outcome_bind_ok hx, hc]; rfl)]
    exact .failed hp
  | ok u =>
    have hstore : outcome (do
        let v ← pop
        kind.check true v
        store index v : FrameM Unit) (f, m) = outcome (store index v) ({ f with stack }, m) := by
      rw [outcome_bind_ok hx, hc]
      rfl
    rcases store_cases index v { f with stack } m with ⟨e, he⟩ | ⟨hs, he⟩
    · rw [outcome_bind_error (hstore.trans he)]
      exact .failed hp
    · rw [outcome_bind_ok (hstore.trans he), outcome_pure]
      exact .one (by rw [Instruction.sets, hv]; rfl) hp hs

/-- Incrementing sets the local variable to the sum. -/
theorem execute_increment_sets (index : Nat) (delta : Int16) (f : Frame) (m : Machine) :
    f.Sets (Instruction.sets f (.increment index delta))
      (outcome (execute host thread (.increment index delta)) (f, m)) := by
  have hread : outcome (load index) (f, m) = ((liftM (f.load index) : Except Fault Value), f, m) := by
    rw [load, outcome_bind_ok (outcome_getFrame _)]
    exact outcome_liftExcept _ _
  rw [execute, andAdvance, increment]
  cases hl : f.load index with
  | error e =>
    rw [hl] at hread
    rw [outcome_bind_error (outcome_bind_error hread)]
    exact .failed (.refl f)
  | ok v =>
    rw [hl] at hread
    cases hv : v.asInt with
    | error e =>
      rw [outcome_bind_error (e := .fatal e) (by rw [outcome_bind_ok hread, hv]; rfl)]
      exact .failed (.refl f)
    | ok i =>
      have hstore : outcome (do
          let v ← (← load index).asInt
          store index (.int (v + delta.toInt32)) : FrameM Unit) (f, m) =
          outcome (store index (.int (i + delta.toInt32))) (f, m) := by
        rw [outcome_bind_ok hread, hv]
        rfl
      rcases store_cases index (.int (i + delta.toInt32)) f m with ⟨e, he⟩ | ⟨hs, he⟩
      · rw [outcome_bind_error (hstore.trans he)]
        exact .failed (.refl f)
      · rw [outcome_bind_ok (hstore.trans he), outcome_pure]
        refine .one ?_ (.refl f) hs
        rw [Instruction.sets, Frame.load_eq_ok.1 hl, Value.asInt_eq_ok hv]

theorem execute_sets (i : Instruction) (f : Frame) (m : Machine) :
    f.Sets (i.sets f) (outcome (execute host thread i) (f, m)) := by
  cases hi : i.setsLocal with
  | false =>
    have ho : Operating (f, m) (outcome (execute host thread i) (f, m)).2 := execute_operates hi (f, m)
    rcases hx : outcome (execute host thread i) (f, m) with ⟨e | next, f', m'⟩ <;> rw [hx] at ho
    · exact .failed ho
    · refine .none ?_ ho
      cases i <;> first | rfl | cases hi
  | true =>
    cases i with
    | store kind index => exact execute_store_sets kind index f m
    | increment index delta => exact execute_increment_sets index delta f m
    | _ => cases hi

end FrameM

/-- An instruction that succeeds sets the local variable that it is to set, if there is one, and one
    that fails sets none. -/
theorem Frame.execute_sets (host : Host) (thread : ThreadId) (f : Frame) (m : Machine) :
    f.Sets f.sets (outcome (Frame.execute host thread) (f, m)) := by
  rw [Frame.execute, outcome_bind_ok (outcome_getFrame _), sets]
  cases f.code.instructions[f.pc]? with
  | none => exact .failed (.refl f)
  | some i => exact FrameM.execute_sets i f m

end GreenVm
