/-
  The faults of the instructions that need no class to be ready are the machine's own.
-/
import GreenVm.Proofs.Faults.Machine

namespace GreenVm

namespace FrameM

variable {α : Type} {index : Nat} {v : Value} {kind : ArrayKind} {thread : ThreadId} {host : Host}

/-! ## The frame -/

theorem lift_own {x : Exec α} (h : FailsOwn x) : FailsOwn (liftM x : FrameM α) :=
  lift_failsWith fun _ => h

theorem onStack_own {g : OperandStack → Except EngineError OperandStack}
    (h : ∀ s, ErrsWith EngineError.IsOwn (g s)) : FailsOwn (onStack g) :=
  getFrame_failsWith.bind fun f => .bind (h f.stack).aborts fun _ => modifyFrame_failsWith

theorem takeOff_own {g : OperandStack → Except EngineError (α × OperandStack)}
    (h : ∀ s, ErrsWith EngineError.IsOwn (g s)) : FailsOwn (takeOff g) :=
  getFrame_failsWith.bind fun f => .bind (h f.stack).aborts fun _ =>
    modifyFrame_failsWith.bind fun _ => .pure _

theorem push_own : FailsOwn (push v) := onStack_own fun _ => OperandStack.push_errs

theorem pop_own : FailsOwn pop := takeOff_own fun _ => OperandStack.pop_errs

theorem peek_own : FailsOwn (peek index) :=
  getFrame_failsWith.bind fun _ => OperandStack.peek_errs.aborts

theorem popInt_own : FailsOwn popInt := .bind pop_own fun _ => Value.asInt_errs.aborts

theorem popLong_own : FailsOwn popLong := .bind pop_own fun _ => Value.asLong_errs.aborts

theorem popFloat_own : FailsOwn popFloat := .bind pop_own fun _ => Value.asFloat_errs.aborts

theorem popDouble_own : FailsOwn popDouble := .bind pop_own fun _ => Value.asDouble_errs.aborts

theorem popReference_own : FailsOwn popReference :=
  .bind pop_own fun _ => Value.asReference_errs.aborts

theorem popObject_own : FailsOwn popObject := .bind pop_own fun _ => Value.asObject_errs.fails

theorem popNumber_own {kind : NumKind} : FailsOwn (popNumber kind) := by
  cases kind with
  | int => exact .bind popInt_own fun _ => .pure _
  | long => exact .bind popLong_own fun _ => .pure _
  | float => exact .bind popFloat_own fun _ => .pure _
  | double => exact .bind popDouble_own fun _ => .pure _

theorem load_own : FailsOwn (load index) := getFrame_failsWith.bind fun _ => Frame.load_errs.aborts

theorem store_own : FailsOwn (store index v) :=
  getFrame_failsWith.bind fun _ => .bind Frame.checkSlots_errs.aborts fun _ => modifyFrame_failsWith

theorem owner_own : FailsOwn owner := getFrame_failsWith.bind fun _ => .pure _

theorem constant_own : FailsOwn (constant index) :=
  .bind owner_own fun _ => Class.constant_errs.aborts

theorem wrongConstant_own {expected : ConstantRole} :
    FailsOwn (wrongConstant index expected : FrameM α) :=
  .bind owner_own fun _ => throw_own (.fatal nofun)

theorem andAdvance_own {x : FrameM Unit} (h : FailsOwn x) : FailsOwn (andAdvance x) :=
  .bind h fun _ => .pure _

/-! ## Arithmetic -/

theorem binary_own {op : BinaryOp} {kind : NumKind} : FailsOwn (binary op kind) := by
  cases kind with
  | int =>
    exact .bind popInt_own fun _ => .bind popInt_own fun _ => .bind BinaryOp.onInts_errs.fails
      fun _ => push_own
  | long =>
    exact .bind popLong_own fun _ => .bind popLong_own fun _ => .bind BinaryOp.onLongs_errs.fails
      fun _ => push_own
  | float =>
    exact .bind popFloat_own fun _ => .bind popFloat_own fun _ => .bind BinaryOp.onFloats_errs.aborts
      fun _ => push_own
  | double =>
    exact .bind popDouble_own fun _ => .bind popDouble_own fun _ =>
      .bind BinaryOp.onDoubles_errs.aborts fun _ => push_own

theorem shift_own {op : ShiftOp} {kind : NumKind} : FailsOwn (shift op kind) := by
  refine .bind popInt_own fun _ => .bind popNumber_own fun v => ?_
  split
  exacts [push_own, push_own, throw_own (.fatal nofun)]

theorem negate_own {kind : NumKind} : FailsOwn (negate kind) := by
  cases kind with
  | int => exact .bind popInt_own fun _ => push_own
  | long => exact .bind popLong_own fun _ => push_own
  | float => exact .bind popFloat_own fun _ => push_own
  | double => exact .bind popDouble_own fun _ => push_own

theorem increment_own {delta : Int16} : FailsOwn (increment index delta) :=
  .bind load_own fun _ => .bind Value.asInt_errs.aborts fun _ => store_own

theorem convert_own {source target : NumKind} : FailsOwn (convert source target) :=
  .bind popNumber_own fun _ => push_own

theorem compareLongs_own : FailsOwn compareLongs :=
  .bind popLong_own fun _ => .bind popLong_own fun _ => push_own

theorem compareFloats_own {bias : NanBias} : FailsOwn (compareFloats bias) :=
  .bind popFloat_own fun _ => .bind popFloat_own fun _ => push_own

theorem compareDoubles_own {bias : NanBias} : FailsOwn (compareDoubles bias) :=
  .bind popDouble_own fun _ => .bind popDouble_own fun _ => push_own

/-! ## Arrays -/

theorem arrayLoad_own : FailsOwn (arrayLoad kind) :=
  .bind popInt_own fun _ => .bind popObject_own fun _ => .bind (lift_own Exec.object_own)
    fun _ => .bind ArrayKind.check_errs.aborts fun _ => .bind Object.arrayLoad_errs.fails fun _ =>
    push_own

theorem arrayStore_own : FailsOwn (arrayStore kind) :=
  .bind pop_own fun _ => .bind popInt_own fun _ => .bind popObject_own fun _ =>
    .bind (lift_own Exec.object_own) fun _ => .bind ArrayKind.check_errs.aborts fun _ =>
    .bind (lift_own Exec.storable_own) fun _ => lift_own Exec.arrayStore_own

theorem classNameAt_own : FailsOwn (classNameAt index) := by
  refine .bind constant_own fun _ => ?_
  split
  exacts [.pure _, wrongConstant_own]

theorem newArray_own : FailsOwn (newArray kind) := by
  refine .bind popInt_own fun _ => ?_
  split
  exacts [throw_own (.fatal nofun), .bind (lift_own Exec.newArray_own) fun _ => push_own]

theorem newReferenceArray_own : FailsOwn (newReferenceArray index) :=
  .bind classNameAt_own fun _ => .bind popInt_own fun _ =>
    .bind (lift_own Exec.newArray_own) fun _ => push_own

theorem newMultiArray_own {dimensions : Nat} : FailsOwn (newMultiArray index dimensions) := by
  refine .bind classNameAt_own fun _ => .bind (takeOff_own fun _ => OperandStack.popArgs_errs)
    fun _ => .bind (.mapM fun _ => Value.asInt_errs.aborts) fun _ => ?_
  have filled {name : String} {lengths : List Int32} : FailsOwn (do
      push (.ofRef (← Exec.multiArray name (lengths.take (dimensionsOf name)))) : FrameM Unit) :=
    .bind (lift_own Exec.multiArray_own) fun _ => push_own
  dsimp only
  split
  exacts [.bind (throw_own (.raise (by decide))) fun _ => filled, filled]

theorem arrayLength_own : FailsOwn arrayLength := by
  refine .bind popObject_own fun _ => .bind (lift_own Exec.object_own) fun _ => ?_
  split
  exacts [push_own, throw_own (.fatal nofun)]

/-! ## Fields and monitors -/

theorem classAt_own : FailsOwn (classAt index) :=
  .bind owner_own fun _ => lift_own Exec.classAt_own

theorem staticSite_own : FailsOwn (staticSite index) := by
  refine .bind owner_own fun _ => .bind (lift_own Exec.resolveField_own) fun site => ?_
  cases site with
  | staticSlot c i => exact .pure _
  | instanceSlot => exact throw_own (.raise (by decide))

theorem instanceSite_own : FailsOwn (instanceSite index) := by
  refine .bind owner_own fun _ => .bind (lift_own Exec.resolveField_own) fun site => ?_
  cases site with
  | staticSlot => exact throw_own (.raise (by decide))
  | instanceSlot c i => exact .pure _

theorem popHolder_own {declaring : Class} : FailsOwn (popHolder declaring) := by
  refine .bind popObject_own fun _ => .bind (lift_own Exec.object_own) fun _ => ?_
  split
  exacts [.pure _, throw_own (.raise (by decide))]

theorem getField_own : FailsOwn (getField index) :=
  .bind instanceSite_own fun _ => .bind popHolder_own fun _ => .bind Object.getSlot_errs.aborts
    fun _ => push_own

theorem putField_own : FailsOwn (putField index) :=
  .bind instanceSite_own fun _ => .bind pop_own fun _ => .bind popHolder_own fun _ =>
    .bind Object.putSlot_errs.aborts fun _ => lift_own Exec.updateObject_failsWith

theorem monitorEnter_own : FailsOwn (monitorEnter thread) := by
  refine .bind peek_own fun _ => .bind Value.asObject_errs.fails fun _ =>
    .bind (lift_own Exec.tryEnter_own) fun _ => ?_
  split
  exacts [.bind (.discard pop_own) fun _ => modifyFrame_failsWith.bind fun _ => .pure _, .pure _]

theorem monitorExit_own : FailsOwn (monitorExit thread) :=
  .bind popObject_own fun _ =>
    .bind (lift_own (Exec.withMonitor_own fun _ => Monitor.exit_errs)) fun _ =>
    .bind (lift_own Exec.request_failsWith) fun _ => modifyFrame_failsWith

/-! ## Calls, objects and constants -/

theorem receiver_own {arguments : Nat} : FailsOwn (receiver arguments) := by
  cases arguments with
  | zero => exact throw_own (.fatal nofun)
  | succ n => exact .bind peek_own fun _ => Value.asObject_errs.fails

theorem invokeSpecial_own : FailsOwn (invokeSpecial index) :=
  .bind owner_own fun _ => .bind (lift_own Exec.resolveMethod_own) fun _ =>
    .bind (.discard receiver_own) fun _ => .pure _

theorem invokeVirtual_own : FailsOwn (invokeVirtual index) := by
  refine .bind owner_own fun _ => .bind (lift_own Exec.resolveMethod_own) fun resolved => ?_
  have select : FailsOwn (do
      let c ← Exec.typeOf (← receiver resolved.method.argumentCount)
      if resolved.owner.isInterface && !c.isAssignableTo resolved.owner then
        throw (.interfaceNotImplemented c.name resolved.owner.name)
      return .invoke (virtualTarget c resolved) : FrameM Next) := by
    refine .bind receiver_own fun _ => .bind (lift_own Exec.typeOf_own) fun c => ?_
    dsimp only
    split
    exacts [.bind (throw_own (.raise (by decide))) fun _ => .pure _, .pure _]
  dsimp only
  split
  exacts [.bind (throw_own (.raise (by decide))) fun _ => select, select]

theorem invokeDynamic_own : FailsOwn (invokeDynamic index) := by
  refine .bind constant_own fun _ => ?_
  split
  exacts [throw_own (.raise (by decide)), wrongConstant_own]

theorem checkCast_own : FailsOwn (checkCast index) := by
  refine .bind peek_own fun _ => .bind Value.asReference_errs.aborts fun r => ?_
  cases r with
  | none => exact .pure _
  | some r =>
    refine .bind classAt_own fun _ => .bind (lift_own Exec.typeOf_own) fun _ => ?_
    split
    exacts [throw_own (.raise (by decide)), .pure _]

theorem instanceOf_own : FailsOwn (instanceOf index) := by
  refine .bind popReference_own fun r => ?_
  cases r with
  | none => exact push_own
  | some r =>
    exact .bind classAt_own fun _ => .bind (lift_own Exec.typeOf_own) fun _ => push_own

theorem loadConstant_own : FailsOwn (loadConstant index) := by
  refine .bind owner_own fun _ => .bind constant_own fun constant => ?_
  cases constant with
  | int => exact push_own
  | float => exact push_own
  | long => exact push_own
  | double => exact push_own
  | string => exact .bind (lift_own Exec.intern_own) fun _ => push_own
  | classRef =>
    exact .bind (lift_own Exec.mentioned_own) fun _ =>
      .bind (lift_own Exec.classObject_own) fun _ => push_own
  | methodHandle => exact throw_own (.raise (by decide))
  | methodType => exact throw_own (.raise (by decide))
  | _ => exact wrongConstant_own

/-! ## Instructions -/

/-- An instruction that needs no class to be ready fails with faults of the machine's own. -/
theorem execute_own {i : Instruction} (hn : i.needsClass = false) :
    FailsOwn (execute host thread i) := by
  cases i with
  | nop => exact .pure _
  | literal => exact andAdvance_own push_own
  | loadConstant => exact andAdvance_own loadConstant_own
  | load =>
    exact andAdvance_own
      (.bind load_own fun _ => .bind ValueKind.check_errs.aborts fun _ => push_own)
  | store =>
    exact andAdvance_own
      (.bind pop_own fun _ => .bind ValueKind.check_errs.aborts fun _ => store_own)
  | arrayLoad => exact andAdvance_own arrayLoad_own
  | arrayStore => exact andAdvance_own arrayStore_own
  | pop => exact andAdvance_own (.discard (takeOff_own fun _ => OperandStack.popSlots_errs))
  | dup => exact andAdvance_own (onStack_own fun _ => OperandStack.dup_errs)
  | swap => exact andAdvance_own (onStack_own fun _ => OperandStack.swap_errs)
  | binary => exact andAdvance_own binary_own
  | shift => exact andAdvance_own shift_own
  | neg => exact andAdvance_own negate_own
  | increment => exact andAdvance_own increment_own
  | convert => exact andAdvance_own convert_own
  | narrow => exact andAdvance_own (.bind popInt_own fun _ => push_own)
  | compareLong => exact andAdvance_own compareLongs_own
  | compareFloat => exact andAdvance_own compareFloats_own
  | compareDouble => exact andAdvance_own compareDoubles_own
  | branchZero => exact .bind popInt_own fun _ => .pure _
  | branchInts => exact .bind popInt_own fun _ => .bind popInt_own fun _ => .pure _
  | branchSame => exact .bind popReference_own fun _ => .bind popReference_own fun _ => .pure _
  | branchNull => exact .bind popReference_own fun _ => .pure _
  | goto => exact .pure _
  | jumpSubroutine => exact getFrame_failsWith.bind fun _ => .bind push_own fun _ => .pure _
  | returnSubroutine =>
    exact .bind load_own fun _ => .bind Value.asReturnAddress_errs.aborts fun _ => .pure _
  | tableSwitch => exact .bind popInt_own fun _ => .pure _
  | lookupSwitch => exact .bind popInt_own fun _ => .pure _
  | leave kind =>
    cases kind with
    | none => exact .pure _
    | some kind => exact .bind pop_own fun _ => .bind ValueKind.check_errs.aborts fun _ => .pure _
  | getStatic => cases hn
  | putStatic => cases hn
  | getField => exact andAdvance_own getField_own
  | putField => exact andAdvance_own putField_own
  | invokeVirtual => exact invokeVirtual_own
  | invokeInterface => exact invokeVirtual_own
  | invokeSpecial => exact invokeSpecial_own
  | invokeStatic => cases hn
  | invokeDynamic => exact invokeDynamic_own
  | new => cases hn
  | newArray => exact andAdvance_own newArray_own
  | newReferenceArray => exact andAdvance_own newReferenceArray_own
  | newMultiArray => exact andAdvance_own newMultiArray_own
  | arrayLength => exact andAdvance_own arrayLength_own
  | throwTop => exact .bind popObject_own fun _ => throw_own .object
  | checkCast => exact andAdvance_own checkCast_own
  | instanceOf => exact andAdvance_own instanceOf_own
  | monitorEnter => exact monitorEnter_own
  | monitorExit => exact andAdvance_own monitorExit_own

end FrameM

end GreenVm
