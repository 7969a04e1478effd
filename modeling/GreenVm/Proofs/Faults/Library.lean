/-
  The faults of the operations of the built-in classes are the machine's own.
-/
import GreenVm.Proofs.Faults.Machine

namespace GreenVm

open Exec

variable {call : NativeCall}

/-! ## Arguments -/

theorem Value.asBool_errs {v : Value} : ErrsWith EngineError.IsOwn v.asBool :=
  .bind asInt_errs fun _ => .ok _

theorem Primitive.text_errs {kind : Primitive} {v : Value} :
    ErrsWith EngineError.IsOwn (kind.text v) := by
  cases kind with
  | boolean => exact .bind Value.asBool_errs fun _ => .ok _
  | long => exact .bind Value.asLong_errs fun _ => .ok _
  | float => exact .bind Value.asFloat_errs fun _ => .ok _
  | double => exact .bind Value.asDouble_errs fun _ => .ok _
  | _ => exact .bind Value.asInt_errs fun _ => .ok _

theorem unitAt_errs {text : String} {index : Int32} : ErrsWith Fault.IsPlain (unitAt text index) := by
  unfold unitAt
  dsimp only
  split
  exacts [.ok _, .error (.raise (by decide))]

namespace NativeCall

theorem arg_errs {i : Nat} : ErrsWith EngineError.IsOwn (call.arg i) := by
  unfold arg
  split
  exacts [.ok _, .error nofun]

theorem this_errs : ErrsWith Fault.IsPlain call.this := by
  unfold this
  split
  exacts [.ok _, .error Fault.nullPointer_plain]

theorem arg_own {i : Nat} : FailsOwn (liftM (liftM (call.arg i) : Except Fault Value) : Exec Value) :=
  arg_errs.aborts

theorem this_own : FailsOwn (liftM call.this : Exec Ref) := this_errs.fails

theorem stringArg_own {i : Nat} : FailsOwn (call.stringArg i) := by
  refine .bind arg_own fun v => .bind Value.asReference_errs.aborts fun r => ?_
  split
  exacts [.map textOf_own, .pure _]

theorem thisText_own : FailsOwn call.thisText := .bind this_own fun _ => textOf_own

end NativeCall

/-! ## Objects and classes -/

theorem NativeCall.represents_own : FailsOwn call.represents := by
  refine .bind this_own fun _ => .bind object_own fun _ => ?_
  split
  exacts [.pure _, throw_own (.fatal fun _ _ h => by cases h)]

theorem ClassOp.run_own {op : ClassOp} : FailsOwn (op.run call) := by
  refine .bind NativeCall.represents_own fun c => ?_
  cases op with
  | getName => exact .bind newString_own fun _ => .pure _
  | getSuperclass =>
    simp only
    split
    · exact .bind classObject_own fun _ => .pure _
    · exact .pure _
  | isInterface => exact .pure _
  | isArray => exact .pure _
  | isInstance =>
    refine .bind NativeCall.arg_own fun _ => .bind Value.asReference_errs.aborts fun r => ?_
    cases r with
    | none => exact .pure _
    | some r => exact .bind typeOf_own fun _ => .pure _

theorem NativeCall.wait_own {millis : Option Nat} : FailsOwn (call.wait millis) :=
  .bind this_own fun _ => .bind (withMonitor_own fun _ => Monitor.wait_errs) fun _ =>
    .bind request_failsWith fun _ => .bind request_failsWith fun _ => .pure _

theorem ObjectOp.run_own {op : ObjectOp} : FailsOwn (op.run call) := by
  cases op with
  | hashCode => exact .bind NativeCall.this_own fun _ => .pure _
  | equals =>
    exact .bind NativeCall.this_own fun _ => .bind NativeCall.arg_own fun _ =>
      .bind Value.asReference_errs.aborts fun _ => .pure _
  | toString =>
    exact .bind NativeCall.this_own fun _ => .bind typeOf_own fun _ => .bind newString_own fun _ =>
      .pure _
  | clone =>
    refine .bind NativeCall.this_own fun r => .bind loadClass_own fun _ => .bind typeOf_own
      fun _ => ?_
    have copy : FailsOwn (do return some (Value.ofRef (← cloneObject r)) : Exec (Option Value)) :=
      .bind cloneObject_own fun _ => .pure _
    dsimp only
    split
    exacts [.bind (throw_own (.raise (by decide))) fun _ => copy, copy]
  | getClass =>
    exact .bind NativeCall.this_own fun _ => .bind typeOf_own fun _ => .bind classObject_own
      fun _ => .pure _
  | wait => exact NativeCall.wait_own
  | waitTimeout =>
    refine .bind NativeCall.arg_own fun _ => .bind Value.asLong_errs.aborts fun _ => ?_
    dsimp only
    split
    exacts [.bind (throw_own (.raise (by decide))) fun _ => NativeCall.wait_own, NativeCall.wait_own]
  | notify =>
    exact .bind NativeCall.this_own fun _ => .bind (withMonitor_own fun _ => Monitor.notify_errs)
      fun _ => .bind request_failsWith fun _ => .pure _
  | notifyAll =>
    exact .bind NativeCall.this_own fun _ => .bind (withMonitor_own fun _ => Monitor.notifyAll_errs)
      fun _ => .bind request_failsWith fun _ => .pure _

/-! ## Strings, builders and streams -/

theorem StringOp.run_own {op : StringOp} : FailsOwn (op.run call) := by
  cases op with
  | length => exact .bind NativeCall.thisText_own fun _ => .pure _
  | isEmpty => exact .bind NativeCall.thisText_own fun _ => .pure _
  | charAt =>
    exact .bind NativeCall.thisText_own fun _ => .bind NativeCall.arg_own fun _ =>
      .bind Value.asInt_errs.aborts fun _ => .bind unitAt_errs.fails fun _ => .pure _
  | equals =>
    refine .bind NativeCall.thisText_own fun _ => .bind NativeCall.arg_own fun _ =>
      .bind Value.asReference_errs.aborts fun r => ?_
    cases r with
    | none => exact .pure _
    | some r => exact .bind object_own fun _ => .pure _
  | hashCode => exact .bind NativeCall.thisText_own fun _ => .pure _
  | toString => exact .bind NativeCall.this_own fun _ => .pure _
  | concat =>
    refine .bind NativeCall.thisText_own fun _ => .bind NativeCall.stringArg_own fun other => ?_
    cases other with
    | none => exact throw_own Fault.nullPointer_plain
    | some other =>
      dsimp only
      split
      · exact .bind NativeCall.this_own fun _ => .pure _
      · exact .bind newString_own fun _ => .pure _
  | intern => exact .bind NativeCall.thisText_own fun _ => .bind intern_own fun _ => .pure _
  | valueOf kind =>
    exact .bind NativeCall.arg_own fun _ => .bind Primitive.text_errs.aborts fun _ =>
      .bind newString_own fun _ => .pure _

theorem NativeCall.collected_own : FailsOwn call.collected := by
  refine .bind this_own fun _ => .bind object_own fun _ => ?_
  split
  exacts [.pure _, throw_own (.fatal nofun)]

theorem NativeCall.append_own {text : String} : FailsOwn (call.append text) :=
  .bind collected_own fun _ => .bind updatePayload_own fun _ => .pure _

theorem BuilderOp.run_own {op : BuilderOp} : FailsOwn (op.run call) := by
  cases op with
  | init => exact .bind NativeCall.this_own fun _ => .bind updatePayload_own fun _ => .pure _
  | initString =>
    refine .bind NativeCall.stringArg_own fun text => ?_
    cases text with
    | none => exact throw_own Fault.nullPointer_plain
    | some text =>
      exact .bind NativeCall.this_own fun _ => .bind updatePayload_own fun _ => .pure _
  | appendString => exact .bind NativeCall.stringArg_own fun _ => NativeCall.append_own
  | length => exact .bind NativeCall.collected_own fun _ => .pure _
  | toString => exact .bind NativeCall.collected_own fun _ => .bind newString_own fun _ => .pure _
  | append kind =>
    exact .bind NativeCall.arg_own fun _ => .bind Primitive.text_errs.aborts fun _ =>
      NativeCall.append_own

theorem NativeCall.print_own {text : String} {line : Bool} : FailsOwn (call.print text line) := by
  refine .bind this_own fun _ => .bind object_own fun _ => ?_
  split
  exacts [throw_own (.fatal nofun), .bind Exec.print_own fun _ => .pure _]

theorem PrintOp.run_own {op : PrintOp} : FailsOwn (op.run call) := by
  cases op with
  | primitive kind line =>
    exact .bind NativeCall.arg_own fun _ => .bind Primitive.text_errs.aborts fun _ =>
      NativeCall.print_own
  | string line => exact .bind NativeCall.stringArg_own fun _ => NativeCall.print_own
  | lineEnd => exact NativeCall.print_own

/-! ## The system -/

theorem checkCopyTypes_errs {source target : Class} :
    ErrsWith Fault.IsPlain (checkCopyTypes source target) := by
  unfold checkCopyTypes
  split
  · split
    exacts [.error (.raise (by decide)), .ok _]
  · exact .error (.raise (by decide))

theorem checkCopyRange_errs {start length size targetStart targetSize : Int} :
    ErrsWith Fault.IsPlain (checkCopyRange start length size targetStart targetSize) := by
  unfold checkCopyRange
  split
  · exact .error (.raise (by decide))
  split
  · exact .error (.raise (by decide))
  split
  exacts [.error (.raise (by decide)), .ok _]

theorem NativeCall.arraycopy_own : FailsOwn call.arraycopy := by
  refine .bind arg_own fun _ => .bind Value.asObject_errs.fails fun _ => .bind arg_own fun _ =>
    .bind Value.asInt_errs.aborts fun _ => .bind arg_own fun _ =>
    .bind Value.asObject_errs.fails fun _ => .bind arg_own fun _ =>
    .bind Value.asInt_errs.aborts fun _ => .bind arg_own fun _ =>
    .bind Value.asInt_errs.aborts fun _ => .bind object_own fun _ => .bind object_own fun _ =>
    .bind checkCopyTypes_errs.fails fun _ => .bind checkCopyRange_errs.fails fun _ =>
    .bind Object.elements_errs.aborts fun _ => .bind (.discard Object.elements_errs.aborts) fun _ =>
    .bind get_failsWith fun _ => .bind updateObject_failsWith fun _ => ?_
  dsimp only
  split
  exacts [.bind (throw_own (.raise (by decide))) fun _ => .pure _, .pure _]

theorem SystemOp.run_own {op : SystemOp} : FailsOwn (op.run call) := by
  cases op with
  | classInit =>
    refine .bind (.forIn fun (field, s) _ => ?_) fun _ => .pure _
    exact .bind newObject_own fun _ => .bind updatePayload_own fun _ =>
      .bind (.discard putStaticByKey_own) fun _ => .pure _
  | arraycopy => exact NativeCall.arraycopy_own
  | identityHashCode =>
    exact .bind NativeCall.arg_own fun _ => .bind Value.asReference_errs.aborts fun _ => .pure _
  | currentTimeMillis => exact .bind get_failsWith fun _ => .pure _
  | nanoTime => exact .bind get_failsWith fun _ => .pure _
  | exit =>
    exact .bind NativeCall.arg_own fun _ => .bind Value.asInt_errs.aborts fun _ =>
      .bind request_failsWith fun _ => .pure _
  | lineSeparator => exact .bind newString_own fun _ => .pure _

/-! ## Throwables and threads -/

theorem NativeCall.initThrowable_own {message cause : Value} :
    FailsOwn (call.initThrowable message cause) :=
  .bind this_own fun _ => .bind putField_own fun _ => .bind putField_own fun _ => .pure _

theorem describe_own {r : Ref} : FailsOwn (describe r) := by
  refine .bind typeOf_own fun _ => .bind getField_own fun _ =>
    .bind Value.asReference_errs.aborts fun s => ?_
  cases s with
  | none => exact .pure _
  | some s => exact .bind textOf_own fun _ => .pure _

theorem ThrowableOp.run_own {op : ThrowableOp} : FailsOwn (op.run call) := by
  cases op with
  | init => exact NativeCall.initThrowable_own
  | initMessage => exact .bind NativeCall.arg_own fun _ => NativeCall.initThrowable_own
  | initMessageCause =>
    exact .bind NativeCall.arg_own fun _ => .bind NativeCall.arg_own fun _ =>
      NativeCall.initThrowable_own
  | initWithCause =>
    refine .bind NativeCall.arg_own fun _ => .bind Value.asReference_errs.aborts fun cause => ?_
    cases cause with
    | none => exact NativeCall.initThrowable_own
    | some cause =>
      exact .bind describe_own fun _ => .bind newString_own fun _ => NativeCall.initThrowable_own
  | getMessage => exact .bind NativeCall.this_own fun _ => .bind getField_own fun _ => .pure _
  | getCause => exact .bind NativeCall.this_own fun _ => .bind getField_own fun _ => .pure _
  | setCause =>
    exact .bind NativeCall.this_own fun _ => .bind NativeCall.arg_own fun _ =>
      .bind putField_own fun _ => .pure _
  | toString =>
    exact .bind NativeCall.this_own fun _ => .bind describe_own fun _ => .bind newString_own fun _ =>
      .pure _
  | printStackTrace =>
    exact .bind NativeCall.this_own fun _ => .bind get_failsWith fun _ => .bind Exec.print_own
      fun _ => .pure _
  | fillInStackTrace => exact .bind NativeCall.this_own fun _ => .pure _

theorem NativeCall.initThread_own {target : Option Ref} {name : Option String} :
    FailsOwn (call.initThread target name) :=
  .bind this_own fun _ => .bind modifyGet_failsWith fun _ => .bind newString_own fun _ =>
    .bind putField_own fun _ => .bind putField_own fun _ => .bind bindThread_own fun _ => .pure _

theorem threadOf_own {r : Ref} : FailsOwn (threadOf r) := by
  refine .bind object_own fun _ => ?_
  split
  exacts [.pure _, throw_own (.fatal nofun)]

theorem threadName_own {r : Ref} : FailsOwn (threadName r) := by
  refine .bind getField_own fun _ => .bind Value.asReference_errs.aborts fun s => ?_
  cases s with
  | none => exact .pure _
  | some s => exact textOf_own

theorem NativeCall.startRun_own {r : Ref} {id : ThreadId} : FailsOwn (startRun r id) := by
  refine .bind typeOf_own fun _ => ?_
  split
  · exact throw_own (.raise (by decide))
  · exact .bind threadName_own fun _ => .bind updatePayload_own fun _ =>
      .bind request_failsWith fun _ => .pure _

theorem NativeCall.startThread_own : FailsOwn call.startThread := by
  refine .bind this_own fun this => .bind object_own fun o => ?_
  have start : FailsOwn (threadOf this >>= startRun this) :=
    .bind threadOf_own fun _ => startRun_own
  dsimp only
  split
  exacts [.bind (throw_own (.symbolic (by decide))) fun _ => start, start]

theorem ThreadOp.run_own {op : ThreadOp} : FailsOwn (op.run call) := by
  cases op with
  | init => exact NativeCall.initThread_own
  | initTarget =>
    exact .bind NativeCall.arg_own fun _ => .bind Value.asReference_errs.aborts fun _ =>
      NativeCall.initThread_own
  | initTargetName =>
    exact .bind NativeCall.arg_own fun _ => .bind Value.asReference_errs.aborts fun _ =>
      .bind NativeCall.stringArg_own fun _ => NativeCall.initThread_own
  | start => exact NativeCall.startThread_own
  | join =>
    exact .bind NativeCall.this_own fun _ => .bind threadOf_own fun _ =>
      .bind request_failsWith fun _ => .pure _
  | getName => exact .bind NativeCall.this_own fun _ => .bind getField_own fun _ => .pure _
  | getId => exact .bind NativeCall.this_own fun _ => .bind threadOf_own fun _ => .pure _
  | currentThread => exact .bind threadObject_own fun _ => .pure _
  | sleep =>
    have pause (s : Suspend) : FailsOwn (do
        suspend s
        return none : Exec (Option Value)) := .bind request_failsWith fun _ => .pure _
    refine .bind NativeCall.arg_own fun _ => .bind Value.asLong_errs.aborts fun _ => ?_
    dsimp only
    split
    exacts [.bind (throw_own (.raise (by decide))) fun _ => pause _, pause _]
  | yield => exact .bind request_failsWith fun _ => .pure _

/-- An operation of a built-in class fails with faults of the machine's own. -/
theorem Builtin.run_own {op : Builtin} : FailsOwn (op.run call) := by
  cases op with
  | nothing => exact .pure _
  | object op => exact ObjectOp.run_own
  | classObject op => exact ClassOp.run_own
  | string op => exact StringOp.run_own
  | builder op => exact BuilderOp.run_own
  | system op => exact SystemOp.run_own
  | print op => exact PrintOp.run_own
  | thread op => exact ThreadOp.run_own
  | throwable op => exact ThrowableOp.run_own

end GreenVm
