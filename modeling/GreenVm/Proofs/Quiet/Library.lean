/-
  The operations of the built-in classes that are quiet: all but those for which monitors, threads
  and the end of the program are there.
-/
import GreenVm.Proofs.Quiet
import Mathlib.Data.List.TakeWhile

namespace GreenVm

open Exec

/-- Whether an operation only does quiet work. -/
def Builtin.isQuiet : Builtin → Bool
  | .object .wait | .object .waitTimeout | .object .notify | .object .notifyAll => false
  | .system .exit => false
  | .thread .getName | .thread .getId => true
  | .thread _ => false
  | _ => true

variable {R : Machine → Machine → Prop} [Calm R] {call : NativeCall}

/-! ## Arguments -/

namespace NativeCall

theorem stringArg_within {i : Nat} : Within R (call.stringArg i) := by
  refine .bind (.liftExcept _) fun v => .bind (.liftExcept _) fun r => ?_
  split
  · exact .map textOf_within _
  · exact .pure _

end NativeCall

/-! ## Objects and classes -/

theorem NativeCall.represents_within : Within R call.represents := by
  refine .bind (.liftExcept _) fun _ => .bind object_within fun _ => ?_
  split
  · exact .pure _
  · exact .throw _

theorem ClassOp.run_within {op : ClassOp} : Within R (op.run call) := by
  refine .bind NativeCall.represents_within fun c => ?_
  cases op with
  | getName => exact .bind newString_within fun _ => .pure _
  | getSuperclass =>
    simp only
    split
    · exact .bind classObject_within fun _ => .pure _
    · exact .pure _
  | isInterface => exact .pure _
  | isArray => exact .pure _
  | isInstance =>
    refine .bind (.liftExcept _) fun _ => .bind (.liftExcept _) fun r => ?_
    cases r with
    | none => exact .pure _
    | some r => exact .bind typeOf_within fun _ => .pure _

theorem ObjectOp.run_within {op : ObjectOp} (h : (Builtin.object op).isQuiet = true) :
    Within R (op.run call) := by
  cases op with
  | hashCode => exact .bind (.liftExcept _) fun _ => .pure _
  | equals =>
    exact .bind (.liftExcept _) fun _ => .bind (.liftExcept _) fun _ => .bind (.liftExcept _)
      fun _ => .pure _
  | toString =>
    exact .bind (.liftExcept _) fun _ => .bind typeOf_within fun _ => .bind newString_within
      fun _ => .pure _
  | clone =>
    refine .bind (.liftExcept _) fun _ => .bind loadClass_within fun _ => .bind typeOf_within
      fun _ => ?_
    have copy (r : Ref) : Within R (do return some (Value.ofRef (← cloneObject r)) : Exec (Option Value)) :=
      .bind cloneObject_within fun _ => .pure _
    dsimp only
    split
    · exact .bind (.throw _) fun _ => copy _
    · exact copy _
  | getClass =>
    exact .bind (.liftExcept _) fun _ => .bind typeOf_within fun _ => .bind classObject_within
      fun _ => .pure _
  | wait => cases h
  | waitTimeout => cases h
  | notify => cases h
  | notifyAll => cases h

/-! ## Strings, builders and streams -/

theorem StringOp.run_within {op : StringOp} : Within R (op.run call) := by
  have text : Within R call.thisText := .bind (.liftExcept _) fun _ => textOf_within
  cases op with
  | length => exact .bind text fun _ => .pure _
  | isEmpty => exact .bind text fun _ => .pure _
  | charAt =>
    exact .bind text fun _ => .bind (.liftExcept _) fun _ => .bind (.liftExcept _) fun _ =>
      .bind (.liftExcept _) fun _ => .pure _
  | equals =>
    refine .bind text fun _ => .bind (.liftExcept _) fun _ => .bind (.liftExcept _) fun r => ?_
    cases r with
    | none => exact .pure _
    | some r => exact .bind object_within fun _ => .pure _
  | hashCode => exact .bind text fun _ => .pure _
  | toString => exact .bind (.liftExcept _) fun _ => .pure _
  | concat =>
    refine .bind text fun _ => .bind NativeCall.stringArg_within fun other => ?_
    cases other with
    | none => exact .throw _
    | some other =>
      dsimp only
      split
      · exact .bind (.liftExcept _) fun _ => .pure _
      · exact .bind newString_within fun _ => .pure _
  | intern => exact .bind text fun _ => .bind intern_within fun _ => .pure _
  | valueOf kind =>
    exact .bind (.liftExcept _) fun _ => .bind (.liftExcept _) fun _ => .bind newString_within
      fun _ => .pure _

theorem NativeCall.collected_within : Within R call.collected := by
  refine .bind (.liftExcept _) fun _ => .bind object_within fun _ => ?_
  split
  · exact .pure _
  · exact .throw _

theorem NativeCall.append_within {text : String} : Within R (call.append text) :=
  .bind collected_within fun _ =>
    .bind (updatePayload_within fun _ => ⟨rfl, rfl, rfl, rfl, rfl, rfl⟩) fun _ => .pure _

theorem BuilderOp.run_within {op : BuilderOp} : Within R (op.run call) := by
  cases op with
  | init =>
    exact .bind (.liftExcept _) fun _ =>
      .bind (updatePayload_within fun _ => ⟨rfl, rfl, rfl, rfl, rfl, rfl⟩) fun _ => .pure _
  | initString =>
    refine .bind NativeCall.stringArg_within fun text => ?_
    cases text with
    | none => exact .throw _
    | some text =>
      exact .bind (.liftExcept _) fun _ =>
        .bind (updatePayload_within fun _ => ⟨rfl, rfl, rfl, rfl, rfl, rfl⟩) fun _ => .pure _
  | appendString => exact .bind NativeCall.stringArg_within fun _ => NativeCall.append_within
  | length => exact .bind NativeCall.collected_within fun _ => .pure _
  | toString =>
    exact .bind NativeCall.collected_within fun _ => .bind newString_within fun _ => .pure _
  | append kind =>
    exact .bind (.liftExcept _) fun _ => .bind (.liftExcept _) fun _ => NativeCall.append_within

theorem NativeCall.print_within {text : String} {line : Bool} :
    Within R (call.print text line) := by
  refine .bind (.liftExcept _) fun _ => .bind object_within fun _ => ?_
  split
  · exact .throw _
  · exact .bind Exec.print_within fun _ => .pure _

theorem PrintOp.run_within {op : PrintOp} : Within R (op.run call) := by
  cases op with
  | primitive kind line =>
    exact .bind (.liftExcept _) fun _ => .bind (.liftExcept _) fun _ => NativeCall.print_within
  | string line => exact .bind NativeCall.stringArg_within fun _ => NativeCall.print_within
  | lineEnd => exact NativeCall.print_within

/-! ## The system and throwables -/

theorem Object.setElements_alike (o : Object) (place : Nat) (vs : List Value) :
    o.Alike (o.setElements place vs) := by
  induction vs generalizing o place with
  | nil => exact ⟨rfl, rfl, rfl, rfl, rfl, rfl⟩
  | cons v vs ih =>
    have h := ih (o.setElement place v) (place + 1)
    exact ⟨h.type_eq, h.monitor_eq, h.text_eq, h.represents_eq, h.thread_eq, h.started_eq⟩

/-- What one array takes from another it may hold. -/
theorem takenBy_holds {bools : Int32 → Prop} {h : Heap} {source target : Object} {itself : Bool}
    {available : Array Value} {values : List Value} (hs : source.Filled bools h)
    (ht : target.type.IsOfArrays) (hc : checkCopyTypes source.type target.type = .ok ())
    (ha : source.body = .elements available) (hi : itself = true → source = target)
    (hv : ∀ v ∈ values, v ∈ available) :
    ∀ v ∈ takenBy h target itself values, target.type.Holds bools h v := by
  obtain ⟨⟨s, hsource, -⟩, held⟩ := hs available ha
  obtain ⟨t, htarget, helement⟩ := ht
  -- the types are the same, or references both
  have types : s = t ∨ s.isReference = true ∧ t.isReference = true := by
    rw [checkCopyTypes, hsource, htarget] at hc
    dsimp only at hc
    split at hc
    · cases hc
    · next hn =>
      by_cases he : s = t
      · exact .inl he
      · simp only [FieldType.isPrimitive, bne_iff_ne, ne_eq, Bool.and_eq_true, Bool.or_eq_true,
          Bool.not_eq_true', he, not_false_eq_true, and_true, not_or, Bool.not_eq_false] at hn
        exact .inr hn
  intro v hmem
  have taken : v ∈ values ∧ (itself = true ∨
      ∀ e, target.type.element = some e → h.mayHold e v = true) := by
    unfold takenBy at hmem
    split at hmem
    · next e he =>
      split at hmem
      · next hi => exact ⟨hmem, .inl hi⟩
      · refine ⟨(List.takeWhile_sublist _).mem hmem, .inr fun e' he' => ?_⟩
        cases he.symm.trans he'
        exact List.mem_takeWhile_imp hmem
    · next hnone =>
      refine ⟨hmem, .inr fun e he => ?_⟩
      cases hnone.symm.trans he
  obtain ⟨hmem, hmay⟩ := taken
  have hold := held v (hv v hmem)
  have admitted : s.Admits bools v := hold.admitted s hsource
  refine ⟨fun t' ht' => ?_, fun r hr => ?_⟩
  · cases htarget.symm.trans ht'
    rcases types with rfl | ⟨hs, ht⟩
    · exact admitted
    · obtain ⟨x, rfl⟩ := admitted.reference hs
      exact FieldType.admits_reference ht x
  · obtain ⟨o, e, ho, he, hassign⟩ := hold.assignable r hr
    rcases hmay with hself | hmay
    · exact ⟨o, e, ho, hi hself ▸ he, hassign⟩
    · subst hr
      have ht : t.isReference = true := by
        rcases types with rfl | ⟨-, ht⟩
        · exact admitted.isReference
        · exact ht
      obtain ⟨e', he'⟩ := Option.isSome_iff_exists.1 (helement ht)
      have hmay : (h.get? r).all (·.type.isAssignableTo e') = true := hmay e' he'
      rw [ho] at hmay
      exact ⟨o, e', ho, he', hmay⟩

theorem NativeCall.arraycopy_within : Within R call.arraycopy := by
  refine .bind (.liftExcept _) fun _ => .bind (.liftExcept _) fun source => .bind (.liftExcept _)
    fun _ => .bind (.liftExcept _) fun _ => .bind (.liftExcept _) fun _ => .bind (.liftExcept _)
    fun target => .bind (.liftExcept _) fun _ => .bind (.liftExcept _) fun _ => .bind (.liftExcept _)
    fun _ => .bind (.liftExcept _) fun _ m => ?_
  refine Within.bind_at (object_within m) fun s m₁ hs => ?_
  obtain ⟨hs, rfl⟩ := object_ok hs
  refine Within.bind_at (object_within m₁) fun t m₂ ht => ?_
  obtain ⟨ht, rfl⟩ := object_ok ht
  refine Within.lift_bind fun _ hc => Within.lift_bind fun _ _ => Within.lift_bind fun available ha =>
    Within.bind_at (Within.discard (.liftExcept _) m₂) fun _ m₃ hd => ?_
  obtain ⟨h, rfl⟩ : _ ∧ m₂ = m₃ := Prod.mk.inj ((outcome_discard _ _).symm.trans hd)
  obtain ⟨old, hold, -⟩ := except_map_eq_ok.1 h
  rw [outcome_bind_ok (outcome_get m₂)]
  refine Within.bind_at (Calm.update m₂ target _ (fun o _ => o.setElements_alike _ _)
    fun o ho => ⟨fun bools h0 h1 hf => ?_, fun hm => (hm.objects target o ho).setElements _ _,
      fun hm => (hm.objects target o ho).setElements _ _⟩)
      fun _ m₃ _ => ?_
  · cases ht.symm.trans ho
    have target_ofArrays := (hf.arrays target t ht old (Object.elements_ok (liftM_eq_ok.1 hold))).1
    refine (hf.arrays target t ht).setElements ?_ _
    refine takenBy_holds (hf.arrays source s hs) target_ofArrays hc
      (Object.elements_ok (liftM_eq_ok.1 ha)) (fun he => ?_) fun v hv => ?_
    · obtain rfl := beq_iff_eq.1 he
      exact Option.some.inj (hs.symm.trans ht)
    · rw [Array.toList_extract] at hv
      exact Array.mem_def.2 (List.mem_of_mem_drop (List.mem_of_mem_take hv))
  · dsimp only
    split
    · exact Within.bind (.throw _) (fun _ => .pure _) m₃
    · exact Within.pure _ m₃

theorem SystemOp.run_within {op : SystemOp} (h : (Builtin.system op).isQuiet = true) :
    Within R (op.run call) := by
  cases op with
  | classInit =>
    refine .bind (.forIn fun field _ => ?_) fun _ => .pure _
    refine .bind newObject_within fun _ => .bind ?_ fun _ =>
      .bind (.discard putStaticByKey_within) fun _ => .pure _
    exact updatePayload_within fun _ => ⟨rfl, rfl, rfl, rfl, rfl, rfl⟩
  | arraycopy => exact NativeCall.arraycopy_within
  | identityHashCode => exact .bind (.liftExcept _) fun _ => .bind (.liftExcept _) fun _ => .pure _
  | currentTimeMillis => exact read_within fun _ => .pure _
  | nanoTime => exact read_within fun _ => .pure _
  | exit => cases h
  | lineSeparator => exact .bind newString_within fun _ => .pure _

theorem NativeCall.initThrowable_within {message cause : Value} :
    Within R (call.initThrowable message cause) :=
  .bind (.liftExcept _) fun _ => .bind putField_within fun _ => .bind putField_within fun _ =>
    .pure _

theorem describe_within {r : Ref} : Within R (describe r) := by
  refine .bind typeOf_within fun _ => .bind getField_within fun _ => .bind (.liftExcept _)
    fun s => ?_
  cases s with
  | none => exact .pure _
  | some s => exact .bind textOf_within fun _ => .pure _

theorem ThrowableOp.run_within {op : ThrowableOp} : Within R (op.run call) := by
  cases op with
  | init => exact NativeCall.initThrowable_within
  | initMessage => exact .bind (.liftExcept _) fun _ => NativeCall.initThrowable_within
  | initMessageCause =>
    exact .bind (.liftExcept _) fun _ => .bind (.liftExcept _) fun _ =>
      NativeCall.initThrowable_within
  | initWithCause =>
    refine .bind (.liftExcept _) fun _ => .bind (.liftExcept _) fun cause => ?_
    cases cause with
    | none => exact NativeCall.initThrowable_within
    | some cause =>
      exact .bind describe_within fun _ => .bind newString_within fun _ =>
        NativeCall.initThrowable_within
  | getMessage => exact .bind (.liftExcept _) fun _ => .bind getField_within fun _ => .pure _
  | getCause => exact .bind (.liftExcept _) fun _ => .bind getField_within fun _ => .pure _
  | setCause =>
    exact .bind (.liftExcept _) fun _ => .bind (.liftExcept _) fun _ => .bind putField_within
      fun _ => .pure _
  | toString =>
    exact .bind (.liftExcept _) fun _ => .bind describe_within fun _ => .bind newString_within
      fun _ => .pure _
  | printStackTrace =>
    exact .bind (.liftExcept _) fun _ => read_within fun _ => .bind Exec.print_within fun _ =>
      .pure _
  | fillInStackTrace => exact .bind (.liftExcept _) fun _ => .pure _

/-! ## Threads -/

theorem threadOf_within {r : Ref} : Within R (threadOf r) := by
  refine .bind object_within fun _ => ?_
  split
  · exact .pure _
  · exact .throw _

/-- Starts the `run` of an object in the thread of an id. -/
def NativeCall.startRun (r : Ref) (id : ThreadId) : Exec (Option Value) := do
  match (← typeOf r).findMethod? "run" "()V" with
  | none => throw .noRunMethod
  | some run =>
    let name ← threadName r
    updatePayload r ({ · with started := true })
    spawn (.starting id name run [.ofRef r])
    return none

theorem threadName_within {r : Ref} : Within R (threadName r) := by
  refine .bind getField_within fun _ => .bind (.liftExcept _) fun s => ?_
  cases s with
  | none => exact .pure _
  | some s => exact textOf_within

theorem ThreadOp.run_within {op : ThreadOp} (h : (Builtin.thread op).isQuiet = true) :
    Within R (op.run call) := by
  cases op with
  | getName => exact .bind (.liftExcept _) fun _ => .bind getField_within fun _ => .pure _
  | getId => exact .bind (.liftExcept _) fun _ => .bind threadOf_within fun _ => .pure _
  | _ => cases h

theorem Builtin.run_within {op : Builtin} (h : op.isQuiet = true) : Within R (op.run call) := by
  cases op with
  | nothing => exact .pure _
  | object op => exact ObjectOp.run_within h
  | classObject op => exact ClassOp.run_within
  | string op => exact StringOp.run_within
  | builder op => exact BuilderOp.run_within
  | system op => exact SystemOp.run_within h
  | print op => exact PrintOp.run_within
  | thread op => exact ThreadOp.run_within h
  | throwable op => exact ThrowableOp.run_within

/-! ## Functions of the embedder -/

/-- The functions of an embedder stay within a relation. -/
def Host.Within (R : Machine → Machine → Prop) (host : Host) : Prop :=
  ∀ name call, GreenVm.Within R (host name call)

omit [Calm R] in
theorem Host.Within.mono {R' : Machine → Machine → Prop} {host : Host} (h : host.Within R)
    (hr : ∀ m m', R m m' → R' m m') : host.Within R' :=
  fun name call => (h name call).mono hr

/-- Functions that do nothing. -/
def Host.idle : Host := fun _ _ => return none

omit [Calm R] in
theorem Host.idle_within [Std.Refl R] : Host.idle.Within R := fun _ _ => .pure _

end GreenVm
