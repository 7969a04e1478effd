/-
  The instructions that are quiet: all but those that enter and leave monitors.  They change nothing
  of their frame but its position, its local variables and its operand stack.

  An instruction that needs a class may initialize it, and a native method may be the initializer;
  what natives do when they are called without receiver and arguments is taken as given
  (`InitializesWithin`).
-/
import GreenVm.Proofs.Quiet.Library

namespace GreenVm

/-- Nothing but the position, the local variables and the operand stack is different. -/
def Frame.Moves (f f' : Frame) : Prop := ∃ pc locals stack, f' = { f with pc, locals, stack }

/-- The frame moves, and a relation holds between the machines. -/
def OnFrame (R : Machine → Machine → Prop) (s s' : Frame × Machine) : Prop :=
  s.1.Moves s'.1 ∧ R s.2 s'.2

/-- What the native methods that stand for class initializers do stays within a relation. -/
def InitializesWithin (R : Machine → Machine → Prop) (host : Host) (thread : ThreadId) : Prop :=
  ∀ (native : Native) (owner : Class),
    Within R (native.run host { owner, receiver := none, args := [], thread })

/-- The instruction uses a class, which must have been initialized. -/
def Instruction.needsClass : Instruction → Bool
  | .getStatic _ | .putStatic _ | .invokeStatic _ | .new _ => true
  | _ => false

/-- The instruction changes an object, or one that it has made. -/
def Instruction.changesObjects : Instruction → Bool
  | .arrayStore _ | .putField _ | .newMultiArray _ _ | .monitorEnter | .monitorExit => true
  | _ => false

variable {R : Machine → Machine → Prop} {α : Type} {f f' : Frame}

theorem Frame.Moves.refl (f : Frame) : f.Moves f := ⟨f.pc, f.locals, f.stack, rfl⟩

theorem Frame.Moves.trans {f'' : Frame} (h : f.Moves f') (h' : f'.Moves f'') : f.Moves f'' := by
  obtain ⟨_, _, _, rfl⟩ := h
  obtain ⟨pc, locals, stack, rfl⟩ := h'
  exact ⟨pc, locals, stack, rfl⟩

theorem Frame.moved_moves (f : Frame) (next : Next) : f.Moves (f.moved next) := by
  cases next <;> exact ⟨_, f.locals, f.stack, rfl⟩

instance [Std.Refl R] : Std.Refl (OnFrame R) := ⟨fun s => ⟨.refl s.1, refl_of R s.2⟩⟩

instance [IsTrans Machine R] : IsTrans (Frame × Machine) (OnFrame R) :=
  ⟨fun _ _ _ h h' => ⟨h.1.trans h'.1, trans_of R h.2 h'.2⟩⟩

/-! ## Classes and their members -/

namespace Exec

variable [Creates R] {host : Host} {thread : ThreadId} {current c : Class} {index : Nat}

theorem mentioned_within {name : String} : Within R (mentioned current name) := by
  unfold mentioned
  split
  · exact .pure _
  · exact loadClass_within

theorem classAt_within : Within R (classAt current index) := by
  refine .bind (.liftExcept _) fun _ => ?_
  split
  · exact mentioned_within
  · exact .throw _

theorem resolveField_within : Within R (resolveField current index) := by
  refine .bind (.liftExcept _) fun _ => ?_
  split
  · exact .bind mentioned_within fun _ => .liftExcept _
  · exact .throw _

/-- The method that a reference means. -/
def methodOf (current : Class) (member : MemberRef) : Exec MethodRef := do
  let owner ← mentioned current member.owner
  match owner.findMethod? member.name member.descriptor with
  | some r => return r
  | none => throw (.noSuchMethod owner.name member.name member.descriptor)

theorem methodOf_within {member : MemberRef} : Within R (methodOf current member) := by
  refine .bind mentioned_within fun _ => ?_
  split
  · exact .pure _
  · exact .throw _

theorem resolveMethod_within : Within R (resolveMethod current index) := by
  refine .bind (.liftExcept _) fun _ => ?_
  split
  · exact methodOf_within
  · exact methodOf_within
  · exact .throw _

theorem storable_within {array : Object} {kind : ArrayKind} {v : Value} :
    Within R (storable array kind v) := by
  unfold storable
  split
  · refine .bind typeOf_within fun _ => ?_
    split
    · exact .pure _
    · exact .throw _
  · exact .bind (.liftExcept _) fun _ => .pure _
  · exact .bind (.liftExcept _) fun _ => .pure _

/-- A new array of arrays is of the class of its name, if this has so many dimensions. -/
theorem multiArray_spec {R : Machine → Machine → Prop} [Calm R] :
    ∀ {name : String} {lengths : List Int32}, lengths.length ≤ dimensionsOf name → Within R (multiArray name lengths) ∧
      Within KeepsClasses (multiArray name lengths) ∧
      ∀ m r m', outcome (multiArray name lengths) m = (.ok r, m') → m'.IsOf r name
  | _, [], _ => ⟨.throw _, .throw _, fun m r m' h => by cases (outcome_throw _ _).symm.trans h⟩
  | _, [_], hn => ⟨newArray_within (isArrayName_of_dimensionsOf hn),
      newArray_within (isArrayName_of_dimensionsOf hn), fun _ _ _ => newArray_isOf⟩
  | name, length :: next :: rest, hn => by
    rw [List.length_cons] at hn
    have hname := isArrayName_of_dimensionsOf (lt_of_lt_of_le (Nat.succ_pos _) hn)
    have hrest : (next :: rest).length ≤ dimensionsOf (elementName name) := by
      rcases dimensionsOf_elementName name with h | h <;> omega
    have helement := isArrayName_of_dimensionsOf (lt_of_lt_of_le (Nat.succ_pos _) hrest)
    obtain ⟨within, keeps, isOf⟩ := multiArray_spec (R := R) hrest
    have stored {R : Machine → Machine → Prop} [Calm R]
        (h : Within R (multiArray (elementName name) (next :: rest))) {array : Ref} {m : Machine}
        (ha : m.IsOf array name) : R m (outcome ((List.range length.toInt.toNat).forM fun i => do
          let element ← multiArray (elementName name) (next :: rest)
          arrayStore array (Int32.ofNat i) (.ofRef element)) m).2 :=
      storeAll_within (fun _ => h) (fun _ => keeps) (fun _ => isOf)
        (fun s c hc => hc.element_elementName hname helement) ha
    rw [multiArray]
    · refine ⟨(newArray_within hname).bind_of fun _ array m h => ?_, 
        (newArray_within hname).bind_of fun _ array m h => ?_, fun m r m' h => ?_⟩
      · exact Within.bind_at (stored within (newArray_isOf h)) fun _ m' _ => Within.pure _ m'
      · exact Within.bind_at (stored keeps (newArray_isOf h)) fun _ m' _ => Within.pure _ m'
      · obtain ⟨array, m₁, ha, hs⟩ := outcome_bind_eq_ok h
        obtain ⟨_, m₂, hl, hr⟩ := outcome_bind_eq_ok hs
        cases (outcome_pure _ _).symm.trans hr
        have kept := stored keeps (newArray_isOf ha)
        rw [hl] at kept
        exact (newArray_isOf ha).keeps kept
    · simp

/-! ## Initialization -/

theorem constantValue_within : Within R (constantValue c index) := by
  refine .bind (.liftExcept _) fun _ => ?_
  split
  · exact .pure _
  · exact .pure _
  · exact .pure _
  · exact .pure _
  · exact .bind intern_within fun _ => .pure _
  · exact .throw _

end Exec

namespace Exec

variable [Calm R] {host : Host} {thread : ThreadId} {c : Class}

theorem assignConstants_within : Within R (assignConstants c) := by
  refine .forM fun (f, i) _ => ?_
  dsimp only
  split
  · exact .pure _
  · exact .bind constantValue_within fun _ => setStatic_within

variable [Initializes R]

omit [Calm R] in
theorem setInit_within {init : InitState} : Within R (setInit c init) :=
  fun m => Initializes.setInit m c init

theorem beginClass_within (h : InitializesWithin R host thread) :
    Within R (beginClass host thread c) := by
  refine .bind setInit_within fun _ => .bind (attempt_within assignConstants_within) fun r => ?_
  cases r with
  | error e => exact .bind setInit_within fun _ => .throw _
  | ok _ =>
    refine read_within fun m => ?_
    split
    · exact .bind setInit_within fun _ => .pure _
    · exact .pure _
    · refine .bind (attempt_within (h _ c)) fun r => ?_
      split
      · exact .bind setInit_within fun _ => .pure _
      · exact .bind setInit_within fun _ => .bind materialize_within fun _ =>
          .bind initializerFailure_within fun _ => .throw _
      · exact .throw _

theorem readyAfter_within (h : InitializesWithin R host thread) {above : Exec Readiness}
    (ha : Within R above) : Within R (readyAfter host thread c above) := by
  refine .bind classState_within fun _ => ?_
  split
  · exact .pure _
  · exact .pure _
  · exact .throw _
  · refine .bind ha fun r => ?_
    split
    · exact beginClass_within h
    · exact .pure _

theorem readyClass_within (h : InitializesWithin R host thread) :
    ∀ {c : Class}, Within R (readyClass host thread c)
  | ⟨_, none, _, _⟩ => by
    rw [readyClass]
    exact readyAfter_within h (.pure _)
  | ⟨_, some s, _, _⟩ => by
    rw [readyClass]
    exact readyAfter_within h (readyClass_within h)

end Exec

/-! ## The frame -/

namespace FrameM

variable {index : Nat} {v : Value}

theorem lift_within {x : Exec α} (h : Within R x) : Within (OnFrame R) (liftM x : FrameM α) := by
  intro s
  rw [outcome_liftFrame]
  exact ⟨.refl s.1, h s.2⟩

/-- Work that begins by reading the frame. -/
theorem readFrame_within [Std.Refl R] [IsTrans Machine R] {g : Frame → FrameM α}
    (h : ∀ f, Within (OnFrame R) (g f)) : Within (OnFrame R) (getThe Frame >>= g) := by
  refine .bind (fun s => ?_) h
  rw [outcome_getFrame]
  exact refl_of (OnFrame R) s

theorem modifyFrame_within [Std.Refl R] {g : Frame → Frame} (h : ∀ f : Frame, f.Moves (g f)) :
    Within (OnFrame R) (modifyThe Frame g : FrameM Unit) := fun s => by
  rw [outcome_modifyFrame]
  exact ⟨h s.1, refl_of R s.2⟩

variable [Std.Refl R] [IsTrans Machine R]

theorem onStack_within {g : OperandStack → Except EngineError OperandStack} :
    Within (OnFrame R) (onStack g) :=
  readFrame_within fun _ => .bind (.liftExcept _) fun _ =>
    modifyFrame_within fun f => ⟨f.pc, f.locals, _, rfl⟩

theorem takeOff_within {g : OperandStack → Except EngineError (α × OperandStack)} :
    Within (OnFrame R) (takeOff g) :=
  readFrame_within fun _ => .bind (.liftExcept _) fun _ =>
    .bind (modifyFrame_within fun f => ⟨f.pc, f.locals, _, rfl⟩) fun _ => .pure _

theorem push_within : Within (OnFrame R) (push v) := onStack_within

theorem pop_within : Within (OnFrame R) pop := takeOff_within

theorem peek_within : Within (OnFrame R) (peek index) := readFrame_within fun _ => .liftExcept _

theorem popInt_within : Within (OnFrame R) popInt := .bind pop_within fun _ => .liftExcept _

theorem popLong_within : Within (OnFrame R) popLong := .bind pop_within fun _ => .liftExcept _

theorem popFloat_within : Within (OnFrame R) popFloat := .bind pop_within fun _ => .liftExcept _

theorem popDouble_within : Within (OnFrame R) popDouble := .bind pop_within fun _ => .liftExcept _

theorem popReference_within : Within (OnFrame R) popReference :=
  .bind pop_within fun _ => .liftExcept _

theorem popObject_within : Within (OnFrame R) popObject := .bind pop_within fun _ => .liftExcept _

theorem popNumber_within {kind : NumKind} : Within (OnFrame R) (popNumber kind) := by
  cases kind with
  | int => exact .bind popInt_within fun _ => .pure _
  | long => exact .bind popLong_within fun _ => .pure _
  | float => exact .bind popFloat_within fun _ => .pure _
  | double => exact .bind popDouble_within fun _ => .pure _

theorem load_within : Within (OnFrame R) (load index) := readFrame_within fun _ => .liftExcept _

theorem store_within : Within (OnFrame R) (store index v) :=
  readFrame_within fun _ => .bind (.liftExcept _) fun _ =>
    modifyFrame_within fun f => ⟨f.pc, _, f.stack, rfl⟩

theorem owner_within : Within (OnFrame R) owner := readFrame_within fun _ => .pure _

theorem constant_within : Within (OnFrame R) (constant index) :=
  .bind owner_within fun _ => .liftExcept _

theorem wrongConstant_within {expected : ConstantRole} :
    Within (OnFrame R) (wrongConstant index expected : FrameM α) :=
  .bind owner_within fun _ => .throw _

omit [Std.Refl R] [IsTrans Machine R] in
/-- Popping takes the top value, and changes nothing but the stack. -/
theorem pop_ok {f : Frame} {m : Machine} {s : Frame × Machine} (h : outcome pop (f, m) = (.ok v, s)) :
    ∃ stack, f.stack.values = v :: stack.values ∧ s = ({ f with stack }, m) := by
  rw [pop, takeOff, outcome_bind_ok (outcome_getFrame _)] at h
  obtain ⟨⟨w, stack⟩, s₁, hp, hs⟩ := outcome_bind_eq_ok h
  obtain ⟨hok, rfl⟩ := Prod.mk.inj ((outcome_liftExcept (M := FrameM) _ _).symm.trans hp)
  cases hs
  have hpop := liftM_eq_ok.1 hok
  unfold OperandStack.pop at hpop
  split at hpop
  · cases hpop
  · next hv =>
    cases hpop
    exact ⟨_, hv, rfl⟩

omit [Std.Refl R] [IsTrans Machine R] in
theorem popInt_ok {f : Frame} {m : Machine} {i : Int32} {s : Frame × Machine}
    (h : outcome popInt (f, m) = (.ok i, s)) :
    ∃ stack, f.stack.values = .int i :: stack.values ∧ s = ({ f with stack }, m) := by
  obtain ⟨v, s₁, hp, hv⟩ := outcome_bind_eq_ok h
  obtain ⟨hv, rfl⟩ := Prod.mk.inj ((outcome_liftExcept (M := FrameM) _ _).symm.trans hv)
  obtain ⟨stack, hvalues, rfl⟩ := pop_ok hp
  cases v <;> cases hv
  exact ⟨stack, hvalues, rfl⟩

omit [Std.Refl R] [IsTrans Machine R] in
theorem popObject_ok {f : Frame} {m : Machine} {r : Ref} {s : Frame × Machine}
    (h : outcome popObject (f, m) = (.ok r, s)) :
    ∃ stack, f.stack.values = .ofRef r :: stack.values ∧ s = ({ f with stack }, m) := by
  obtain ⟨v, s₁, hp, hv⟩ := outcome_bind_eq_ok h
  obtain ⟨hok, rfl⟩ := Prod.mk.inj ((outcome_liftExcept (M := FrameM) _ _).symm.trans hv)
  obtain ⟨stack, hvalues, rfl⟩ := pop_ok hp
  obtain ⟨x, hx, hr⟩ := except_bind_eq_ok.1 hok
  cases v <;> cases hx
  cases x <;> cases hr
  exact ⟨stack, hvalues, rfl⟩

theorem andAdvance_within {x : FrameM Unit} (h : Within (OnFrame R) x) :
    Within (OnFrame R) (andAdvance x) := .bind h fun _ => .pure _

/-! ### Arithmetic -/

theorem binary_within {op : BinaryOp} {kind : NumKind} : Within (OnFrame R) (binary op kind) := by
  cases kind with
  | int =>
    exact .bind popInt_within fun _ => .bind popInt_within fun _ => .bind (.liftExcept _)
      fun _ => push_within
  | long =>
    exact .bind popLong_within fun _ => .bind popLong_within fun _ => .bind (.liftExcept _)
      fun _ => push_within
  | float =>
    exact .bind popFloat_within fun _ => .bind popFloat_within fun _ => .bind (.liftExcept _)
      fun _ => push_within
  | double =>
    exact .bind popDouble_within fun _ => .bind popDouble_within fun _ => .bind (.liftExcept _)
      fun _ => push_within

theorem shift_within {op : ShiftOp} {kind : NumKind} : Within (OnFrame R) (shift op kind) := by
  refine .bind popInt_within fun _ => .bind popNumber_within fun v => ?_
  split
  · exact push_within
  · exact push_within
  · exact .throw _

theorem negate_within {kind : NumKind} : Within (OnFrame R) (negate kind) := by
  cases kind with
  | int => exact .bind popInt_within fun _ => push_within
  | long => exact .bind popLong_within fun _ => push_within
  | float => exact .bind popFloat_within fun _ => push_within
  | double => exact .bind popDouble_within fun _ => push_within

theorem increment_within {delta : Int16} : Within (OnFrame R) (increment index delta) :=
  .bind load_within fun _ => .bind (.liftExcept _) fun _ => store_within

theorem convert_within {source target : NumKind} : Within (OnFrame R) (convert source target) :=
  .bind popNumber_within fun _ => push_within

theorem compareLongs_within : Within (OnFrame R) compareLongs :=
  .bind popLong_within fun _ => .bind popLong_within fun _ => push_within

theorem compareFloats_within {bias : NanBias} : Within (OnFrame R) (compareFloats bias) :=
  .bind popFloat_within fun _ => .bind popFloat_within fun _ => push_within

theorem compareDoubles_within {bias : NanBias} : Within (OnFrame R) (compareDoubles bias) :=
  .bind popDouble_within fun _ => .bind popDouble_within fun _ => push_within

end FrameM

namespace FrameM

variable {index : Nat} {kind : ArrayKind} {host : Host} {thread : ThreadId} [Creates R]

/-! ### Arrays -/

theorem arrayLoad_within : Within (OnFrame R) (arrayLoad kind) :=
  .bind popInt_within fun _ => .bind popObject_within fun _ => .bind (lift_within Exec.object_within)
    fun _ => .bind (.liftExcept _) fun _ => .bind (.liftExcept _) fun _ => push_within

/-- A store takes the value, the index and the array from the stack.  It sets an element of the array,
    if the array is of the kind and takes the value, or does nothing to the machine. -/
theorem arrayStore_of {f : Frame} {m : Machine}
    (h : ∀ r o v w place, f.stack.peek 0 = .ok v → f.stack.peek 2 = .ok (.ofRef r) →
      m.heap.get? r = some o → kind.check o.type = .ok () →
      outcome (Exec.storable o kind v) m = (.ok w, m) →
      R m { m with heap := m.heap.update r (·.setElement place w) }) :
    OnFrame R (f, m) (outcome (arrayStore kind) (f, m)).2 := by
  refine Within.bind_at (pop_within (f, m)) fun v s hv => ?_
  obtain ⟨s₁, hvalue, rfl⟩ := pop_ok hv
  refine Within.bind_at (popInt_within _) fun index s hi => ?_
  obtain ⟨s₂, hindex, rfl⟩ := popInt_ok hi
  refine Within.bind_at (popObject_within _) fun r s hr => ?_
  obtain ⟨s₃, hobject, rfl⟩ := popObject_ok hr
  have hpeek : f.stack.peek 0 = .ok v ∧ f.stack.peek 2 = .ok (.ofRef r) := by
    have hstack : f.stack.values = v :: .int index :: .ofRef r :: s₃.values := by
      rw [hvalue, hindex, hobject]
    simp [OperandStack.peek, hstack]
  rcases Exec.object_cases r m with ⟨-, ho⟩ | ⟨o, hget, ho⟩
  · rw [outcome_frame_bind_error ho]
    exact refl_of (OnFrame R) _
  rw [outcome_frame_bind_ok ho]
  refine Within.lift_bind fun _ hk => ?_
  rcases hs : outcome (Exec.storable o kind v) m with ⟨e | w, m₁⟩
  · rw [outcome_frame_bind_error hs]
    exact ⟨.refl _, Exec.storable_within.of_eq hs⟩
  · obtain rfl := (Exec.storable_ok hs).1
    rw [outcome_frame_bind_ok hs, outcome_liftFrame]
    exact ⟨.refl _, Exec.arrayStore_of hget fun place =>
      h r o v w place hpeek.1 hpeek.2 hget (liftM_eq_ok.1 hk) hs⟩

/-- Every store is quiet, if that of bytes is. -/
theorem arrayStore_within {R : Machine → Machine → Prop} [Calm R] (hb : kind = .byte → StoresBytes R) :
    Within (OnFrame R) (arrayStore kind) := by
  rintro ⟨f, m⟩
  refine arrayStore_of fun r o v w place _ _ ho hc hs => ?_
  by_cases hk : kind = .byte
  · have := hb hk
    subst hk
    obtain ⟨-, ⟨-, i, -, rfl⟩ | ⟨-, ha, hint, -⟩⟩ := Exec.storable_ok hs
    · exact StoresBytes.storeByte m r o place i ho hc
    · cases v with
      | int i => exact absurd rfl (hint i)
      | _ => cases ha
  · refine Calm.update m r _ (fun _ _ => ⟨rfl, rfl, rfl, rfl, rfl, rfl⟩) fun o' ho' => ?_
    cases ho.symm.trans ho'
    refine ⟨fun bools h0 h1 hf => ?_, fun hm => (hm.objects r o ho).setElement place w,
      fun hm => (hm.objects r o ho).setElement place w⟩
    exact (hf.arrays r o ho).setElement (fun hof =>
      Exec.storable_holds h0 h1 hof hc hs fun hb => absurd hb hk) place

theorem classNameAt_within : Within (OnFrame R) (classNameAt index) := by
  refine .bind constant_within fun _ => ?_
  split
  · exact .pure _
  · exact wrongConstant_within

theorem newArray_within : Within (OnFrame R) (newArray kind) := by
  refine .bind popInt_within fun _ => ?_
  split
  · exact .throw _
  · next name hn =>
    have ha : isArrayName name = true := by cases kind <;> cases hn <;> rfl
    exact .bind (lift_within (Exec.newArray_within ha)) fun _ => push_within

theorem newReferenceArray_within : Within (OnFrame R) (newReferenceArray index) :=
  .bind classNameAt_within fun _ => .bind popInt_within fun _ =>
    .bind (lift_within (Exec.newArray_within (isArrayName_arrayOf _))) fun _ => push_within

theorem newMultiArray_within {R : Machine → Machine → Prop} [Calm R] {dimensions : Nat} :
    Within (OnFrame R) (newMultiArray index dimensions) := by
  refine .bind classNameAt_within fun _ => .bind takeOff_within fun _ =>
    .bind (.mapM fun _ => .liftExcept _) fun _ => ?_
  have filled {name : String} {lengths : List Int32} : Within (OnFrame R) (do
      push (.ofRef (← Exec.multiArray name (lengths.take (dimensionsOf name)))) : FrameM Unit) :=
    .bind (lift_within (Exec.multiArray_spec (List.length_take_le ..)).1) fun _ => push_within
  dsimp only
  split
  · exact .bind (.throw _) fun _ => filled
  · exact filled

theorem arrayLength_within : Within (OnFrame R) arrayLength := by
  refine .bind popObject_within fun _ => .bind (lift_within Exec.object_within) fun _ => ?_
  split
  · exact push_within
  · exact .throw _

/-! ### Fields -/

theorem classAt_within : Within (OnFrame R) (classAt index) :=
  .bind owner_within fun _ => lift_within Exec.classAt_within

theorem staticSite_within : Within (OnFrame R) (staticSite index) := by
  refine .bind owner_within fun _ => .bind (lift_within Exec.resolveField_within) fun site => ?_
  cases site with
  | staticSlot c i => exact .pure _
  | instanceSlot => exact .throw _

theorem instanceSite_within : Within (OnFrame R) (instanceSite index) := by
  refine .bind owner_within fun _ => .bind (lift_within Exec.resolveField_within) fun site => ?_
  cases site with
  | staticSlot => exact .throw _
  | instanceSlot c i => exact .pure _

theorem popHolder_within {declaring : Class} : Within (OnFrame R) (popHolder declaring) := by
  refine .bind popObject_within fun _ => .bind (lift_within Exec.object_within) fun _ => ?_
  split
  · exact .pure _
  · exact .throw _

theorem getField_within : Within (OnFrame R) (getField index) :=
  .bind instanceSite_within fun _ => .bind popHolder_within fun _ => .bind (.liftExcept _)
    fun _ => push_within

theorem popHolder_ok {declaring : Class} {s s' : Frame × Machine} {r : Ref} {o : Object}
    (h : outcome (popHolder declaring) s = (.ok (r, o), s')) : s'.2.heap.get? r = some o := by
  obtain ⟨r', s₁, -, h⟩ := outcome_bind_eq_ok h
  obtain ⟨o', s₂, ho, h⟩ := outcome_bind_eq_ok h
  rw [outcome_liftFrame] at ho
  rcases Exec.object_cases r' s₁.2 with ⟨-, e⟩ | ⟨o₁, hr, e⟩
  · rw [e] at ho; cases ho
  · rw [e] at ho
    cases ho
    split at h
    · cases h; exact hr
    · cases h

theorem putField_within {R : Machine → Machine → Prop} [Calm R] :
    Within (OnFrame R) (putField index) := by
  refine .bind instanceSite_within fun (declaring, slot) => .bind pop_within fun v =>
    .bind_of popHolder_within fun s (r, o) s' h => ?_
  rcases outcome_bind_cases (liftM (o.putSlot slot v) : FrameM Object)
    (fun o' => liftM (Exec.setObject r o')) s' with ⟨e, s₁, h₁, h₂⟩ | ⟨o', s₁, h₁, h₂⟩
  · obtain ⟨-, rfl⟩ := Prod.mk.inj ((outcome_liftExcept (M := FrameM) _ _).symm.trans h₁)
    simp only [h₂]
    exact refl_of (OnFrame R) s'
  · obtain ⟨hp, rfl⟩ := Prod.mk.inj ((outcome_liftExcept (M := FrameM) _ _).symm.trans h₁)
    simp only [h₂]
    rw [outcome_liftFrame]
    have put := liftM_eq_ok.1 hp
    obtain ⟨slots, hslots⟩ := Object.putSlot_fields put
    refine ⟨.refl _, Calm.update s'.2 r _ (fun o₁ ho₁ => ?_) fun _ _ =>
      ⟨fun _ _ _ _ => .of_fields hslots, fun hm => (hm.objects r o (popHolder_ok h)).putSlot put,
        fun hm => (hm.objects r o (popHolder_ok h)).putSlot put⟩⟩
    cases (popHolder_ok h).symm.trans ho₁
    exact Object.putSlot_alike put

/-! ### Calls, objects and constants -/

theorem receiver_within {arguments : Nat} : Within (OnFrame R) (receiver arguments) := by
  cases arguments with
  | zero => exact .throw _
  | succ n => exact .bind peek_within fun _ => .liftExcept _

theorem invokeSpecial_within : Within (OnFrame R) (invokeSpecial index) :=
  .bind owner_within fun _ => .bind (lift_within Exec.resolveMethod_within) fun _ =>
    .bind (.discard receiver_within) fun _ => .pure _

theorem invokeVirtual_within : Within (OnFrame R) (invokeVirtual index) := by
  refine .bind owner_within fun _ => .bind (lift_within Exec.resolveMethod_within) fun resolved => ?_
  have select : Within (OnFrame R) (do
      let c ← Exec.typeOf (← receiver resolved.method.argumentCount)
      if resolved.owner.isInterface && !c.isAssignableTo resolved.owner then
        throw (.interfaceNotImplemented c.name resolved.owner.name)
      return .invoke (virtualTarget c resolved) : FrameM Next) := by
    refine .bind receiver_within fun _ => .bind (lift_within Exec.typeOf_within) fun c => ?_
    dsimp only
    split
    · exact .bind (.throw _) fun _ => .pure _
    · exact .pure _
  dsimp only
  split
  · exact .bind (.throw _) fun _ => select
  · exact select

theorem invokeDynamic_within : Within (OnFrame R) (invokeDynamic index) := by
  refine .bind constant_within fun _ => ?_
  split
  · exact .throw _
  · exact wrongConstant_within

theorem checkCast_within : Within (OnFrame R) (checkCast index) := by
  refine .bind peek_within fun _ => .bind (.liftExcept _) fun r => ?_
  cases r with
  | none => exact .pure _
  | some r =>
    refine .bind classAt_within fun _ => .bind (lift_within Exec.typeOf_within) fun _ => ?_
    split
    · exact .throw _
    · exact .pure _

theorem instanceOf_within : Within (OnFrame R) (instanceOf index) := by
  refine .bind popReference_within fun r => ?_
  cases r with
  | none => exact push_within
  | some r =>
    exact .bind classAt_within fun _ => .bind (lift_within Exec.typeOf_within) fun _ => push_within

theorem loadConstant_within : Within (OnFrame R) (loadConstant index) := by
  refine .bind owner_within fun _ => .bind constant_within fun constant => ?_
  cases constant with
  | int => exact push_within
  | float => exact push_within
  | long => exact push_within
  | double => exact push_within
  | string => exact .bind (lift_within Exec.intern_within) fun _ => push_within
  | classRef =>
    exact .bind (lift_within Exec.mentioned_within) fun _ =>
      .bind (lift_within Exec.classObject_within) fun _ => push_within
  | methodHandle => exact .throw _
  | methodType => exact .throw _
  | _ => exact wrongConstant_within

/-! ### Most instructions -/

/-- The instructions that need no class to be ready and change no objects do nothing but load classes
    and make objects. -/
theorem execute_creates {i : Instruction} (hn : i.needsClass = false)
    (hc : i.changesObjects = false) : Within (OnFrame R) (execute host thread i) := by
  cases i with
  | nop => exact .pure _
  | literal => exact andAdvance_within push_within
  | loadConstant => exact andAdvance_within loadConstant_within
  | load =>
    exact andAdvance_within
      (.bind load_within fun _ => .bind (.liftExcept _) fun _ => push_within)
  | store =>
    exact andAdvance_within
      (.bind pop_within fun _ => .bind (.liftExcept _) fun _ => store_within)
  | arrayLoad => exact andAdvance_within arrayLoad_within
  | arrayStore => cases hc
  | pop => exact andAdvance_within (.discard takeOff_within)
  | dup => exact andAdvance_within onStack_within
  | swap => exact andAdvance_within onStack_within
  | binary => exact andAdvance_within binary_within
  | shift => exact andAdvance_within shift_within
  | neg => exact andAdvance_within negate_within
  | increment => exact andAdvance_within increment_within
  | convert => exact andAdvance_within convert_within
  | narrow => exact andAdvance_within (.bind popInt_within fun _ => push_within)
  | compareLong => exact andAdvance_within compareLongs_within
  | compareFloat => exact andAdvance_within compareFloats_within
  | compareDouble => exact andAdvance_within compareDoubles_within
  | branchZero => exact .bind popInt_within fun _ => .pure _
  | branchInts => exact .bind popInt_within fun _ => .bind popInt_within fun _ => .pure _
  | branchSame =>
    exact .bind popReference_within fun _ => .bind popReference_within fun _ => .pure _
  | branchNull => exact .bind popReference_within fun _ => .pure _
  | goto => exact .pure _
  | jumpSubroutine => exact readFrame_within fun _ => .bind push_within fun _ => .pure _
  | returnSubroutine =>
    exact .bind load_within fun _ => .bind (.liftExcept _) fun _ => .pure _
  | tableSwitch => exact .bind popInt_within fun _ => .pure _
  | lookupSwitch => exact .bind popInt_within fun _ => .pure _
  | leave kind =>
    cases kind with
    | none => exact .pure _
    | some kind => exact .bind pop_within fun _ => .bind (.liftExcept _) fun _ => .pure _
  | getStatic => cases hn
  | putStatic => cases hn
  | getField => exact andAdvance_within getField_within
  | putField => cases hc
  | invokeVirtual => exact invokeVirtual_within
  | invokeInterface => exact invokeVirtual_within
  | invokeSpecial => exact invokeSpecial_within
  | invokeStatic => cases hn
  | invokeDynamic => exact invokeDynamic_within
  | new => cases hn
  | newArray => exact andAdvance_within newArray_within
  | newReferenceArray => exact andAdvance_within newReferenceArray_within
  | newMultiArray => cases hc
  | arrayLength => exact andAdvance_within arrayLength_within
  | throwTop => exact .bind popObject_within fun _ => .throw _
  | checkCast => exact andAdvance_within checkCast_within
  | instanceOf => exact andAdvance_within instanceOf_within
  | monitorEnter => cases hc
  | monitorExit => cases hc

/-- Every instruction but the two for monitors, and those that need a class to be ready, stays within
    a calm relation, if the one that stores bytes does. -/
theorem execute_within {R : Machine → Machine → Prop} [Calm R] {i : Instruction}
    (he : i ≠ .monitorEnter) (hx : i ≠ .monitorExit) (hn : i.needsClass = false)
    (hb : i = .arrayStore .byte → StoresBytes R) : Within (OnFrame R) (execute host thread i) := by
  cases hc : i.changesObjects with
  | false => exact execute_creates hn hc
  | true =>
    cases i with
    | arrayStore => exact andAdvance_within (arrayStore_within fun hk => hb (by rw [hk]))
    | putField => exact andAdvance_within putField_within
    | newMultiArray => exact andAdvance_within newMultiArray_within
    | monitorEnter => exact absurd rfl he
    | monitorExit => exact absurd rfl hx
    | _ => cases hc

end FrameM

/-! ### Instructions that need a class -/

namespace FrameM

variable {index : Nat} {host : Host} {thread : ThreadId} [Calm R] [Initializes R]

theorem whenReady_within (h : InitializesWithin R host thread) {c : Class} {use : FrameM Next}
    (hu : Within (OnFrame R) use) : Within (OnFrame R) (whenReady host thread c use) := by
  refine .bind (lift_within (Exec.readyClass_within h)) fun r => ?_
  cases r with
  | ready => exact hu
  | await => exact .pure _
  | runInitializer => exact .pure _

theorem getStatic_within (h : InitializesWithin R host thread) :
    Within (OnFrame R) (getStatic host thread index) :=
  .bind staticSite_within fun _ => whenReady_within h
    (.bind (lift_within Exec.getStatic_within) fun _ => .bind push_within fun _ => .pure _)

theorem putStatic_within (h : InitializesWithin R host thread) :
    Within (OnFrame R) (putStatic host thread index) :=
  .bind staticSite_within fun _ => whenReady_within h
    (.bind pop_within fun _ => .bind (lift_within Exec.setStatic_within) fun _ => .pure _)

theorem invokeStatic_within (h : InitializesWithin R host thread) :
    Within (OnFrame R) (invokeStatic host thread index) := by
  refine .bind owner_within fun _ => .bind (lift_within Exec.resolveMethod_within) fun _ => ?_
  dsimp only
  split
  · exact .bind (.throw _) fun _ => whenReady_within h (.pure _)
  · exact whenReady_within h (.pure _)

theorem new_within {R : Machine → Machine → Prop} [Quiet R] [Initializes R]
    (h : InitializesWithin R host thread) : Within (OnFrame R) (new host thread index) := by
  refine .bind classAt_within fun c => ?_
  have create : Within (OnFrame R) (do
      push (.ofRef (← Exec.instantiate c))
      return .advance : FrameM Next) :=
    .bind (lift_within Exec.instantiate_within) fun _ => .bind push_within fun _ => .pure _
  dsimp only
  split
  · exact create
  · exact whenReady_within h create

/-- Every instruction but the two for monitors stays within a quiet relation, if the one that stores
    bytes does. -/
theorem execute_quiet {R : Machine → Machine → Prop} [Quiet R] [Initializes R]
    (h : InitializesWithin R host thread) {i : Instruction} (he : i ≠ .monitorEnter)
    (hx : i ≠ .monitorExit) (hb : i = .arrayStore .byte → StoresBytes R) :
    Within (OnFrame R) (execute host thread i) := by
  cases hn : i.needsClass with
  | false => exact execute_within he hx hn hb
  | true =>
    cases i with
    | getStatic => exact getStatic_within h
    | putStatic => exact putStatic_within h
    | invokeStatic => exact invokeStatic_within h
    | new => exact new_within h
    | _ => cases hn

end FrameM

/-! ## Handlers -/

namespace Exec

variable [Creates R] {owner thrown : Class} {r : Ref}

theorem acceptingHandler?_within :
    ∀ {handlers : List Handler}, Within R (acceptingHandler? owner thrown handlers)
  | [] => .pure _
  | h :: hs => by
    rw [acceptingHandler?]
    split
    · exact .pure _
    · refine .bind (attempt_within classAt_within) fun c => ?_
      cases c with
      | error => exact acceptingHandler?_within
      | ok c =>
        dsimp only
        split
        · exact .pure _
        · exact acceptingHandler?_within

theorem findHandler?_within : Within R (findHandler? f r) :=
  .bind typeOf_within fun _ => acceptingHandler?_within

end Exec

end GreenVm
