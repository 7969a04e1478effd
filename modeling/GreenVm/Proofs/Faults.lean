/-
  The faults that the machine itself raises.

  * `Fault.IsOwn`: a throwable object, a symbolic throwable of a built-in class, or an engine error
    other than that the object of a throwable could not be made.
  * `Fault.IsPlain`: such a fault, but not that a native method is missing.
  * `Sources.Refuses s f`: such a fault, or that a native method of a class file is missing.
  * `ErrsWith P x`: the result `x` is an answer, or an error that `P` holds of.

  What is shown here of results is used to show of all work of the machine that it only fails with
  faults of its own.
-/
import GreenVm.Proofs.Builtins
import GreenVm.Proofs.Failures

namespace GreenVm

/-! ## Faults of the machine -/

attribute [simp] ClassName.throwables

/-- The names of the built-in classes of throwables. -/
@[simp]
def ClassName.builtInThrowables : List String := ClassName.throwables.map Prod.fst

/-- The error is not that the object of a throwable could not be made. -/
def EngineError.IsOwn (e : EngineError) : Prop := ∀ name reason, e ≠ .materialize name reason

/-- A fault that the machine raises by itself. -/
inductive Fault.IsOwn : Fault → Prop
  | object {r : Ref} : IsOwn (.thrown (.object r))
  | symbolic {name : String} {message : Option String} (h : name ∈ ClassName.builtInThrowables) :
    IsOwn (.thrown (.symbolic name message))
  | fatal {e : EngineError} (h : e.IsOwn) : IsOwn (.fatal e)

/-- A throwable of a built-in class. -/
theorem Fault.IsOwn.raise {name message : String} (h : name ∈ ClassName.builtInThrowables) :
    (Fault.raise name message).IsOwn := .symbolic h

/-- A fault that the machine raises by itself, other than that a native method is missing. -/
structure Fault.IsPlain (f : Fault) : Prop where
  own : f.IsOwn
  linked : ∀ message, f ≠ .thrown (.symbolic ClassName.unsatisfiedLink message)

namespace Fault.IsPlain

variable {name : String}

theorem object {r : Ref} : (Fault.thrown (.object r)).IsPlain := ⟨.object, nofun⟩

theorem fatal {e : EngineError} (h : e.IsOwn) : (Fault.fatal e).IsPlain := ⟨.fatal h, nofun⟩

theorem symbolic {message : Option String}
    (h : name ∈ ClassName.builtInThrowables ∧ name ≠ ClassName.unsatisfiedLink) :
    (Fault.thrown (.symbolic name message)).IsPlain :=
  ⟨.symbolic h.1, fun _ e => h.2 (by cases e; rfl)⟩

theorem raise {message : String}
    (h : name ∈ ClassName.builtInThrowables ∧ name ≠ ClassName.unsatisfiedLink) :
    (Fault.raise name message).IsPlain := symbolic h

end Fault.IsPlain

theorem Fault.nullPointer_plain : nullPointer.IsPlain :=
  .symbolic (by decide)

/-! ## Results -/

/-- The result is an answer, or an error of some kind. -/
def ErrsWith {ε α : Type} (P : ε → Prop) (x : Except ε α) : Prop := ∀ e, x = .error e → P e

namespace ErrsWith

variable {ε α β : Type} {P : ε → Prop} {x : Except ε α} {f : α → Except ε β}

theorem ok (a : α) : ErrsWith P (.ok a) := nofun

theorem error {e : ε} (h : P e) : ErrsWith P (.error e : Except ε α) := fun _ he => by
  cases he
  exact h

theorem mono {Q : ε → Prop} (hx : ErrsWith P x) (h : ∀ e, P e → Q e) : ErrsWith Q x :=
  fun e he => h e (hx e he)

theorem bind (hx : ErrsWith P x) (hf : ∀ a, ErrsWith P (f a)) : ErrsWith P (x >>= f) := by
  cases x with
  | error e => exact fun e' he => hx e' (by cases he; rfl)
  | ok a => exact hf a

theorem map (hx : ErrsWith P x) {g : α → β} : ErrsWith P (g <$> x) := by
  cases x with
  | error e => exact fun e' he => by cases he; exact hx e rfl
  | ok a => exact ok _

theorem lift {x : Except EngineError α} (hx : ErrsWith EngineError.IsOwn x) :
    ErrsWith Fault.IsPlain (liftM x : Except Fault α) := by
  cases x with
  | error e => exact error (.fatal (hx e rfl))
  | ok a => exact ok a

theorem forM {γ : Type} {g : γ → Except ε PUnit} :
    ∀ {l : List γ}, (∀ c ∈ l, ErrsWith P (g c)) → ErrsWith P (l.forM g)
  | [], _ => ok _
  | c :: l, h => by
    simpa using (h c List.mem_cons_self).bind fun _ =>
      forM fun c hc => h c (List.mem_cons_of_mem _ hc)

theorem mapM {γ : Type} {g : γ → Except ε α} (h : ∀ c, ErrsWith P (g c)) :
    ∀ {l : List γ}, ErrsWith P (l.mapM g)
  | [] => ok _
  | c :: l => by
    rw [List.mapM_cons]
    exact (h c).bind fun _ => (mapM h).bind fun _ => ok _

theorem foldlM {γ : Type} {g : α → γ → Except ε α} (h : ∀ a c, ErrsWith P (g a c)) :
    ∀ {l : List γ} {a : α}, ErrsWith P (l.foldlM g a)
  | [], a => ok a
  | c :: l, a => by
    rw [List.foldlM_cons]
    exact (h a c).bind fun _ => foldlM h

end ErrsWith

/-! ## Values and frames -/

namespace Value

variable {v : Value}

theorem asInt_errs : ErrsWith EngineError.IsOwn v.asInt := by
  unfold asInt
  split
  exacts [.ok _, .error nofun]

theorem asLong_errs : ErrsWith EngineError.IsOwn v.asLong := by
  unfold asLong
  split
  exacts [.ok _, .error nofun]

theorem asFloat_errs : ErrsWith EngineError.IsOwn v.asFloat := by
  unfold asFloat
  split
  exacts [.ok _, .error nofun]

theorem asDouble_errs : ErrsWith EngineError.IsOwn v.asDouble := by
  unfold asDouble
  split
  exacts [.ok _, .error nofun]

theorem asReturnAddress_errs : ErrsWith EngineError.IsOwn v.asReturnAddress := by
  unfold asReturnAddress
  split
  exacts [.ok _, .error nofun]

theorem asReference_errs : ErrsWith EngineError.IsOwn v.asReference := by
  unfold asReference
  split
  exacts [.ok _, .error nofun]

theorem asObject_errs : ErrsWith Fault.IsPlain v.asObject := by
  refine .bind (.lift asReference_errs) fun r => ?_
  split
  exacts [.ok _, .error Fault.nullPointer_plain]

end Value

theorem ValueKind.check_errs {kind : ValueKind} {storing : Bool} {v : Value} :
    ErrsWith EngineError.IsOwn (kind.check storing v) := by
  unfold check
  split
  exacts [.ok _, .error nofun]

namespace OperandStack

variable {s : OperandStack} {v : Value} {n : Nat}

theorem push_errs : ErrsWith EngineError.IsOwn (s.push v) := by
  unfold push
  split
  exacts [.ok _, .error nofun]

theorem pushAll_errs {vs : List Value} : ErrsWith EngineError.IsOwn (s.pushAll vs) :=
  .foldlM fun _ _ => push_errs

theorem pop_errs : ErrsWith EngineError.IsOwn s.pop := by
  unfold pop
  split
  exacts [.error nofun, .ok _]

theorem peek_errs : ErrsWith EngineError.IsOwn (s.peek n) := by
  unfold peek
  split
  exacts [.ok _, .error nofun]

theorem popArgs_errs : ErrsWith EngineError.IsOwn (s.popArgs n) := by
  unfold popArgs
  split
  exacts [.error nofun, .ok _]

theorem popSlots_errs : ∀ {n : Nat} {s : OperandStack}, ErrsWith EngineError.IsOwn (s.popSlots n)
  | 0, s => .ok _
  | 1, s => by
    rw [popSlots]
    refine .bind pop_errs fun (v, s) => ?_
    dsimp only
    split
    exacts [.bind (.error nofun) fun _ => .ok _, .ok _]
  | n + 2, s => by
    rw [popSlots]
    refine .bind pop_errs fun (v, s) => ?_
    dsimp only
    split
    exacts [.bind popSlots_errs fun _ => .ok _, .bind popSlots_errs fun _ => .ok _]

theorem dup_errs {slots skip : Nat} : ErrsWith EngineError.IsOwn (s.dup slots skip) :=
  .bind popSlots_errs fun _ => .bind popSlots_errs fun _ => .bind pushAll_errs fun _ =>
    .bind pushAll_errs fun _ => pushAll_errs

theorem swap_errs : ErrsWith EngineError.IsOwn s.swap :=
  .bind popSlots_errs fun _ => .bind popSlots_errs fun _ => .bind pushAll_errs fun _ => pushAll_errs

end OperandStack

namespace Frame

variable {f : Frame} {index : Nat} {v : Value}

theorem load_errs : ErrsWith EngineError.IsOwn (f.load index) := by
  unfold load
  split
  exacts [.ok _, .error nofun]

theorem checkSlots_errs : ErrsWith EngineError.IsOwn (f.checkSlots index v) := by
  unfold checkSlots
  split
  exacts [.ok _, .error nofun]

theorem layOut_errs : ∀ {vs : List Value} {slot : Nat} {locals : Array Value},
    ErrsWith EngineError.IsOwn (layOut vs slot locals)
  | [], _, _ => .ok _
  | v :: vs, slot, locals => by
    rw [layOut]
    split
    exacts [layOut_errs, .error nofun]

theorem enter_errs {r : MethodRef} {args : List Value} {kind : FrameKind} :
    ErrsWith EngineError.IsOwn (enter r args kind) := by
  unfold enter
  split
  exacts [.error nofun, .bind layOut_errs fun _ => .ok _]

end Frame

theorem MethodRef.splitReceiver_errs {r : MethodRef} {args : List Value} :
    ErrsWith Fault.IsPlain (r.splitReceiver args) := by
  unfold splitReceiver
  split
  · exact .ok _
  · cases args with
    | nil => exact .error (.fatal fun _ _ h => by cases h)
    | cons v rest => exact .bind Value.asObject_errs fun _ => .ok _

/-! ## Objects and monitors -/

namespace Object

variable {o : Object} {slot : Nat} {v : Value} {key : String} {index : Int32}

theorem fieldSlot_errs : ErrsWith Fault.IsPlain (o.fieldSlot key) := by
  unfold fieldSlot
  split
  exacts [.ok _, .error (.raise (by decide))]

theorem getSlot_errs : ErrsWith EngineError.IsOwn (o.getSlot slot) := by
  unfold getSlot
  split
  · exact .error nofun
  · split
    exacts [.ok _, .error nofun]

theorem putSlot_errs : ErrsWith EngineError.IsOwn (o.putSlot slot v) := by
  unfold putSlot
  split
  · exact .error nofun
  · split
    exacts [.ok _, .error nofun]

theorem getField_errs : ErrsWith Fault.IsPlain (o.getField key) :=
  .bind fieldSlot_errs fun _ => .lift getSlot_errs

theorem putField_errs : ErrsWith Fault.IsPlain (o.putField key v) :=
  .bind fieldSlot_errs fun _ => .lift putSlot_errs

theorem elements_errs : ErrsWith EngineError.IsOwn o.elements := by
  unfold elements
  split
  exacts [.ok _, .error nofun]

theorem checkedIndex_errs {length : Nat} : ErrsWith Fault.IsPlain (checkedIndex index length) := by
  unfold checkedIndex
  split
  exacts [.ok _, .error (.raise (by decide))]

theorem arrayLoad_errs : ErrsWith Fault.IsPlain (o.arrayLoad index) :=
  .bind (.lift elements_errs) fun _ => .bind checkedIndex_errs fun _ => .ok _

theorem elementPlace_errs : ErrsWith Fault.IsPlain (o.elementPlace index) :=
  .bind (.lift elements_errs) fun _ => checkedIndex_errs

end Object

theorem ArrayKind.check_errs {kind : ArrayKind} {c : Class} :
    ErrsWith EngineError.IsOwn (kind.check c) := by
  unfold check
  split
  · exact .error nofun
  · split
    exacts [.ok _, .error nofun]

namespace Monitor

variable {m : Monitor} {t : ThreadId}

theorem notOwner_plain : Fault.notOwner.IsPlain :=
  .raise (by decide)

theorem exit_errs : ErrsWith Fault.IsPlain (m.exit t) := by
  unfold exit
  split
  · split
    exacts [.ok _, .ok _]
  · exact .error notOwner_plain

theorem wait_errs : ErrsWith Fault.IsPlain (m.wait t) := by
  unfold wait
  split
  exacts [.ok _, .error notOwner_plain]

theorem notify_errs : ErrsWith Fault.IsPlain (m.notify t) := by
  unfold notify
  split
  exacts [.ok _, .error notOwner_plain]

theorem notifyAll_errs : ErrsWith Fault.IsPlain (m.notifyAll t) := by
  unfold notifyAll
  split
  exacts [.ok _, .error notOwner_plain]

end Monitor

/-! ## Arithmetic -/

namespace BinaryOp

variable {op : BinaryOp}

theorem divisionByZero_plain : Fault.divisionByZero.IsPlain :=
  .raise (by decide)

theorem onInts_errs {a b : Int32} : ErrsWith Fault.IsPlain (op.onInts a b) := by
  unfold onInts
  split
  case h_4 | h_5 => split <;> first | exact .error divisionByZero_plain | exact .ok _
  all_goals exact .ok _

theorem onLongs_errs {a b : Int64} : ErrsWith Fault.IsPlain (op.onLongs a b) := by
  unfold onLongs
  split
  case h_4 | h_5 => split <;> first | exact .error divisionByZero_plain | exact .ok _
  all_goals exact .ok _

theorem onFloats_errs {a b : UInt32} : ErrsWith EngineError.IsOwn (op.onFloats a b) := by
  unfold onFloats
  dsimp only
  split <;> first | exact .ok _ | exact .error nofun

theorem onDoubles_errs {a b : UInt64} : ErrsWith EngineError.IsOwn (op.onDoubles a b) := by
  unfold onDoubles
  dsimp only
  split <;> first | exact .ok _ | exact .error nofun

end BinaryOp

/-! ## Classes -/

theorem Class.constant_errs {c : Class} {index : Nat} :
    ErrsWith EngineError.IsOwn (c.constant index) := by
  unfold constant
  split
  exacts [.ok _, .error nofun]

theorem Class.fieldSiteHere?_errs {c : Class} {name descriptor : String}
    {x : Except EngineError FieldSite} (h : c.fieldSiteHere? name descriptor = some x) :
    ErrsWith EngineError.IsOwn x := by
  unfold fieldSiteHere? at h
  split at h
  · dsimp only at h
    split at h <;> cases h
    exacts [.ok _, .error nofun]
  · obtain ⟨site, -, rfl⟩ := Option.map_eq_some_iff.1 h
    exact .ok site

theorem Class.fieldSite_errs {c : Class} {name descriptor : String} :
    ErrsWith Fault.IsPlain (c.fieldSite name descriptor) := by
  unfold fieldSite
  split
  · exact .ok _
  · next e he =>
    obtain ⟨k, -, hk⟩ := List.exists_of_findSome?_eq_some he
    exact .error (.fatal (fieldSiteHere?_errs hk e rfl))
  · exact .error (.raise (by decide))

/-! ## Linking -/

theorem Instruction.mapTargets_errs {f : Nat → Except EngineError Nat} {i : Instruction}
    (hf : ∀ target, ErrsWith EngineError.IsOwn (f target)) :
    ErrsWith EngineError.IsOwn (i.mapTargets f) := by
  unfold mapTargets
  split
  case h_7 => exact .bind (hf _) fun _ => .bind (.mapM hf) fun _ => .ok _
  case h_8 =>
    exact .bind (hf _) fun _ => .bind (.mapM fun _ => .bind (hf _) fun _ => .ok _) fun _ => .ok _
  case h_9 => exact .ok _
  all_goals exact .bind (hf _) fun _ => .ok _

namespace Code

variable {method : String} {offsets : List Nat}

theorem linkInstruction_errs {i : Instruction} :
    ErrsWith EngineError.IsOwn (linkInstruction method offsets i) := by
  refine Instruction.mapTargets_errs fun target => ?_
  cases indexOf? offsets target with
  | none => exact .error fun _ _ h => by cases h
  | some => exact .ok _

theorem linkHandler_errs {h : HandlerDecl} :
    ErrsWith EngineError.IsOwn (linkHandler method offsets h) := by
  have malformed (why) : (EngineError.malformedExceptionTable method why).IsOwn :=
    fun _ _ h => by cases h
  unfold linkHandler
  cases indexOf? offsets h.startOffset with
  | none => exact .error (malformed _)
  | some start =>
    cases linkStop? offsets h.endOffset with
    | none => exact .error (malformed _)
    | some stop =>
      dsimp only
      split
      · exact .error (malformed _)
      · cases indexOf? offsets h.handlerOffset with
        | none => exact .error (malformed _)
        | some => exact .ok _

theorem link_errs {code : CodeDecl} : ErrsWith EngineError.IsOwn (link method code) := by
  unfold link
  dsimp only
  split
  · exact .bind (.error nofun) fun _ => .bind (.mapM fun _ => linkInstruction_errs) fun _ =>
      .bind (.mapM fun _ => linkHandler_errs) fun _ => .ok _
  · exact .bind (.mapM fun _ => linkInstruction_errs) fun _ =>
      .bind (.mapM fun _ => linkHandler_errs) fun _ => .ok _

end Code

theorem Constant.check_errs {k : Constant} : ErrsWith Fault.IsPlain k.check := by
  unfold check
  split
  · split
    exacts [.ok _, .error (.raise (by decide))]
  · split
    exacts [.ok _, .error (.raise (by decide))]
  · split
    exacts [.ok _, .error (.raise (by decide))]
  · exact .ok _

theorem FieldDecl.link_errs {className : String} {f : FieldDecl} :
    ErrsWith Fault.IsPlain (f.link className) := by
  unfold link
  split
  exacts [.error (.raise (by decide)), .ok _]

theorem MethodDecl.link_errs {className : String} {d : MethodDecl} :
    ErrsWith Fault.IsPlain (d.link className) := by
  unfold link
  dsimp only
  split
  · split
    · exact .bind (.map (.lift Code.link_errs)) fun _ => .ok _
    · exact .ok _
    · exact .bind (.error (.raise (by decide))) fun _ => .ok _
    · exact .bind (.error (.raise (by decide))) fun _ => .ok _
  · exact .error (.raise (by decide))

namespace ClassFile

theorem linkDeclaration_errs {file : ClassFile} : ErrsWith Fault.IsPlain file.linkDeclaration :=
  .bind (.forM fun _ _ => Constant.check_errs) fun _ =>
    .bind (.mapM fun _ => .bind FieldDecl.link_errs fun _ => .ok _) fun _ =>
      .bind (.mapM fun _ => MethodDecl.link_errs) fun _ => .ok _

theorem checkNatives_errs {natives : Natives} {declared : Declaration} :
    ErrsWith (fun f => ∃ m ∈ declared.methods, m.isNative = true ∧
        natives.contains declared.name m.name m.descriptor = false ∧
        f = .nativeMissing declared.name m.name m.descriptor) (checkNatives natives declared) := by
  refine .forM fun m hm => ?_
  split
  · next h =>
    obtain ⟨hn, hc⟩ := (Bool.and_eq_true _ _).mp h
    exact .error ⟨m, hm, hn, by simpa using hc, rfl⟩
  · exact .ok _

end ClassFile

/-- A native method that a class file declares and nothing is registered for, when that is not
    allowed. -/
structure Sources.Lacks (s : Sources) (file : ClassFile) (d : MethodDecl) : Prop where
  eager : s.eager = true
  find? : s.find? file.name = some file
  declared : d ∈ file.methods
  native : d.flags.has .native = true
  unregistered : s.natives.contains file.name d.name d.descriptor = false

/-- What loading a class can fail with: that a native method is missing is only said of one that is. -/
inductive Sources.Refuses (s : Sources) : Fault → Prop
  | plain {f : Fault} (h : f.IsPlain) : Refuses s f
  | missing {file : ClassFile} {d : MethodDecl} (h : s.Lacks file d) :
    Refuses s (.nativeMissing file.name d.name d.descriptor)

namespace Sources.Refuses

variable {s : Sources} {f : Fault}

theorem own (h : s.Refuses f) : f.IsOwn := by
  cases h with
  | plain h => exact h.own
  | missing => exact .raise (by simp)

theorem lacks {message : Option String}
    (h : s.Refuses (.thrown (.symbolic ClassName.unsatisfiedLink message))) :
    ∃ file d, s.Lacks file d ∧ Fault.thrown (.symbolic ClassName.unsatisfiedLink message) =
      .nativeMissing file.name d.name d.descriptor := by
  generalize hf : Fault.thrown (.symbolic ClassName.unsatisfiedLink message) = f at *
  cases h with
  | plain h => exact absurd hf.symm (h.linked message)
  | missing h => exact ⟨_, _, h, rfl⟩

end Sources.Refuses

namespace Loader

theorem checkSuperclass_errs {name : String} {c : Class} :
    ErrsWith Fault.IsPlain (checkSuperclass name c) := by
  unfold checkSuperclass
  split
  exacts [.error (.raise (by decide)), .ok _]

theorem checkInterface_errs {name : String} {c : Class} :
    ErrsWith Fault.IsPlain (checkInterface name c) := by
  unfold checkInterface
  split
  exacts [.ok _, .error (.raise (by decide))]

theorem linkClass_errs {s : Sources} {file : ClassFile} {superClass : Option Class}
    {interfaces : List Class} (hf : s.find? file.name = some file) :
    ErrsWith s.Refuses (linkClass s file superClass interfaces) := by
  unfold linkClass
  cases hd : file.linkDeclaration with
  | error e => exact .error (.plain (ClassFile.linkDeclaration_errs e hd))
  | ok declared =>
    show ErrsWith s.Refuses (if s.eager = true then _ else _)
    split
    · next he =>
      refine .bind (ClassFile.checkNatives_errs.mono fun e h => ?_) fun _ => .ok _
      obtain ⟨m, hm, hn, hc, rfl⟩ := h
      obtain ⟨d, hmem, hl⟩ := ClassFile.linkDeclaration_methods hd m hm
      obtain ⟨hflags, hname, hdescriptor⟩ := MethodDecl.link_ok hl
      rw [(ClassFile.linkDeclaration_ok hd).1, hname, hdescriptor] at hc ⊢
      exact .missing ⟨he, hf, hmem, hflags ▸ hn, hc⟩
    · exact .ok _

end Loader

end GreenVm
