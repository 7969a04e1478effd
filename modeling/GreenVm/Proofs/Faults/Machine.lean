/-
  The faults of work on a machine.

  * `Machine.Raises m f`: the machine raises the fault by itself, in work that leaves it as `m`.  That
    a native method is missing it only raises where it loads a class.
  * `FailsOwn x`: the work fails with nothing else.  So does loading classes, making and changing
    objects, and what the instructions and the built-in classes do with them.
-/
import GreenVm.Proofs.Faults

namespace GreenVm

/-! ## Loading -/

namespace Loader

variable {α : Type} {s : Sources} {path : List String} {name : String} {file : ClassFile}

/-- Loading fails with what the class files give reason for, if it fails. -/
abbrev FailsOwn (s : Sources) (x : LoadM α) : Prop := FailsWith (fun f _ => s.Refuses f) x

theorem throw_own {e : Fault} (h : e.IsPlain) : FailsOwn s (throw e : LoadM α) :=
  .throw fun _ => .plain h

theorem lift_own {x : Except Fault α} (h : ErrsWith s.Refuses x) :
    FailsOwn s (liftM x : LoadM α) := .liftExcept fun e he _ => h e he

theorem lift_plain {x : Except Fault α} (h : ErrsWith Fault.IsPlain x) :
    FailsOwn s (liftM x : LoadM α) := lift_own (h.mono fun _ => .plain)

theorem elementOf_own {component : FieldType}
    {next : (n : String) → component.className? = some n → LoadM Class}
    (h : ∀ n hn, FailsOwn s (next n hn)) : FailsOwn s (elementOf component next) := by
  unfold elementOf
  split
  exacts [.map (h _ _), .pure _]

theorem superclassOf_own {next : (n : String) → n ∈ file.above → LoadM Class}
    (h : ∀ n hn, FailsOwn s (next n hn)) : FailsOwn s (superclassOf file next) := by
  unfold superclassOf
  split
  · exact .bind (h _ _) fun _ => .map (lift_plain checkSuperclass_errs)
  · split
    exacts [.pure _, throw_own (.raise (by decide))]

theorem interfacesOf_own {next : (n : String) → n ∈ file.above → LoadM Class}
    (h : ∀ n hn, FailsOwn s (next n hn)) : FailsOwn s (interfacesOf file next) :=
  .mapM fun _ => .bind (h _ _) fun _ => lift_plain checkInterface_errs

/-- Loading a name, if loading whatever it needs is of this kind. -/
theorem load_own_of_next (next : ∀ n, s.remaining (name :: path) n < s.remaining path name →
    FailsOwn s (load s (name :: path) n)) : FailsOwn s (load s path name) := by
  rw [load]
  refine .bind (fun _ _ _ h => by cases h) fun loaded => ?_
  split
  · exact .pure _
  · by_cases hp : name ∈ path
    · rw [dif_pos hp]
      exact throw_own (.raise (by decide))
    rw [dif_neg hp]
    split
    · next ha =>
      have plain {n : String} (hn : isArrayName n = false) : FailsOwn s (load s (name :: path) n) :=
        next n (s.remaining_lt_of_rank path (arrayRank_lt_of_plain ha hn))
      split
      · next component ht =>
        exact .bind (elementOf_own fun n hn =>
            next n (s.remaining_lt_of_rank path (arrayRank_lt ht hn))) fun _ =>
          .bind (plain isArrayName_object) fun _ => .bind (plain isArrayName_cloneable) fun _ =>
            .bind (plain isArrayName_serializable) fun _ => fun _ _ _ h => by cases h
      · exact throw_own (.raise (by decide))
    · split
      · exact throw_own (.raise (by decide))
      · next file hf =>
        split
        · exact throw_own (.raise (by decide))
        · next hname =>
          have above (n : String) (hn : n ∈ _) : FailsOwn s (load s (name :: path) n) :=
            next n (Sources.remaining_lt_of_find? hp hf hn)
          obtain rfl : file.name = name := not_ne_iff.1 hname
          exact .bind (superclassOf_own above) fun _ => .bind (interfacesOf_own above) fun _ =>
            .bind (lift_own (linkClass_errs hf)) fun _ => fun _ _ _ h => by cases h

theorem load_own (s : Sources) (path : List String) (name : String) :
    FailsOwn s (load s path name) :=
  load_own_of_next fun n _ => load_own s (name :: path) n
termination_by s.remaining path name

end Loader

/-! ## What the machine raises -/

/-- What the work that leaves this machine can have failed with by itself: a fault that the machine
    raises when it loads no class, or what has just kept a class from being loaded. -/
inductive Machine.Raises (m : Machine) : Fault → Prop
  | plain {f : Fault} (h : f.IsPlain) : Raises m f
  | loading {f : Fault} {name : String} {loaded : Loaded}
      (h : outcome (Loader.load (Exec.sources m) [] name) loaded = (.error f, m.loaded)) : Raises m f

namespace Machine.Raises

variable {m m' : Machine} {f : Fault}

theorem own (h : m.Raises f) : f.IsOwn := by
  cases h with
  | plain h => exact h.own
  | loading h => exact (Loader.load_own _ _ _ _ _ _ h).own

/-- What has to do with neither class files nor classes leaves open where the fault comes from. -/
theorem of_same (h : m.Raises f) (hs : Exec.sources m' = Exec.sources m) (hl : m'.loaded = m.loaded) :
    m'.Raises f := by
  cases h with
  | plain h => exact .plain h
  | loading h => exact .loading (by rw [hs, hl]; exact h)

end Machine.Raises

/-- What has a machine. -/
class HasMachine (σ : Type) where
  machineOf : σ → Machine

instance : HasMachine Machine := ⟨id⟩

instance {α : Type} : HasMachine (α × Machine) := ⟨Prod.snd⟩

section Results

variable {M : Type → Type} {σ α : Type} [Monad M] [MonadExceptOf Fault M]
  [MonadLiftT (Except Fault) M] [Work M σ] [HasMachine σ]

/-- The work fails with faults of the machine's own, if it fails. -/
abbrev FailsOwn (x : M α) : Prop := FailsWith (fun f s => (HasMachine.machineOf s).Raises f) x

theorem throw_own {e : Fault} (h : e.IsPlain) : FailsOwn (throw e : M α) := .throw fun _ => .plain h

theorem ErrsWith.fails {x : Except Fault α} (h : ErrsWith Fault.IsPlain x) :
    FailsOwn (liftM x : M α) := .liftExcept fun e he _ => .plain (h e he)

theorem ErrsWith.aborts {x : Except EngineError α} (h : ErrsWith EngineError.IsOwn x) :
    FailsOwn (liftM (liftM x : Except Fault α) : M α) := (ErrsWith.lift h).fails

end Results

namespace Exec

variable {α : Type} {r : Ref} {c current : Class} {name key text : String} {index : Nat} {v : Value}

theorem loadClass_own : FailsOwn (loadClass name) := fun m f m' h => by
  obtain ⟨hf, rfl⟩ := Prod.mk.inj h
  exact .loading (Prod.ext hf rfl)

/-! ## Objects -/

theorem object_own : FailsOwn (object r) := fun m f m' h => by
  rcases object_cases r m with ⟨-, e⟩ | ⟨o, -, e⟩ <;> cases e.symm.trans h
  exact .plain (.fatal nofun)

theorem typeOf_own : FailsOwn (typeOf r) := .bind object_own fun _ => .pure _

theorem allocate_own {o : Object} : FailsOwn (allocate o) := modifyGet_failsWith

theorem updatePayload_own {f : Payload → Payload} : FailsOwn (updatePayload r f) :=
  .bind (.discard object_own) fun _ => updateObject_failsWith

theorem getField_own : FailsOwn (getField r key) :=
  .bind object_own fun _ => Object.getField_errs.fails

theorem putField_own : FailsOwn (putField r key v) :=
  .bind object_own fun _ => .bind Object.putField_errs.fails fun _ => updateObject_failsWith

theorem arrayStore_own {index : Int32} : FailsOwn (arrayStore r index v) :=
  .bind object_own fun _ => .bind Object.elementPlace_errs.fails fun _ => updateObject_failsWith

theorem withMonitor_own {f : Monitor → Except Fault (α × Monitor)}
    (h : ∀ m, ErrsWith Fault.IsPlain (f m)) : FailsOwn (withMonitor r f) :=
  .bind object_own fun o => .bind (h o.monitor).fails fun _ => .bind updateObject_failsWith fun _ =>
    .pure _

theorem tryEnter_own {t : ThreadId} {count : Nat} : FailsOwn (tryEnter r t count) :=
  withMonitor_own fun _ => .ok _

theorem instantiate_own : FailsOwn (instantiate c) := by
  unfold instantiate
  split
  exacts [throw_own (.raise (by decide)), allocate_own]

theorem instantiateArray_own {length : Int32} : FailsOwn (instantiateArray c length) := by
  unfold instantiateArray
  split
  exacts [throw_own (.raise (by decide)), allocate_own]

theorem newObject_own : FailsOwn (newObject name) := .bind loadClass_own fun _ => instantiate_own

theorem newArray_own {length : Int32} : FailsOwn (newArray name length) :=
  .bind loadClass_own fun _ => instantiateArray_own

theorem cloneObject_own : FailsOwn (cloneObject r) := .bind object_own fun _ => allocate_own

theorem newString_own : FailsOwn (newString text) := .bind loadClass_own fun _ => allocate_own

theorem intern_own : FailsOwn (intern text) := by
  refine .bind loadClass_own fun _ => .bind get_failsWith fun _ => ?_
  split
  · exact .pure _
  · exact .bind allocate_own fun _ => .bind modify_failsWith fun _ => .pure _

theorem classObject_own : FailsOwn (classObject c) := by
  refine .bind loadClass_own fun _ => .bind get_failsWith fun _ => ?_
  split
  · exact .pure _
  · exact .bind allocate_own fun _ => .bind modify_failsWith fun _ => .pure _

theorem textOf_own : FailsOwn (textOf r) := by
  refine .bind object_own fun _ => ?_
  split
  exacts [.pure _, throw_own (.fatal nofun)]

theorem print_own {stream : Stream} : FailsOwn (print stream text) := modify_failsWith

theorem bindThread_own {t : ThreadId} : FailsOwn (bindThread t r) :=
  .bind updatePayload_own fun _ => modify_failsWith

theorem newThreadObject_own {t : ThreadId} {name : String} : FailsOwn (newThreadObject t name) :=
  .bind newObject_own fun _ => .bind newString_own fun _ => .bind putField_own fun _ =>
    .bind bindThread_own fun _ => .pure _

theorem threadObject_own {t : ThreadId} : FailsOwn (threadObject t) := by
  refine .bind get_failsWith fun _ => ?_
  split
  exacts [.pure _, newThreadObject_own]

theorem multiArray_own : ∀ {name : String} {lengths : List Int32}, FailsOwn (multiArray name lengths)
  | _, [] => throw_own (.fatal nofun)
  | _, [_] => newArray_own
  | name, length :: next :: rest => by
    rw [multiArray]
    · exact .bind newArray_own fun _ =>
        .bind (.forM fun _ => .bind multiArray_own fun _ => arrayStore_own) fun _ => .pure _
    · simp

theorem storable_own {array : Object} {kind : ArrayKind} : FailsOwn (storable array kind v) := by
  unfold storable
  split
  · refine .bind typeOf_own fun _ => ?_
    split
    exacts [.pure _, throw_own (.raise (by decide))]
  · exact .bind ValueKind.check_errs.aborts fun _ => .pure _
  · exact .bind ValueKind.check_errs.aborts fun _ => .pure _

/-! ## Classes and their members -/

theorem mentioned_own : FailsOwn (mentioned current name) := by
  unfold mentioned
  split
  exacts [.pure _, loadClass_own]

theorem classAt_own : FailsOwn (classAt current index) := by
  refine .bind Class.constant_errs.aborts fun _ => ?_
  split
  exacts [mentioned_own, throw_own (.fatal nofun)]

theorem resolveField_own : FailsOwn (resolveField current index) := by
  refine .bind Class.constant_errs.aborts fun _ => ?_
  split
  exacts [.bind mentioned_own fun _ => Class.fieldSite_errs.fails, throw_own (.fatal nofun)]

theorem methodOf_own {member : MemberRef} : FailsOwn (methodOf current member) := by
  refine .bind mentioned_own fun _ => ?_
  split
  exacts [.pure _, throw_own (.raise (by decide))]

theorem resolveMethod_own : FailsOwn (resolveMethod current index) := by
  refine .bind Class.constant_errs.aborts fun _ => ?_
  split
  exacts [methodOf_own, methodOf_own, throw_own (.fatal nofun)]

theorem constantValue_own : FailsOwn (constantValue c index) := by
  refine .bind Class.constant_errs.aborts fun _ => ?_
  split
  case h_5 => exact .bind intern_own fun _ => .pure _
  case h_6 => exact throw_own (.fatal nofun)
  all_goals exact .pure _

theorem assignConstants_own : FailsOwn (assignConstants c) := by
  refine .forM fun (f, i) => ?_
  dsimp only
  split
  exacts [.pure _, .bind constantValue_own fun _ => setStatic_failsWith]

theorem putStaticByKey_own : FailsOwn (putStaticByKey c key v) := by
  unfold putStaticByKey
  split
  exacts [.pure _, .bind setStatic_failsWith fun _ => .pure _]

end Exec

end GreenVm
