/-
  Work that spares what is there.

  * `Spares free m m'`: every object but those of `free` is the very same afterwards, and the state
    of every class is.
  * `Within.new`: work that makes an object, and then changes no other, spares all objects.
  * `FrameM.execute_spares`: an instruction that uses no class spares everything if it throws.
  * `Builtin.run_initializer`: so does an operation of a built-in class for objects if it is called
    like a class initializer, without receiver and arguments.
-/
import GreenVm.Proofs.Failures
import Mathlib.Data.Set.Insert

namespace GreenVm

open Exec

/-! ## What is spared -/

/-- All objects but some are the very same. -/
def Leaves (free : Set Ref) (m m' : Machine) : Prop :=
  ∀ r o, r ∉ free → m.heap.get? r = some o → m'.heap.get? r = some o

/-- All objects but some are the very same, and so are the states of the classes, what is asked of
    the scheduler, and what was printed. -/
structure Spares (free : Set Ref) (m m' : Machine) : Prop where
  leaves : Leaves free m m'
  classStates_eq : m'.classStates = m.classStates
  requests_eq : m'.requests = m.requests
  out_eq : m'.out = m.out
  err_eq : m'.err = m.err

/-- What becomes of an object that was not there before does not count. -/
class SparesNew (R : Set Ref → Machine → Machine → Prop) : Prop where
  then_new : ∀ {m m₁ m₂ r}, R ∅ m m₁ → m.heap.get? r = none → R {r} m₁ m₂ → R ∅ m m₂

namespace Leaves

variable {free : Set Ref} {m m' : Machine}

theorem get? {r : Ref} {o : Object} (h : Leaves ∅ m m') (ho : m.heap.get? r = some o) :
    m'.heap.get? r = some o := h r o (Set.notMem_empty r) ho

instance : Std.Refl (Leaves free) := ⟨fun _ _ _ _ h => h⟩

instance : IsTrans Machine (Leaves free) := ⟨fun _ _ _ h h' r o hr ho => h' r o hr (h r o hr ho)⟩

instance : SparesNew Leaves where
  then_new h hr h' r' o _ ho := by
    refine h' r' o (fun e => ?_) (h.get? ho)
    rw [Set.mem_singleton_iff.1 e, hr] at ho
    cases ho

end Leaves

namespace Spares

variable {free : Set Ref} {m m' : Machine} {r : Ref} {f : Object → Object}

theorem trans {m'' : Machine} {free' free'' : Set Ref} (h : Spares free m m')
    (h' : Spares free' m' m'') (hl : Leaves free'' m m'') : Spares free'' m m'' where
  leaves := hl
  classStates_eq := h'.classStates_eq.trans h.classStates_eq
  requests_eq := h'.requests_eq.trans h.requests_eq
  out_eq := h'.out_eq.trans h.out_eq
  err_eq := h'.err_eq.trans h.err_eq

instance : Creates (Spares free) where
  refl m := ⟨refl_of (Leaves free) m, rfl, rfl, rfl, rfl⟩
  trans _ _ _ h h' := h.trans h' (trans_of (Leaves free) h.leaves h'.leaves)
  load m _ := ⟨refl_of (Leaves free) m, rfl, rfl, rfl, rfl⟩
  allocate _ _ _ _ _ := ⟨fun _ _ _ h => Heap.get?_allocate_of_get? h, rfl, rfl, rfl, rfl⟩
  intern _ _ _ _ _ _ _ _ := ⟨fun _ _ _ h => Heap.get?_allocate_of_get? h, rfl, rfl, rfl, rfl⟩
  classObject _ _ _ _ _ _ _ _ := ⟨fun _ _ _ h => Heap.get?_allocate_of_get? h, rfl, rfl, rfl, rfl⟩

instance : SparesNew Spares where
  then_new h hr h' := h.trans h' (SparesNew.then_new h.leaves hr h'.leaves)

theorem update (hr : r ∈ free) : Spares free m { m with heap := m.heap.update r f } :=
  ⟨fun r' _ hr' h => (Heap.get?_update_of_ne fun e : r = r' => hr' (e ▸ hr)).trans h,
    rfl, rfl, rfl, rfl⟩

theorem mono (h : Spares ∅ m m') : Spares free m m' :=
  { h with leaves := fun _ _ _ h' => h.leaves.get? h' }

end Spares

/-- The work answers with an object that was not there before. -/
def Makes (x : Exec Ref) : Prop :=
  ∀ m r m', outcome x m = (.ok r, m') → m.heap.get? r = none

/-- Work that makes an object, and then changes no other. -/
theorem Within.new {R : Set Ref → Machine → Machine → Prop} [SparesNew R] {α : Type} {x : Exec Ref}
    {g : Ref → Exec α} (hx : Within (R ∅) x) (hm : Makes x) (hg : ∀ r, Within (R {r}) (g r)) :
    Within (R ∅) (x >>= g) := by
  intro m
  rcases outcome_bind_cases x g m with ⟨e, m₁, h₁, h₂⟩ | ⟨r, m₁, h₁, h₂⟩ <;> rw [h₂]
  · exact hx.of_eq h₁
  · exact SparesNew.then_new (hx.of_eq h₁) (hm m r m₁ h₁) (hg r m₁)

theorem Within.spares {α : Type} {free : Set Ref} {x : Exec α} (h : Within (Spares ∅) x) :
    Within (Spares free) x := h.mono fun _ _ => .mono

theorem Within.leaves {α : Type} {free : Set Ref} {x : Exec α} (h : Within (Spares free) x) :
    Within (Leaves free) x := h.mono fun _ _ => Spares.leaves

namespace Exec

variable {free : Set Ref} {r : Ref}

theorem get?_new (h : Heap) : h.get? ⟨h.objects.size⟩ = none := by
  simp [Heap.get?]

theorem instantiate_makes {c : Class} : Makes (instantiate c) := by
  intro m r m' h
  unfold instantiate at h
  split at h <;> cases h
  exact get?_new m.heap

theorem newObject_makes {className : String} : Makes (newObject className) := by
  intro m r m' h
  obtain ⟨c, m₁, hc, h⟩ := outcome_bind_eq_ok h
  obtain ⟨-, rfl⟩ := Prod.mk.inj hc
  have hnew := instantiate_makes _ r m' h
  exact hnew

theorem newArray_makes {className : String} {length : Int32} : Makes (newArray className length) := by
  intro m r m' h
  obtain ⟨c, m₁, hc, h⟩ := outcome_bind_eq_ok h
  obtain ⟨-, rfl⟩ := Prod.mk.inj hc
  unfold instantiateArray at h
  split at h <;> cases h
  exact get?_new m.heap

theorem updateObject_spares {f : Object → Object} (hr : r ∈ free) :
    Within (Spares free) (updateObject r f) := fun _ => .update hr

theorem updatePayload_spares {f : Payload → Payload} (hr : r ∈ free) :
    Within (Spares free) (updatePayload r f) :=
  .bind (.discard object_within) fun _ => updateObject_spares hr

theorem putField_spares {key : String} {v : Value} (hr : r ∈ free) :
    Within (Spares free) (putField r key v) :=
  .bind object_within fun _ => .bind (.liftExcept _) fun _ => updateObject_spares hr

theorem arrayStore_spares {index : Int32} {v : Value} (hr : r ∈ free) :
    Within (Spares free) (arrayStore r index v) :=
  .bind object_within fun _ => .bind (.liftExcept _) fun _ => updateObject_spares hr

/-! ## Making throwables, threads and arrays of arrays -/

theorem newThrowable_spares {className : String} {message : Option String} {cause : Option Ref} :
    Within (Spares ∅) (newThrowable className message cause) := by
  refine .new newObject_within newObject_makes fun r => ?_
  cases message with
  | none => exact .bind (putField_spares rfl) fun _ => .pure _
  | some text =>
    exact .bind newString_within fun _ => .bind (putField_spares rfl) fun _ =>
      .bind (putField_spares rfl) fun _ => .pure _

theorem materialize_spares {t : Throwable} : Within (Spares ∅) (materialize t) :=
  materialize_of newThrowable_spares

theorem initializerFailure_spares : Within (Spares ∅) (initializerFailure r) :=
  initializerFailure_of newThrowable_spares

theorem bindThread_spares {id : ThreadId} (hr : r ∈ free) :
    Within (Spares free) (bindThread id r) :=
  .bind (updatePayload_spares hr) fun _ m => ⟨refl_of (Leaves free) m, rfl, rfl, rfl, rfl⟩

theorem threadObject_spares {id : ThreadId} : Within (Spares ∅) (threadObject id) := by
  refine read_within fun m => ?_
  split
  · exact .pure _
  · refine .new newObject_within newObject_makes fun r => ?_
    exact .bind newString_within fun _ => .bind (putField_spares rfl) fun _ =>
      .bind (bindThread_spares rfl) fun _ => .pure _

/-- Only new arrays are filled. -/
theorem multiArray_spares : ∀ {name : String} {lengths : List Int32},
    lengths.length ≤ dimensionsOf name → Within (Spares ∅) (multiArray name lengths)
  | _, [], _ => .throw _
  | _, [_], hn => newArray_within (isArrayName_of_dimensionsOf hn)
  | name, length :: next :: rest, hn => by
    rw [List.length_cons] at hn
    have hrest : (next :: rest).length ≤ dimensionsOf (elementName name) := by
      rcases dimensionsOf_elementName name with h | h <;> omega
    have ih := multiArray_spares hrest
    rw [multiArray]
    · refine .new (newArray_within (isArrayName_of_dimensionsOf
        (lt_of_lt_of_le (Nat.succ_pos _) hn))) newArray_makes fun array => ?_
      exact .bind (.forM fun _ _ => .bind ih.spares fun _ => arrayStore_spares rfl) fun _ => .pure _
    · simp

end Exec

/-! ## Instructions that use no class -/

namespace FrameM

variable {index : Nat} {kind : ArrayKind} {host : Host} {id : ThreadId}

/-- A store is refused before it changes anything. -/
theorem arrayStore_spares : ThrowsWithin (OnFrame (Spares ∅)) (arrayStore kind) :=
  .bind pop_within fun _ => .bind popInt_within fun _ => .bind popObject_within fun _ =>
    .bind (lift_within object_within) fun _ => .bind (.liftExcept _) fun _ =>
      .bind (lift_within storable_within) fun _ => lift_throwsWithin arrayStore_throwsWithin

theorem putField_spares : ThrowsWithin (OnFrame (Spares ∅)) (putField index) :=
  .bind instanceSite_within fun _ => .bind pop_within fun _ => .bind popHolder_within fun _ =>
    .bind (.liftExcept _) fun _ => .of_fatal (lift_failsWith fun _ => updateObject_failsWith)

theorem newMultiArray_spares {dimensions : Nat} :
    Within (OnFrame (Spares ∅)) (newMultiArray index dimensions) := by
  refine .bind classNameAt_within fun _ => .bind takeOff_within fun _ =>
    .bind (.mapM fun _ => .liftExcept _) fun lengths => ?_
  have filled {name : String} : Within (OnFrame (Spares ∅)) (do
      push (.ofRef (← Exec.multiArray name (lengths.take (dimensionsOf name)))) : FrameM Unit) :=
    .bind (lift_within (multiArray_spares (List.length_take_le ..))) fun _ => push_within
  dsimp only
  split
  · exact .bind (.throw _) fun _ => filled
  · exact filled

theorem monitorEnter_spares : ThrowsWithin (OnFrame (Spares ∅)) (monitorEnter id) := by
  refine .bind peek_within fun _ => .bind (.liftExcept _) fun r =>
    .then_fatal (lift_throwsWithin withMonitor_throwsWithin) fun entered => ?_
  split
  · exact .bind (.discard pop_fatal) fun _ => modifyFrame_failsWith.bind fun _ => .pure _
  · exact .pure _

theorem monitorExit_spares : ThrowsWithin (OnFrame (Spares ∅)) (monitorExit id) :=
  .bind popObject_within fun _ => .then_fatal (lift_throwsWithin withMonitor_throwsWithin) fun _ =>
    .bind (lift_failsWith fun _ => request_failsWith) fun _ => modifyFrame_failsWith

/-- **An instruction that uses no class checks all it has to check before it changes anything.** -/
theorem execute_spares {i : Instruction} (hn : i.needsClass = false) :
    ThrowsWithin (OnFrame (Spares ∅)) (execute host id i) := by
  cases hc : i.changesObjects with
  | false => exact .of_within (execute_creates hn hc)
  | true =>
    cases i with
    | arrayStore => exact arrayStore_spares.then_fatal fun _ => .pure _
    | putField => exact putField_spares.then_fatal fun _ => .pure _
    | newMultiArray => exact .of_within (andAdvance_within newMultiArray_spares)
    | monitorEnter => exact monitorEnter_spares
    | monitorExit => exact monitorExit_spares.then_fatal fun _ => .pure _
    | _ => cases hc

end FrameM

/-! ## Native class initializers -/

/-- The call of the native initializer of a class. -/
def NativeCall.initializer (owner : Class) (thread : ThreadId) : NativeCall :=
  { owner, receiver := none, args := [], thread }

/-- Setting up the streams makes new objects, and sets static fields. -/
theorem SystemOp.classInit_leaves {call : NativeCall} :
    Within (Leaves ∅) (SystemOp.classInit.run call) := by
  have sets {r : Ref} {c : Class} {key : String} {v : Value} :
      Within (Leaves {r}) (putStaticByKey c key v) := by
    unfold putStaticByKey
    split
    · exact .pure _
    · exact .bind (fun _ _ _ _ h => h) fun _ => .pure _
  refine .bind (.forIn fun (field, s) _ => ?_) fun _ => .pure _
  exact .new newObject_within.leaves newObject_makes fun r =>
    .bind (updatePayload_spares (Set.mem_singleton r)).leaves fun _ => .bind (.discard sets) fun _ => .pure _

/-- An operation of a built-in class does nothing to objects if it is called like a class
    initializer. -/
theorem Builtin.run_initializer (op : Builtin) (owner : Class) (thread : ThreadId) :
    Within (Leaves ∅) (op.run (.initializer owner thread)) := by
  have refused {x : Exec (Option Value)} {e : Fault} (h : ∀ m, outcome x m = (.error e, m)) :
      Within (Leaves ∅) x := fun m => by rw [h m]; exact refl_of (Leaves ∅) m
  cases op with
  | nothing => exact .pure _
  | object op => cases op <;> exact refused fun _ => rfl
  | classObject op => exact refused fun _ => rfl
  | string op => cases op <;> exact refused fun _ => rfl
  | builder op => cases op <;> exact refused fun _ => rfl
  | print op => cases op <;> exact refused fun _ => rfl
  | throwable op => cases op <;> exact refused fun _ => rfl
  | system op =>
    cases op with
    | classInit => exact SystemOp.classInit_leaves
    | currentTimeMillis => exact .bind get_within fun _ => .pure _
    | nanoTime => exact .bind get_within fun _ => .pure _
    | lineSeparator => exact .bind newString_within.leaves fun _ => .pure _
    | _ => exact refused fun _ => rfl
  | thread op =>
    cases op with
    | currentThread => exact .bind threadObject_spares.leaves fun _ => .pure _
    | yield => exact .bind (fun _ _ _ _ h => h) fun _ => .pure _
    | _ => exact refused fun _ => rfl

end GreenVm
