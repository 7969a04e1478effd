/-
  Loading and storing the elements of an array.

  * `Machine.Rewrites`: one machine is another but for the elements of an array.
  * `Frame.Refuses`: an instruction throws, and the machine stays as it is.
  * `Frame.Loads`, `Frame.Stores`: the instructions come to push an element, and to set one.
  * `Frame.accesses_element`: which of this happens, by the index and the value to store.
  * `Vm.not_refuses_index`: the class of an object is looked at before the index.
-/
import GreenVm.Proofs.Fields

namespace GreenVm

open Exec

/-! ## Values in arrays -/

/-- A value as an array of a component type keeps it. -/
def FieldType.narrowed : FieldType → Value → Value
  | .boolean, .int i => .int (i &&& 1)
  | .byte, .int i => .int (NarrowKind.byte.apply i)
  | .char, .int i => .int (NarrowKind.char.apply i)
  | .short, .int i => .int (NarrowKind.short.apply i)
  | _, v => v

/-- A value as an instruction for arrays of a kind stores it. -/
def ArrayKind.kept (kind : ArrayKind) : Value → Value
  | .int i => .int (kind.narrowed i)
  | v => v

/-- An array takes a value, unless it is an object of a class that the elements may not be of. -/
def Object.Takes (o : Object) (h : Heap) (v : Value) : Prop :=
  ∀ x k e, v = .ofRef x → h.get? x = some k → o.type.element = some e →
    k.type.isAssignableTo e = true

variable {m m' : Machine} {r x : Ref} {o k : Object} {v w : Value} {kind : ArrayKind}
  {t : FieldType} {e : Class} {i : Int32} {j : Nat} {values : Array Value}

/-- What an instruction stores is what the component type makes of it, except between bytes and
    booleans. -/
theorem ArrayKind.kept_eq_narrowed (ht : kind.accepts t = true)
    (hv : kind.valueKind.accepts false v = true) (hb : kind = .byte ↔ t = .byte) :
    kind.kept v = t.narrowed v := by
  cases kind <;> cases t <;> try cases ht
  all_goals cases v <;> try cases hv
  all_goals first
    | rfl
    | cases hb.1 rfl
    | cases hb.2 rfl

theorem ArrayKind.check_of_accepts (hc : o.type.declared.component = some t)
    (ht : kind.accepts t = true) : kind.check o.type = .ok () := by
  simp only [check, hc, ht, if_true]

/-! ## Elements in the machine -/

theorem Object.arrayLoad_eq (hb : o.body = .elements values) (i : Int32) :
    o.arrayLoad i = (do return values[← checkedIndex i values.size]?.getD .top) := by
  rw [arrayLoad, elements, hb]
  rfl

theorem Object.elementPlace_eq (hb : o.body = .elements values) (i : Int32) :
    o.elementPlace i = checkedIndex i values.size := by
  rw [elementPlace, elements, hb]
  rfl

/-- One machine is another but for the elements of an array. -/
structure Machine.Rewrites (m m' : Machine) (r : Ref) (o : Object) (values : Array Value) :
    Prop where
  rest : m' = { m with heap := m'.heap }
  others : ∀ r', r' ≠ r → m'.heap.get? r' = m.heap.get? r'
  array : m'.heap.get? r = some { o with body := .elements values }

namespace Exec

/-- An index in range is a place in the array. -/
theorem checkedIndex_of_lt (hi : i.toInt = j) (hj : j < values.size) :
    Object.checkedIndex i values.size = .ok j := by
  rw [Object.checkedIndex, if_pos (by omega), hi]
  rfl

/-- An index out of range is not. -/
theorem checkedIndex_of_not_lt (hi : i.toInt < 0 ∨ values.size ≤ i.toInt) :
    Object.checkedIndex i values.size = .error (.arrayIndex i.toInt values.size) := by
  rw [Object.checkedIndex, if_neg (by omega)]

/-- A value that the array takes can be stored. -/
theorem outcome_storable (hv : kind.valueKind.accepts false v = true)
    (hx : ∀ x, v = .ofRef x → ∃ k, m.heap.get? x = some k) (ht : o.Takes m.heap v) :
    outcome (storable o kind v) m = (.ok (kind.kept v), m) := by
  have hcheck : kind.valueKind.check false v = .ok () := if_pos hv
  cases v with
  | reference y =>
    cases y with
    | none =>
      simp only [storable, hcheck]
      rfl
    | some x =>
      obtain rfl := ArrayKind.eq_reference hv
      cases he : o.type.element with
      | none =>
        simp only [storable, he, hcheck]
        rfl
      | some e =>
        obtain ⟨k, hk⟩ := hx x rfl
        simp only [storable, he]
        rw [outcome_bind_ok (outcome_typeOf hk), if_pos (ht x k e rfl hk he)]
        rfl
  | _ =>
    simp only [storable, hcheck]
    rfl

/-- An object that the array does not take is refused. -/
theorem outcome_storable_of_not_assignable (hk : m.heap.get? x = some k)
    (he : o.type.element = some e) (ha : k.type.isAssignableTo e = false) :
    outcome (storable o .reference (.ofRef x)) m = (.error (.arrayStore k.type.name), m) := by
  simp only [storable, Value.ofRef, he]
  rw [outcome_bind_ok (outcome_typeOf hk), if_neg (by simp [ha]), outcome_throw]

/-- Storing at an index out of range. -/
theorem outcome_arrayStore_of_not_lt (ho : m.heap.get? r = some o) (hb : o.body = .elements values)
    (hi : i.toInt < 0 ∨ values.size ≤ i.toInt) :
    outcome (arrayStore r i w) m = (.error (.arrayIndex i.toInt values.size), m) := by
  rw [arrayStore, outcome_bind_ok (outcome_object ho), Object.elementPlace_eq hb,
    checkedIndex_of_not_lt hi]
  rfl

/-- Storing at an index in range sets the element there. -/
theorem outcome_arrayStore (ho : m.heap.get? r = some o) (hb : o.body = .elements values)
    (hi : i.toInt = j) (hj : j < values.size) :
    ∃ m', outcome (arrayStore r i w) m = (.ok (), m') ∧
      m.Rewrites m' r o (values.setIfInBounds j w) := by
  refine ⟨{ m with heap := m.heap.update r (·.setElement j w) }, ?_, rfl, fun r' hr => ?_, ?_⟩
  · rw [arrayStore, outcome_bind_ok (outcome_object ho), Object.elementPlace_eq hb,
      checkedIndex_of_lt hi hj]
    rfl
  · exact Heap.get?_update_of_ne hr.symm
  · refine (Heap.get?_update_self ho).trans (congrArg some ?_)
    rw [Object.setElement, hb]
    rfl

end Exec

/-! ## The instructions -/

/-- An instruction throws, and the machine stays as it is. -/
def Frame.Refuses (f : Frame) (i : Instruction) (m : Machine) (e : Fault) : Prop :=
  ∀ host id, ∃ stack : OperandStack,
    outcome (FrameM.execute host id i) (f, m) = (.error e, { f with stack }, m)

/-- The instruction that loads an element comes to push a value in place of the array and the
    index. -/
def Frame.Loads (f : Frame) (kind : ArrayKind) (m : Machine) (v : Value) : Prop :=
  ∀ host id, ∃ stack : OperandStack, stack.values = f.stack.values.drop 2 ∧
    outcome (FrameM.execute host id (.arrayLoad kind)) (f, m) =
      outcome (FrameM.andAdvance (FrameM.push v)) ({ f with stack }, m)

/-- The instruction that stores an element takes the array, the index and the value from the stack
    and changes the machine. -/
def Frame.Stores (f : Frame) (kind : ArrayKind) (m m' : Machine) : Prop :=
  ∀ host id, ∃ stack : OperandStack, stack.values = f.stack.values.drop 3 ∧
    outcome (FrameM.execute host id (.arrayStore kind)) (f, m) = (.ok .advance, { f with stack }, m')

namespace FrameM

variable {f : Frame} {vs : List Value}

theorem outcome_popInt (h : f.stack.values = .int i :: vs) (m : Machine) :
    ∃ stack : OperandStack, stack.values = vs ∧
      outcome popInt (f, m) = (.ok i, { f with stack }, m) := by
  obtain ⟨stack, hstack, hpop⟩ := outcome_pop h m
  exact ⟨stack, hstack, by rw [popInt, outcome_bind_ok hpop]; rfl⟩

theorem outcome_popObject (h : f.stack.values = .ofRef r :: vs) (m : Machine) :
    ∃ stack : OperandStack, stack.values = vs ∧
      outcome popObject (f, m) = (.ok r, { f with stack }, m) := by
  obtain ⟨stack, hstack, hpop⟩ := outcome_pop h m
  exact ⟨stack, hstack, by rw [popObject, outcome_bind_ok hpop]; rfl⟩

/-- Loading from an array of the kind comes to loading from the object. -/
theorem outcome_arrayLoad (hf : f.stack.values = .int i :: .ofRef r :: vs)
    (ho : m.heap.get? r = some o) (hk : kind.check o.type = .ok ()) :
    ∃ stack : OperandStack, stack.values = vs ∧
      outcome (arrayLoad kind) (f, m) =
        outcome (do push (← o.arrayLoad i) : FrameM Unit) ({ f with stack }, m) := by
  obtain ⟨stack₁, h₁, hindex⟩ := outcome_popInt hf m
  obtain ⟨stack, h, hobject⟩ := outcome_popObject (f := { f with stack := stack₁ }) h₁ m
  refine ⟨stack, h, ?_⟩
  rw [arrayLoad, outcome_bind_ok hindex, outcome_bind_ok hobject,
    outcome_frame_bind_ok (outcome_object ho), hk]
  rfl

/-- Storing in an array of the kind comes to storing in the object what can be stored there. -/
theorem outcome_arrayStore (hf : f.stack.values = v :: .int i :: .ofRef r :: vs)
    (ho : m.heap.get? r = some o) (hk : kind.check o.type = .ok ()) :
    ∃ stack : OperandStack, stack.values = vs ∧
      outcome (arrayStore kind) (f, m) =
        outcome (do Exec.arrayStore r i (← storable o kind v) : FrameM Unit) ({ f with stack }, m) := by
  obtain ⟨stack₀, h₀, hvalue⟩ := outcome_pop hf m
  obtain ⟨stack₁, h₁, hindex⟩ := outcome_popInt (f := { f with stack := stack₀ }) h₀ m
  obtain ⟨stack, h, hobject⟩ := outcome_popObject (f := { f with stack := stack₁ }) h₁ m
  refine ⟨stack, h, ?_⟩
  rw [arrayStore, outcome_bind_ok hvalue, outcome_bind_ok hindex, outcome_bind_ok hobject,
    outcome_frame_bind_ok (outcome_object ho), hk]
  rfl

end FrameM

namespace Frame

variable {f : Frame} {vs : List Value}

/-- An instruction throws one thing. -/
theorem Refuses.unique {instruction : Instruction} {a b : Fault} (ha : f.Refuses instruction m a)
    (hb : f.Refuses instruction m b) : a = b := by
  obtain ⟨_, ha⟩ := ha .idle ⟨0⟩
  obtain ⟨_, hb⟩ := hb .idle ⟨0⟩
  exact Except.error.inj (congrArg Prod.fst (ha.symm.trans hb))

/-- Loading at an index out of range. -/
theorem refuses_arrayLoad (hf : f.stack.values = .int i :: .ofRef r :: vs)
    (ho : m.heap.get? r = some o) (hb : o.body = .elements values)
    (hk : kind.check o.type = .ok ()) (hi : i.toInt < 0 ∨ values.size ≤ i.toInt) :
    f.Refuses (.arrayLoad kind) m (.arrayIndex i.toInt values.size) := by
  intro host id
  obtain ⟨stack, -, hx⟩ := FrameM.outcome_arrayLoad hf ho hk
  have hload : o.arrayLoad i = .error (.arrayIndex i.toInt values.size) := by
    rw [Object.arrayLoad_eq hb, checkedIndex_of_not_lt hi]
    rfl
  refine ⟨stack, outcome_bind_error (hx.trans ?_)⟩
  rw [hload]
  rfl

/-- Loading at an index in range. -/
theorem loads_of_lt (hf : f.stack.values = .int i :: .ofRef r :: vs)
    (ho : m.heap.get? r = some o) (hb : o.body = .elements values)
    (hk : kind.check o.type = .ok ()) (hi : i.toInt = j) (hj : values[j]? = some v) :
    f.Loads kind m v := by
  intro host id
  obtain ⟨stack, hstack, hx⟩ := FrameM.outcome_arrayLoad hf ho hk
  have hload : o.arrayLoad i = .ok v := by
    rw [Object.arrayLoad_eq hb, checkedIndex_of_lt hi (Array.getElem?_eq_some_iff.1 hj).1]
    exact congrArg Except.ok (by rw [hj]; rfl)
  refine ⟨stack, by rw [hf]; exact hstack, ?_⟩
  have hpush : outcome (FrameM.arrayLoad kind) (f, m) =
      outcome (FrameM.push v) ({ f with stack }, m) := by
    rw [hx, hload]
    rfl
  simp only [FrameM.execute, FrameM.andAdvance, outcome_bind, hpush]

/-- Storing an object that the array does not take, whatever the index is. -/
theorem refuses_arrayStore_of_not_assignable (hf : f.stack.values = .ofRef x :: .int i :: .ofRef r :: vs)
    (ho : m.heap.get? r = some o) (hk : ArrayKind.reference.check o.type = .ok ())
    (hx : m.heap.get? x = some k) (he : o.type.element = some e)
    (ha : k.type.isAssignableTo e = false) :
    f.Refuses (.arrayStore .reference) m (.arrayStore k.type.name) := by
  intro host id
  obtain ⟨stack, -, hs⟩ := FrameM.outcome_arrayStore hf ho hk
  refine ⟨stack, outcome_bind_error (hs.trans ?_)⟩
  exact outcome_frame_bind_error (outcome_storable_of_not_assignable hx he ha)

/-- Storing what the array takes, at an index out of range. -/
theorem refuses_arrayStore_of_not_lt (hf : f.stack.values = v :: .int i :: .ofRef r :: vs)
    (ho : m.heap.get? r = some o) (hb : o.body = .elements values)
    (hk : kind.check o.type = .ok ()) (hv : kind.valueKind.accepts false v = true)
    (hx : ∀ x, v = .ofRef x → ∃ k, m.heap.get? x = some k) (ht : o.Takes m.heap v) (hi : i.toInt < 0 ∨ values.size ≤ i.toInt) :
    f.Refuses (.arrayStore kind) m (.arrayIndex i.toInt values.size) := by
  intro host id
  obtain ⟨stack, -, hs⟩ := FrameM.outcome_arrayStore hf ho hk
  refine ⟨stack, outcome_bind_error (hs.trans ?_)⟩
  rw [outcome_frame_bind_ok (outcome_storable hv hx ht), outcome_liftFrame,
    outcome_arrayStore_of_not_lt ho hb hi]

/-- Storing what the array takes, at an index in range. -/
theorem stores_of_lt (hf : f.stack.values = v :: .int i :: .ofRef r :: vs)
    (ho : m.heap.get? r = some o) (hb : o.body = .elements values)
    (hk : kind.check o.type = .ok ()) (hv : kind.valueKind.accepts false v = true)
    (hx : ∀ x, v = .ofRef x → ∃ k, m.heap.get? x = some k) (ht : o.Takes m.heap v) (hi : i.toInt = j) (hj : j < values.size) :
    ∃ m', f.Stores kind m m' ∧ m.Rewrites m' r o (values.setIfInBounds j (kind.kept v)) := by
  obtain ⟨m', hset, hrewrites⟩ := outcome_arrayStore (w := kind.kept v) ho hb hi hj
  refine ⟨m', fun host id => ?_, hrewrites⟩
  obtain ⟨stack, hstack, hs⟩ := FrameM.outcome_arrayStore hf ho hk
  refine ⟨stack, by rw [hf]; exact hstack, ?_⟩
  have hstore : outcome (FrameM.arrayStore kind) (f, m) = (.ok (), { f with stack }, m') := by
    rw [hs, outcome_frame_bind_ok (outcome_storable hv hx ht), outcome_liftFrame, hset]
  exact outcome_bind_ok hstore

/-- **What comes of loading and storing an element** of an array that is one for the instruction, with
    a value that is one for it.  At an index out of range a load throws, and so does a store of what
    the array takes; an object that it does not take is refused at whatever index, for its class.
    In each of these cases everything stays as it is.  At an index in range the element is loaded, and
    what the array takes is stored there, and nowhere else, and is loaded from there afterwards.  It is
    what the component type makes of the value, unless the instruction is for bytes and the array of
    booleans or the other way round. -/
theorem accesses_element {g : Frame} {us : List Value} (ho : m.heap.get? r = some o)
    (hb : o.body = .elements values) (hc : o.type.declared.component = some t)
    (hk : kind.accepts t = true) (hv : kind.valueKind.accepts false v = true)
    (hx : ∀ x, v = .ofRef x → ∃ k, m.heap.get? x = some k)
    (hg : g.stack.values = .int i :: .ofRef r :: us)
    (hf : f.stack.values = v :: .int i :: .ofRef r :: vs) :
    (i.toInt < 0 ∨ values.size ≤ i.toInt →
      g.Refuses (.arrayLoad kind) m (.arrayIndex i.toInt values.size) ∧
      (o.Takes m.heap v → f.Refuses (.arrayStore kind) m (.arrayIndex i.toInt values.size))) ∧
    (¬ o.Takes m.heap v → ∃ x k, v = .ofRef x ∧ m.heap.get? x = some k ∧
      f.Refuses (.arrayStore kind) m (.arrayStore k.type.name)) ∧
    ∀ j : Nat, i.toInt = j → j < values.size →
      (∃ a, values[j]? = some a ∧ g.Loads kind m a) ∧
      (o.Takes m.heap v → ∃ m', f.Stores kind m m' ∧
        m.Rewrites m' r o (values.setIfInBounds j (kind.kept v)) ∧ g.Loads kind m' (kind.kept v) ∧
        ((kind = .byte ↔ t = .byte) → kind.kept v = t.narrowed v)) := by
  have hcheck : kind.check o.type = .ok () := ArrayKind.check_of_accepts hc hk
  refine ⟨fun hi => ⟨refuses_arrayLoad hg ho hb hcheck hi,
    fun ht => refuses_arrayStore_of_not_lt hf ho hb hcheck hv hx ht hi⟩, fun ht => ?_,
    fun j hi hj => ⟨⟨_, Array.getElem?_eq_getElem hj, ?_⟩, fun ht => ?_⟩⟩
  · simp only [Object.Takes, not_forall, Bool.not_eq_true] at ht
    obtain ⟨x, k, e, rfl, hthere, he, ha⟩ := ht
    obtain rfl := ArrayKind.eq_reference hv
    exact ⟨x, k, rfl, hthere, refuses_arrayStore_of_not_assignable hf ho hcheck hthere he ha⟩
  · exact loads_of_lt hg ho hb hcheck hi (Array.getElem?_eq_getElem hj)
  · obtain ⟨m', hstores, hrewrites⟩ := stores_of_lt hf ho hb hcheck hv hx ht hi hj
    refine ⟨m', hstores, hrewrites, ?_, ArrayKind.kept_eq_narrowed hk hv⟩
    exact loads_of_lt hg hrewrites.array rfl hcheck hi (Array.getElem?_setIfInBounds_self_of_lt hj)

end Frame

/-! ## Programs -/

namespace Vm

/-- A virtual machine with a main method that makes an array and stores a value at an index. -/
def ofStorer (array : List Instruction) (index : Int32) (value : Instruction) (kind : ArrayKind) :
    Vm :=
  .boot {} (.ofList [("A", { ClassFile.ofClass "A" with
    pool := [.classRef "A", .classRef ClassName.string]
    methods := [
      { flags := .ofList [.staticMember], name := "main", descriptor := "()V"
        code := some (.ofList 3 0
          (array ++ [.literal (.int index), value, .arrayStore kind, .leave none])) }] })]) 0

/-- What runs the main method until it comes to the store. -/
def storing : List Action := .spawn "A" "main" "()V" [] :: List.replicate 5 .turn

/-- The number 300 comes to 44 in an array of bytes. -/
theorem accesses_element_byte :
    ∃ (f : Frame) (m : Machine) (o : Object) (values : Array Value) (m' : Machine),
      m = ((ofStorer [.literal (.int 3), .newArray .byte] 1 (.literal (.int 300)) .byte).after .idle
        storing).machine ∧ m.heap.get? ⟨2⟩ = some o ∧ o.body = .elements values ∧
      f.Stores .byte m m' ∧ m.Rewrites m' ⟨2⟩ o (values.setIfInBounds 1 (.int 44)) := by
  generalize hvm : (ofStorer [.literal (.int 3), .newArray .byte] 1 (.literal (.int 300)) .byte).after
    .idle storing = vm
  have h : vm.threads[0]?.any fun t => t.frames.head?.any fun f =>
      (vm.machine.heap.get? ⟨2⟩).any fun o => o.elements.toOption.any fun values =>
        f.stack.values = [.int 300, .int 1, .ofRef ⟨2⟩] ∧ values.size = 3 ∧
          o.type.declared.component = some .byte := by
    rw [← hvm]
    decide +kernel
  obtain ⟨t, -, h⟩ := (Option.any_eq_true _ _).1 h
  obtain ⟨f, -, h⟩ := (Option.any_eq_true _ _).1 h
  obtain ⟨o, ho, h⟩ := (Option.any_eq_true _ _).1 h
  obtain ⟨values, hvalues, h⟩ := except_any_toOption.1 h
  obtain ⟨hf, hsize, hc⟩ := of_decide_eq_true h
  have hb := Object.elements_ok hvalues
  let g : Frame := { f with stack := { f.stack with values := [.int 1, .ofRef ⟨2⟩] } }
  have hg : g.stack.values = [.int 1, .ofRef ⟨2⟩] := rfl
  have hk : ArrayKind.byte.accepts .byte = true := rfl
  have hv : ArrayKind.byte.valueKind.accepts false (.int 300) = true := rfl
  obtain ⟨-, hstore⟩ := (Frame.accesses_element ho hb hc hk hv (fun x hx => by cases hx) hg hf).2.2
    1 rfl (by omega)
  obtain ⟨m', hstores, hrewrites, -⟩ := hstore fun x k e hx => by cases hx
  exact ⟨f, _, o, values, m', rfl, ho, hb, hstores, hrewrites⟩

/-- An object that is no string is refused for its class where the array of strings has no place, and
    not for the index. -/
theorem not_refuses_index :
    ∃ (f : Frame) (m : Machine) (o : Object) (values : Array Value),
      m = ((ofStorer [.literal (.int 1), .newReferenceArray 2] 1 (.new 1) .reference).after .idle
        storing).machine ∧ m.heap.get? ⟨2⟩ = some o ∧ o.body = .elements values ∧
      o.type.declared.component = some (.object ClassName.string) ∧ values.size = 1 ∧
      (∃ k, m.heap.get? ⟨3⟩ = some k) ∧ f.stack.values = [.ofRef ⟨3⟩, .int 1, .ofRef ⟨2⟩] ∧
      f.Refuses (.arrayStore .reference) m (.arrayStore "A") ∧
      ¬ f.Refuses (.arrayStore .reference) m (.arrayIndex 1 1) := by
  generalize hvm : (ofStorer [.literal (.int 1), .newReferenceArray 2] 1 (.new 1) .reference).after
    .idle storing = vm
  have h : vm.threads[0]?.any fun t => t.frames.head?.any fun f =>
      (vm.machine.heap.get? ⟨2⟩).any fun o => o.elements.toOption.any fun values =>
        (vm.machine.heap.get? ⟨3⟩).any fun k => o.type.element.any fun e =>
          f.stack.values = [.ofRef ⟨3⟩, .int 1, .ofRef ⟨2⟩] ∧ values.size = 1 ∧
            o.type.declared.component = some (.object ClassName.string) ∧ k.type.name = "A" ∧
            k.type.isAssignableTo e = false := by
    rw [← hvm]
    decide +kernel
  obtain ⟨t, -, h⟩ := (Option.any_eq_true _ _).1 h
  obtain ⟨f, -, h⟩ := (Option.any_eq_true _ _).1 h
  obtain ⟨o, ho, h⟩ := (Option.any_eq_true _ _).1 h
  obtain ⟨values, hvalues, h⟩ := except_any_toOption.1 h
  obtain ⟨k, hk, h⟩ := (Option.any_eq_true _ _).1 h
  obtain ⟨e, he, h⟩ := (Option.any_eq_true _ _).1 h
  obtain ⟨hf, hsize, hc, hname, ha⟩ := of_decide_eq_true h
  have refused : f.Refuses (.arrayStore .reference) vm.machine (.arrayStore "A") :=
    hname ▸ Frame.refuses_arrayStore_of_not_assignable hf ho (ArrayKind.check_of_accepts hc rfl) hk he
      ha
  refine ⟨f, _, o, values, rfl, ho, Object.elements_ok hvalues, hc, hsize, ⟨k, hk⟩, hf, refused,
    fun h => ?_⟩
  have same : Fault.arrayStore "A" = Fault.arrayIndex 1 1 := refused.unique h
  exact absurd (Throwable.symbolic.inj (Fault.thrown.inj same)).1 (by decide)

end Vm

end GreenVm
