/-
  What the arrays of a machine hold.

  * `FieldType.Admits bools t v`: an array with elements of the type may hold the value, where `bools`
    are the numbers that are taken for booleans.
  * `Object.Filled`: the elements of an array are admitted, and every object among them is there and
    may stand where the class of the elements is expected.
  * `Machine.Filled`: so it is with all arrays, and the classes that are loaded are what their names
    mean.
  * `Machine.Sized`: every object has the slots its class gives it, and arrays have none.
  * `Object.Shaped`: if the object has slots, it is no array.
  * `Machine.Fills m o`: if all arrays of the machine are rightly filled, so is this object, whatever
    is taken for booleans; if all objects have their slots, so has this one; and if what has slots is
    no array, that is so of this object.
-/
import GreenVm.Proofs.Layouts
import GreenVm.Proofs.Objects

namespace GreenVm

open Exec

/-! ## Numbers -/

theorem NarrowKind.apply_byte_range (v : Int32) :
    -128 ≤ (NarrowKind.byte.apply v).toInt ∧ (NarrowKind.byte.apply v).toInt ≤ 127 := by
  have hle := v.toInt8.le_toInt
  have hlt := v.toInt8.toInt_lt
  rw [apply, Int8.toInt_toInt32]
  omega

theorem NarrowKind.apply_short_range (v : Int32) :
    -32768 ≤ (NarrowKind.short.apply v).toInt ∧ (NarrowKind.short.apply v).toInt ≤ 32767 := by
  have hle := v.toInt16.le_toInt
  have hlt := v.toInt16.toInt_lt
  rw [apply, Int16.toInt_toInt32]
  omega

theorem NarrowKind.apply_char_range (v : Int32) :
    0 ≤ (NarrowKind.char.apply v).toInt ∧ (NarrowKind.char.apply v).toInt ≤ 65535 := by
  have hlt := v.toUInt32.toUInt16.toNat_lt
  have hnat : (NarrowKind.char.apply v).toInt = (v.toUInt32.toUInt16.toNat : Int) := by
    rw [apply, ← Int32.toInt_toBitVec, UInt32.toBitVec_toInt32, BitVec.toInt_eq_toNat_of_lt]
    · simp
      rfl
    · simp
      omega
  omega

theorem Int32.and_one_cases (v : Int32) : v &&& 1 = 0 ∨ v &&& 1 = 1 := by
  have h : (v &&& 1).toBitVec = 0#32 ∨ (v &&& 1).toBitVec = 1#32 := by
    rw [Int32.toBitVec_and, show (1 : Int32).toBitVec = 1#32 from rfl,
      BitVec.and_one_eq_setWidth_ofBool_getLsbD]
    cases v.toBitVec.getLsbD 0
    · exact .inl rfl
    · exact .inr rfl
  exact h.imp Int32.toBitVec_inj.1 Int32.toBitVec_inj.1

/-! ## What an array may hold -/

/-- The value is of the kind of a type and, if it is a number, in the range of the type.  For a
    boolean this is one of the numbers `bools`. -/
def FieldType.Admits (bools : Int32 → Prop) : FieldType → Value → Prop
  | .boolean, .int i => bools i
  | .byte, .int i => -128 ≤ i.toInt ∧ i.toInt ≤ 127
  | .char, .int i => 0 ≤ i.toInt ∧ i.toInt ≤ 65535
  | .short, .int i => -32768 ≤ i.toInt ∧ i.toInt ≤ 32767
  | .int, .int _ | .long, .long _ | .float, .float _ | .double, .double _ => True
  | .object _, .reference _ | .array _, .reference _ => True
  | _, _ => False

/-- The class is one of arrays, and has a class for the elements if they are references. -/
def Class.IsOfArrays (c : Class) : Prop :=
  ∃ t, c.declared.component = some t ∧ (t.isReference = true → c.element.isSome = true)

/-- An array of the class may hold a value. -/
structure Class.Holds (bools : Int32 → Prop) (h : Heap) (c : Class) (v : Value) : Prop where
  admitted : ∀ t, c.declared.component = some t → t.Admits bools v
  assignable : ∀ r, v = .ofRef r → ∃ o e, h.get? r = some o ∧ c.element = some e ∧
    o.type.isAssignableTo e = true

/-- If the object is an array, it is of a class of arrays, which may hold all its elements. -/
def Object.Filled (bools : Int32 → Prop) (h : Heap) (o : Object) : Prop :=
  ∀ values, o.body = .elements values →
    o.type.IsOfArrays ∧ ∀ v ∈ values, o.type.Holds bools h v

/-- All arrays are filled with what they may hold, and the classes are there that their names mean. -/
structure Machine.Filled (bools : Int32 → Prop) (m : Machine) : Prop where
  loaded : m.loaded.Sound (sources m)
  arrays : ∀ r o, m.heap.get? r = some o → o.Filled bools m.heap

/-- The slots of an object.  Arrays have none. -/
def Body.slots : Body → Array Value
  | fields slots => slots
  | elements _ => #[]

/-- The object has as many slots as its class says. -/
def Object.Sized (o : Object) : Prop := o.body.slots.size = o.type.layout.length

/-- All objects have as many slots as their classes say, and the classes are there that their names
    mean. -/
structure Machine.Sized (m : Machine) : Prop where
  loaded : m.loaded.Sound (sources m)
  objects : ∀ r o, m.heap.get? r = some o → o.Sized

/-- If the object has slots, it is of a class that is not one of arrays.  Classes of arrays are abstract,
    so it may as well be of a class that is not. -/
def Object.Shaped (o : Object) : Prop :=
  ∀ slots, o.body = .fields slots → o.type.declared.component = none ∨ o.type.isAbstract = false

/-- All objects have a property, and the classes are there that their names mean. -/
structure Machine.Each (P : Object → Prop) (m : Machine) : Prop where
  loaded : m.loaded.Sound (sources m)
  objects : ∀ r o, m.heap.get? r = some o → P o

/-- The object keeps up what holds of all others. -/
structure Machine.Fills (m : Machine) (o : Object) : Prop where
  /-- If the machine is filled, the object is, as long as 0 and 1 are booleans. -/
  filled : ∀ bools : Int32 → Prop, bools 0 → bools 1 → m.Filled bools → o.Filled bools m.heap
  sized : m.Sized → o.Sized
  shaped : m.Each Object.Shaped → o.Shaped

variable {bools : Int32 → Prop} {h h' : Heap} {c : Class} {o : Object} {v : Value} {m : Machine}
  {r : Ref} {name : String}

theorem Object.elements_ok {values : Array Value} (h : o.elements = .ok values) :
    o.body = .elements values := by
  unfold elements at h
  split at h
  · next hb => cases h; exact hb
  · cases h

theorem Value.default_admitted (h0 : bools 0) (t : FieldType) : t.Admits bools (default t) := by
  cases t <;> first | exact h0 | trivial

theorem FieldType.Admits.reference {t : FieldType} (hv : t.Admits bools v)
    (ht : t.isReference = true) : ∃ x, v = .reference x := by
  cases t <;> cases ht <;> cases v <;> first | exact ⟨_, rfl⟩ | cases hv

theorem FieldType.Admits.isReference {t : FieldType} (hv : t.Admits bools (.ofRef r)) :
    t.isReference = true := by
  cases t <;> first | rfl | cases hv

theorem FieldType.admits_reference {t : FieldType} (ht : t.isReference = true) (x : Option Ref) :
    t.Admits bools (.reference x) := by
  cases t <;> trivial

theorem Class.Holds.mono (hv : c.Holds bools h v)
    (hk : ∀ r o, h.get? r = some o → ∃ o', h'.get? r = some o' ∧ o'.type = o.type) :
    c.Holds bools h' v := by
  refine ⟨hv.admitted, fun r hr => ?_⟩
  obtain ⟨o, e, ho, he, ha⟩ := hv.assignable r hr
  obtain ⟨o', ho', ht⟩ := hk r o ho
  exact ⟨o', e, ho', he, ht.symm ▸ ha⟩

namespace Object.Filled

theorem mono (hf : o.Filled bools h)
    (hk : ∀ r o, h.get? r = some o → ∃ o', h'.get? r = some o' ∧ o'.type = o.type) :
    o.Filled bools h' := fun values hb =>
  ⟨(hf values hb).1, fun v hv => ((hf values hb).2 v hv).mono hk⟩

/-- Only the class and the contents of an object matter. -/
theorem of_same {o' : Object} (hf : o.Filled bools h) (ht : o'.type = o.type)
    (hb : o'.body = o.body) : o'.Filled bools h := by
  intro values hv
  rw [ht]
  exact hf values (hb.symm.trans hv)

theorem of_fields {slots : Array Value} (hb : o.body = .fields slots) : o.Filled bools h := by
  intro values hv
  cases hb.symm.trans hv

theorem setElement (hf : o.Filled bools h) (hv : o.type.IsOfArrays → o.type.Holds bools h v)
    (place : Nat) : (o.setElement place v).Filled bools h := by
  intro values hb
  cases ho : o.body with
  | fields slots =>
    rw [Object.setElement, ho] at hb
    cases hb
  | elements old =>
    obtain ⟨hc, hold⟩ := hf old ho
    rw [Object.setElement, ho] at hb
    cases hb
    refine ⟨hc, fun w hw => ?_⟩
    rcases Array.mem_or_eq_of_mem_setIfInBounds hw with hw | rfl
    · exact hold w hw
    · exact hv hc

theorem setElements (hf : o.Filled bools h) {vs : List Value}
    (hvs : ∀ v ∈ vs, o.type.Holds bools h v) (place : Nat) :
    (o.setElements place vs).Filled bools h := by
  induction vs generalizing o place with
  | nil => exact hf
  | cons v vs ih =>
    obtain ⟨hv, hvs⟩ := List.forall_mem_cons.1 hvs
    exact ih (hf.setElement (fun _ => hv) place) hvs (place + 1)

/-- A new array holds nothing but defaults. -/
theorem ofArrayClass (h0 : bools 0) (hc : c.IsOfArrays) (length : Nat) :
    (Object.ofArrayClass c length).Filled bools h := by
  intro values hb
  cases hb
  refine ⟨hc, fun v hv => ?_⟩
  obtain ⟨t, ht, -⟩ := hc
  obtain rfl : v = .default t := by
    have := (Array.mem_replicate.1 hv).2
    rwa [ht] at this
  refine ⟨fun t' ht' => ?_, fun r hr => ?_⟩
  · cases ht.symm.trans ht'
    exact Value.default_admitted h0 t
  · cases t <;> cases hr

end Object.Filled

/-! ## Slots -/

namespace Object.Sized

/-- A new object has a slot for every field. -/
theorem ofClass (c : Class) (payload : Payload) : (Object.ofClass c payload).Sized := by
  simp [Object.Sized, Object.ofClass, Body.slots]

theorem of_same {o' : Object} (hs : o.Sized) (ht : o'.type = o.type) (hb : o'.body = o.body) :
    o'.Sized := by
  rw [Sized, ht, hb]
  exact hs

theorem setElement (hs : o.Sized) (place : Nat) (v : Value) : (o.setElement place v).Sized := by
  unfold Object.setElement Sized
  cases hb : o.body <;> simpa [Sized, hb, Body.slots, Body.setElement] using hs

theorem setElements (hs : o.Sized) (place : Nat) (vs : List Value) :
    (o.setElements place vs).Sized := by
  induction vs generalizing o place with
  | nil => exact hs
  | cons v vs ih => exact ih (hs.setElement place v) (place + 1)

/-- Filling a slot leaves as many as there are. -/
theorem putSlot {o' : Object} {slot : Nat} (hs : o.Sized) (h : o.putSlot slot v = .ok o') :
    o'.Sized := by
  unfold Object.putSlot at h
  split at h
  · cases h
  · next slots hb =>
    split at h
    · cases h
      simpa [Sized, Body.slots, hb] using hs
    · cases h

theorem putField {o' : Object} {key : String} (hs : o.Sized) (h : o.putField key v = .ok o') :
    o'.Sized := by
  obtain ⟨slot, -, h⟩ := except_bind_eq_ok.1 h
  exact hs.putSlot (liftM_eq_ok.1 h)

/-- Objects of a class of arrays have no slots. -/
theorem ofArrayClass (hc : c.IsOfArrays) (length : Nat) :
    (Object.ofArrayClass c length).Sized := by
  obtain ⟨t, ht, -⟩ := hc
  have hnone : c.layout = [] := Class.layout_of_array (by rw [ht]; rfl)
  rw [Sized, Object.ofArrayClass, hnone]
  rfl

end Object.Sized

/-! ## Shapes -/

namespace Object.Shaped

theorem of_same {o' : Object} (hs : o.Shaped) (ht : o'.type = o.type) (hb : o'.body = o.body) :
    o'.Shaped := by
  rw [Shaped, ht, hb]
  exact hs

/-- An array has the right shape. -/
theorem of_elements {values : Array Value} (hb : o.body = .elements values) : o.Shaped := by
  intro slots hs
  cases hb.symm.trans hs

theorem setElement (hs : o.Shaped) (place : Nat) (v : Value) : (o.setElement place v).Shaped := by
  cases hb : o.body with
  | fields slots => exact hs.of_same rfl (by rw [Object.setElement, hb]; rfl)
  | elements values => exact .of_elements (by rw [Object.setElement, hb]; rfl)

theorem setElements (hs : o.Shaped) (place : Nat) (vs : List Value) :
    (o.setElements place vs).Shaped := by
  induction vs generalizing o place with
  | nil => exact hs
  | cons v vs ih => exact ih (hs.setElement place v) (place + 1)

theorem putSlot {o' : Object} {slot : Nat} (hs : o.Shaped) (h : o.putSlot slot v = .ok o') :
    o'.Shaped := by
  unfold Object.putSlot at h
  split at h
  · cases h
  · next slots hb =>
    split at h
    · cases h
      exact fun _ _ => hs slots hb
    · cases h

theorem putField {o' : Object} {key : String} (hs : o.Shaped) (h : o.putField key v = .ok o') :
    o'.Shaped := by
  obtain ⟨slot, -, h⟩ := except_bind_eq_ok.1 h
  exact hs.putSlot (liftM_eq_ok.1 h)

end Object.Shaped

/-! ## Classes of arrays -/

theorem isArrayName_arrayOf (component : String) : isArrayName (arrayOf component) = true := by
  unfold arrayOf isArrayName
  split <;> simp

theorem dimensionsOf_elementName (name : String) :
    dimensionsOf (elementName name) = dimensionsOf name - 1 ∨ dimensionsOf name = 0 := by
  unfold dimensionsOf elementName
  rw [String.toList_ofList]
  cases name.toList with
  | nil => exact .inr rfl
  | cons c cs =>
    by_cases hc : c = '['
    · exact .inl (by simp [hc])
    · exact .inr (by simp [hc])

/-- A name that has dimensions is that of a class of arrays. -/
theorem isArrayName_of_dimensionsOf (h : 0 < dimensionsOf name) : isArrayName name = true := by
  unfold dimensionsOf at h
  unfold isArrayName
  cases hl : name.toList with
  | nil =>
    rw [hl] at h
    cases h
  | cons c cs =>
    by_cases hc : c = '['
    · simp [hc]
    · rw [hl] at h
      simp [hc] at h

/-- The name of a class of arrays is that of its component type after a bracket. -/
theorem toList_of_array {t : FieldType} (hn : FieldType.ofClassName? name = some (.array t)) :
    name.toList = '[' :: t.chars := by
  have ha := isArrayName_of_array hn
  unfold FieldType.ofClassName? at hn
  rw [if_pos ha, FieldType.parse?] at hn
  split at hn
  · next hr =>
    cases hn
    rw [FieldType.read_eq hr, List.append_nil]
    rfl
  · cases hn

namespace Sources.Defines

variable {s : Sources}

theorem isOfArrays (hc : s.Defines name c) (hn : isArrayName name = true) : c.IsOfArrays := by
  cases hc with
  | @array _ component _ _ _ _ _ he =>
    refine ⟨component, rfl, fun hr => he ▸ ?_⟩
    cases component <;> first | rfl | cases hr
  | file hp => exact absurd hn (by simp [hp])

/-- The class of the elements is that of the component type. -/
theorem element_named (hc : s.Defines name c) {t : FieldType} {element : String}
    (hn : FieldType.ofClassName? name = some (.array t)) (ht : t.className? = some element) :
    ∃ e, c.element = some e ∧ e.name = element := by
  cases hc with
  | @array _ component found _ _ _ hname hsome hes =>
    obtain rfl : component = t := by
      rw [hn] at hname
      cases hname
      rfl
    rw [ht] at hsome hes
    obtain ⟨e, rfl⟩ := Option.isSome_iff_exists.1 hsome.symm
    exact ⟨e, rfl, (hes element rfl e rfl).name_eq⟩
  | file hp => exact absurd (isArrayName_of_array hn) (by simp [hp])

/-- A class of no array name is not one of arrays. -/
theorem component_eq_none (hc : s.Defines name c) (hn : isArrayName name = false) :
    c.declared.component = none := by
  cases hc with
  | array ht => cases (isArrayName_of_array ht).symm.trans hn
  | file _ _ _ _ _ _ _ _ _ _ hl =>
    obtain ⟨declared, hd, -, rfl⟩ := Loader.linkClass_ok hl
    exact (ClassFile.linkDeclaration_ok hd).2

/-- Classes of arrays are abstract. -/
theorem isAbstract_of_component (hc : s.Defines name c) {t : FieldType}
    (ht : c.declared.component = some t) : c.isAbstract = true := by
  cases hc with
  | array =>
    show (AccessFlags.ofList [.publicAccess, .final, .abstract]).has .abstract = true
    decide
  | file hp hf hn hs htop hss hsc hi his hic hl =>
    cases ht.symm.trans (component_eq_none (.file hp hf hn hs htop hss hsc hi his hic hl) hp)

/-- Only classes of arrays of references have a class for the elements. -/
theorem isReference (hc : s.Defines name c) {t : FieldType} {e : Class}
    (ht : c.declared.component = some t) (he : c.element = some e) : t.isReference = true := by
  cases hc with
  | array _ hsome =>
    cases ht
    cases he
    cases t <;> first | rfl | cases hsome
  | file _ _ _ _ _ _ _ _ _ _ hl =>
    obtain ⟨declared, -, -, rfl⟩ := Loader.linkClass_ok hl
    cases he

/-- In an array of arrays are those of the class that the name without its first bracket means. -/
theorem element_elementName (hc : s.Defines name c) (hn : isArrayName name = true)
    (he : isArrayName (elementName name) = true) :
    ∃ e, c.element = some e ∧ e.name = elementName name := by
  obtain ⟨t, ht⟩ : ∃ t, FieldType.ofClassName? name = some (.array t) := by
    cases hc with
    | array ht => exact ⟨_, ht⟩
    | file hp => exact absurd hn (by simp [hp])
  have hchars : elementName name = t.text := by
    rw [elementName, toList_of_array ht]
    rfl
  refine hchars ▸ hc.element_named ht ?_
  rw [hchars] at he
  cases t <;> first | rfl | simp [isArrayName, FieldType.text, FieldType.chars] at he

end Sources.Defines

/-! ## Machines -/

namespace Machine

/-- A class of a name of arrays is one of arrays. -/
theorem Filled.isOfArrays (hf : m.Filled bools) (hc : m.loaded.get? name = some c)
    (hn : isArrayName name = true) : c.IsOfArrays := (hf.loaded name c hc).isOfArrays hn

namespace Fills

/-- A new object of a class that is not abstract. -/
theorem ofClass (hc : c.isAbstract = false) : m.Fills (.ofClass c {}) :=
  ⟨fun _ _ _ _ => .of_fields rfl, fun _ => .ofClass c {}, fun _ _ _ => .inr hc⟩

/-- A new object of a class that is loaded under a name that is not one of arrays. -/
theorem ofLoaded (hc : m.loaded.get? name = some c) (hn : isArrayName name = false)
    (payload : Payload) : m.Fills (.ofClass c payload) :=
  ⟨fun _ _ _ _ => .of_fields rfl, fun _ => .ofClass c payload,
    fun hs _ _ => .inl ((hs.loaded name c hc).component_eq_none hn)⟩

/-- An object with the class and the contents of one that is there. -/
theorem of_same {o' : Object} (ho : m.heap.get? r = some o) (ht : o'.type = o.type)
    (hb : o'.body = o.body) : m.Fills o' :=
  ⟨fun _ _ _ hf => (hf.arrays r o ho).of_same ht hb, fun hs => (hs.objects r o ho).of_same ht hb,
    fun hs => (hs.objects r o ho).of_same ht hb⟩

theorem ofArrayClass (hc : m.loaded.get? name = some c) (hn : isArrayName name = true)
    (length : Nat) : m.Fills (.ofArrayClass c length) :=
  ⟨fun _ h0 _ hf => .ofArrayClass h0 (hf.isOfArrays hc hn) length,
    fun hs => .ofArrayClass ((hs.loaded name c hc).isOfArrays hn) length,
    fun _ => .of_elements rfl⟩

end Fills

end Machine

/-! ## Stores -/

theorem ArrayKind.valueKind_of_int {kind : ArrayKind} {i : Int32}
    (h : kind.valueKind.accepts false (.int i) = true) : kind.valueKind = .int := by
  cases kind <;> first | rfl | cases h

theorem ArrayKind.eq_reference {kind : ArrayKind}
    (h : kind.valueKind.accepts false (.ofRef r) = true) : kind = .reference := by
  cases kind <;> first | rfl | cases h

/-- An int is stored as the kind of the array keeps it.  Everything else is stored as it is, if it is
    of the kind of the array, and an object only if the class of the elements allows it. -/
theorem Exec.storable_ok {kind : ArrayKind} {w : Value} {m' : Machine}
    (h : outcome (storable o kind v) m = (.ok w, m')) :
    m' = m ∧ ((kind.valueKind = .int ∧ ∃ i, v = .int i ∧ w = .int (kind.narrowed i)) ∨
      (w = v ∧ kind.valueKind.accepts false v = true ∧ (∀ i, v ≠ .int i) ∧
        ∀ r e, v = .ofRef r → o.type.element = some e →
          ∃ o', m.heap.get? r = some o' ∧ o'.type.isAssignableTo e = true)) := by
  have checked {k : ValueKind} {x : Value} {y : Exec Value} {z : Except Fault Value × Machine}
      (h : outcome (do k.check false x; y : Exec Value) m = z) (hz : ∃ a, z.1 = .ok a) :
      k.accepts false x = true ∧ outcome y m = z := by
    unfold ValueKind.check at h
    split at h
    · next ha => exact ⟨ha, h⟩
    · subst h
      obtain ⟨a, ha⟩ := hz
      cases ha
  unfold storable at h
  split at h
  · next r e he =>
    obtain ⟨k, m₁, hk, hc⟩ := outcome_bind_eq_ok h
    obtain ⟨o', ho', rfl, rfl⟩ := typeOf_ok hk
    split at hc
    · next ha =>
      cases (outcome_pure _ _).symm.trans hc
      refine ⟨rfl, .inr ⟨rfl, rfl, nofun, fun r' e' hr he' => ?_⟩⟩
      cases hr
      cases he.symm.trans he'
      exact ⟨o', ho', ha⟩
    · cases (outcome_throw _ _).symm.trans hc
  · next i =>
    obtain ⟨ha, h⟩ := checked h ⟨_, rfl⟩
    cases (outcome_pure _ _).symm.trans h
    exact ⟨rfl, .inl ⟨ArrayKind.valueKind_of_int ha, i, rfl, rfl⟩⟩
  · next hint hobject =>
    obtain ⟨ha, h⟩ := checked h ⟨_, rfl⟩
    cases (outcome_pure _ _).symm.trans h
    refine ⟨rfl, .inr ⟨rfl, ha, hint, fun r e hv he => ?_⟩⟩
    subst hv
    exact (hobject r e (ArrayKind.eq_reference ha) rfl he).elim

theorem ArrayKind.narrowed_admitted {kind : ArrayKind} {t : FieldType} (h0 : bools 0)
    (h1 : bools 1) (ht : kind.accepts t = true) (hk : kind.valueKind = .int) (i : Int32)
    (hb : kind = .byte → t = .boolean → bools (NarrowKind.byte.apply i)) :
    t.Admits bools (.int (kind.narrowed i)) := by
  have hbit : bools (i &&& 1) ∧ -128 ≤ (i &&& 1).toInt ∧ (i &&& 1).toInt ≤ 127 := by
    rcases Int32.and_one_cases i with h | h <;> rw [h]
    · exact ⟨h0, by decide, by decide⟩
    · exact ⟨h1, by decide, by decide⟩
  cases kind <;> try cases hk
  all_goals cases t <;> try cases ht
  · exact hbit.2
  · exact hbit.1
  · exact NarrowKind.apply_byte_range i
  · exact hb rfl rfl
  · exact NarrowKind.apply_char_range i
  · exact NarrowKind.apply_short_range i
  · trivial

theorem ArrayKind.accepted_admitted {kind : ArrayKind} {t : FieldType}
    (ht : kind.accepts t = true) (ha : kind.valueKind.accepts false v = true)
    (hint : ∀ i, v ≠ .int i) : t.Admits bools v := by
  cases v with
  | int i => exact absurd rfl (hint i)
  | _ =>
    cases kind <;> try cases ha
    all_goals cases t <;> trivial

theorem ArrayKind.accepts_of_check {kind : ArrayKind} {t : FieldType} (hk : kind.check c = .ok ())
    (ht : c.declared.component = some t) : kind.accepts t = true := by
  unfold check at hk
  rw [ht] at hk
  dsimp only at hk
  split at hk
  · assumption
  · cases hk

/-- Whatever an instruction may store in an array, the array may hold; but the instruction for bytes
    must not be one to put another number into an array of booleans. -/
theorem Exec.storable_holds {kind : ArrayKind} {w : Value} {m' : Machine} (h0 : bools 0)
    (h1 : bools 1) (hc : o.type.IsOfArrays) (hk : kind.check o.type = .ok ())
    (h : outcome (storable o kind v) m = (.ok w, m'))
    (hb : kind = .byte → o.type.declared.component = some .boolean →
      ∀ i, v = .int i → bools (NarrowKind.byte.apply i)) :
    o.type.Holds bools m.heap w := by
  obtain ⟨t, ht, he⟩ := hc
  have hkt : kind.accepts t = true := ArrayKind.accepts_of_check hk ht
  obtain ⟨-, ⟨hint, i, rfl, rfl⟩ | ⟨rfl, ha, hint, hobject⟩⟩ := storable_ok h
  · refine ⟨fun t' ht' => ?_, nofun⟩
    cases ht.symm.trans ht'
    exact ArrayKind.narrowed_admitted h0 h1 hkt hint i fun hbyte hbool =>
      hb hbyte (hbool ▸ ht) i rfl
  · refine ⟨fun t' ht' => ?_, fun r hr => ?_⟩
    · cases ht.symm.trans ht'
      exact ArrayKind.accepted_admitted hkt ha hint
    · subst hr
      obtain rfl := ArrayKind.eq_reference ha
      obtain ⟨e, he⟩ := Option.isSome_iff_exists.1 (he hkt)
      obtain ⟨o', ho', hassign⟩ := hobject r e rfl he
      exact ⟨o', e, ho', he, hassign⟩

end GreenVm
