/-
  Quiet work: what the machine does without touching a monitor, the binding of an object to a
  thread, the progress of a class initialization, or what is asked of the scheduler.

  A relation between the machine before and after is `Calm` if it allows each single quiet change,
  and then it allows whatever is made of them: loading classes, making and filling objects and
  arrays, reading and writing fields, printing.  To show that such work respects some property it is
  enough to give an instance.  It need only allow objects of classes that the machine knows, and
  arrays that hold what they may hold.  A relation that allows objects of every class is `Quiet`, and
  one that allows any byte to be put into an array of booleans `StoresBytes`.  `Initializes` does the
  same for changes of the state of a class.  A relation need not be calm to allow what leaves
  everything as it is that is there already: for that it is enough that it is `Creates`.
-/
import GreenVm.Proofs.Elements

namespace GreenVm

/-- The same class, monitor and thread, the same text and the same class represented: objects that
    differ in nothing but their fields or elements, or the buffer or the stream that they hold. -/
structure Object.Alike (o o' : Object) : Prop where
  type_eq : o'.type = o.type
  monitor_eq : o'.monitor = o.monitor
  text_eq : o'.payload.text = o.payload.text
  represents_eq : o'.payload.represents = o.payload.represents
  thread_eq : o'.payload.thread = o.payload.thread
  started_eq : o'.payload.started = o.payload.started

/-- An object that no thread has touched and that stands for no thread. -/
structure Object.Untouched (o : Object) : Prop where
  monitor_eq : o.monitor = {}
  thread_eq : o.payload.thread = none
  started_eq : o.payload.started = false

theorem Object.putSlot_alike {o o' : Object} {slot : Nat} {v : Value}
    (h : o.putSlot slot v = .ok o') : o.Alike o' := by
  unfold putSlot at h
  split at h
  · cases h
  · split at h
    · cases h; exact ⟨rfl, rfl, rfl, rfl, rfl, rfl⟩
    · cases h

theorem Object.putField_alike {o o' : Object} {key : String} {v : Value}
    (h : o.putField key v = .ok o') : o.Alike o' := by
  obtain ⟨slot, -, h⟩ := except_bind_eq_ok.1 h
  exact putSlot_alike (liftM_eq_ok.1 h)

/-- What takes a field is no array. -/
theorem Object.putSlot_fields {o o' : Object} {slot : Nat} {v : Value}
    (h : o.putSlot slot v = .ok o') : ∃ slots, o'.body = .fields slots := by
  unfold putSlot at h
  split at h
  · cases h
  · split at h
    · cases h; exact ⟨_, rfl⟩
    · cases h

theorem Object.putField_fields {o o' : Object} {key : String} {v : Value}
    (h : o.putField key v = .ok o') : ∃ slots, o'.body = .fields slots := by
  obtain ⟨slot, -, h⟩ := except_bind_eq_ok.1 h
  exact putSlot_fields (liftM_eq_ok.1 h)

/-- The machine knows a class: it is loaded, or the class of an object. -/
def Machine.Knows (m : Machine) (c : Class) : Prop :=
  (∃ name, m.loaded.get? name = some c) ∨ ∃ r o, m.heap.get? r = some o ∧ o.type = c

/-- A relation that allows classes to be loaded and new objects of known classes to be made, among
    them the one string of a text and the one object of a class. -/
class Creates (R : Machine → Machine → Prop) : Prop extends Std.Refl R, IsTrans Machine R where
  load : ∀ m name, R m (outcome (Exec.loadClass name) m).2
  allocate : ∀ m o, m.Knows o.type → o.Untouched → m.Fills o →
    R m { m with heap := (m.heap.allocate o).2 }
  intern : ∀ m o text, m.Knows o.type → o.Untouched → m.Fills o → o.payload.text = some text →
    m.interned.get? text = none → R m { m with
      heap := (m.heap.allocate o).2, interned := m.interned.put text (m.heap.allocate o).1 }
  classObject : ∀ m o c, m.Knows o.type → o.Untouched → m.Fills o →
    o.payload.represents = some c → m.classObjects.get? c.name = none → R m { m with
      heap := (m.heap.allocate o).2,
      classObjects := m.classObjects.put c.name (m.heap.allocate o).1 }

/-- A relation that allows quiet work with known classes. -/
class Calm (R : Machine → Machine → Prop) : Prop extends Creates R where
  setStatics : ∀ m c statics,
    R m { m with classStates := m.classStates.put c.name { Exec.stateOf m c with statics } }
  update : ∀ m r f, (∀ o, m.heap.get? r = some o → o.Alike (f o)) →
    (∀ o, m.heap.get? r = some o → m.Fills (f o)) → R m { m with heap := m.heap.update r f }
  print : ∀ m out err, R m { m with out, err }

/-- A relation that allows quiet work. -/
class Quiet (R : Machine → Machine → Prop) : Prop extends Calm R where
  create : ∀ m o, o.Untouched → m.Fills o → R m { m with heap := (m.heap.allocate o).2 }
  allocate m o _ h hf := create m o h hf

/-- A relation that allows any byte to be put into any array of bytes or booleans. -/
class StoresBytes (R : Machine → Machine → Prop) : Prop where
  storeByte : ∀ m r o place v, m.heap.get? r = some o → ArrayKind.byte.check o.type = .ok () →
    R m { m with heap := m.heap.update r (·.setElement place (.int (NarrowKind.byte.apply v))) }

/-- A relation that allows more allows quiet work, too. -/
theorem Calm.mono {R R' : Machine → Machine → Prop} [Calm R] [Std.Refl R'] [IsTrans Machine R']
    (h : ∀ m m', R m m' → R' m m') : Calm R' where
  load m name := h _ _ (Creates.load m name)
  setStatics m c statics := h _ _ (Calm.setStatics m c statics)
  allocate m o hk ho hf := h _ _ (Creates.allocate m o hk ho hf)
  update m r f ha hf := h _ _ (Calm.update m r f ha hf)
  intern m o text hk ho hf ht hn := h _ _ (Creates.intern m o text hk ho hf ht hn)
  classObject m o c hk ho hf hc hn := h _ _ (Creates.classObject m o c hk ho hf hc hn)
  print m out err := h _ _ (Calm.print m out err)

theorem Quiet.mono {R R' : Machine → Machine → Prop} [Quiet R] [Std.Refl R'] [IsTrans Machine R']
    (h : ∀ m m', R m m' → R' m m') : Quiet R' where
  toCalm := .mono h
  create m o ho hf := h _ _ (Quiet.create m o ho hf)

theorem StoresBytes.mono {R R' : Machine → Machine → Prop} [StoresBytes R]
    (h : ∀ m m', R m m' → R' m m') : StoresBytes R' where
  storeByte m r o place v ho hk := h _ _ (StoresBytes.storeByte m r o place v ho hk)

/-- A relation that allows the state of a class to change. -/
class Initializes (R : Machine → Machine → Prop) : Prop where
  setInit : ∀ m c init, R m (outcome (Exec.setInit c init) m).2

/-- Objects keep their classes. -/
def KeepsTypes (m m' : Machine) : Prop :=
  ∀ r o, m.heap.get? r = some o → ∃ o', m'.heap.get? r = some o' ∧ o'.type = o.type

namespace KeepsTypes

theorem of_heap {m m' : Machine} (h : m'.heap = m.heap) : KeepsTypes m m' :=
  fun _ o ho => ⟨o, h.symm ▸ ho, rfl⟩

theorem update {m : Machine} {r : Ref} {f : Object → Object}
    (hf : ∀ o, m.heap.get? r = some o → (f o).type = o.type) :
    KeepsTypes m { m with heap := m.heap.update r f } := by
  intro r' o ho
  by_cases hr : r = r'
  · subst hr
    exact ⟨f o, Heap.get?_update_self ho, hf o ho⟩
  · exact ⟨o, (Heap.get?_update_of_ne hr).trans ho, rfl⟩

theorem allocate (m : Machine) (o : Object) :
    KeepsTypes m { m with heap := (m.heap.allocate o).2 } :=
  fun _ o' h => ⟨o', Heap.get?_allocate_of_get? h, rfl⟩

instance : Quiet KeepsTypes where
  refl _ _ o h := ⟨o, h, rfl⟩
  trans _ _ _ h h' r o ho := by
    obtain ⟨o', ho', e⟩ := h r o ho
    obtain ⟨o'', ho'', e'⟩ := h' r o' ho'
    exact ⟨o'', ho'', e'.trans e⟩
  load _ _ := .of_heap rfl
  setStatics _ _ _ := .of_heap rfl
  create m o _ _ := .allocate m o
  update _ _ _ ha _ := .update fun o ho => (ha o ho).type_eq
  intern m o _ _ _ _ _ _ := .allocate m o
  classObject m o _ _ _ _ _ _ := .allocate m o
  print _ _ _ := .of_heap rfl

end KeepsTypes

theorem Exec.loadClass_grows (m : Machine) (name : String) :
    Loaded.Grows (sources m) [] m.loaded (outcome (loadClass name) m).2.loaded := by
  have loaded := Loader.load_comes (sources m) [] name m.loaded m.loaded rfl
  show Loaded.Grows (sources m) [] m.loaded (outcome (Loader.load (sources m) [] name) m.loaded).2
  split at loaded <;> next e => rw [e]; first | exact loaded | exact loaded.1

/-- Names keep their classes, and so do objects. -/
structure KeepsClasses (m m' : Machine) : Prop where
  loaded : ∀ name c, m.loaded.get? name = some c → m'.loaded.get? name = some c
  types : KeepsTypes m m'

namespace KeepsClasses

theorem of_loaded {m m' : Machine} (h : KeepsTypes m m') (hl : m'.loaded = m.loaded) :
    KeepsClasses m m' := ⟨fun _ _ hc => hl.symm ▸ hc, h⟩

instance : Quiet KeepsClasses where
  refl m := .of_loaded (refl_of KeepsTypes m) rfl
  trans _ _ _ h h' := ⟨fun name c hc => h'.loaded name c (h.loaded name c hc),
    trans_of KeepsTypes h.types h'.types⟩
  load m name := ⟨(Exec.loadClass_grows m name).kept, Creates.load m name⟩
  setStatics m c statics := .of_loaded (Calm.setStatics m c statics) rfl
  create m o ho hf := .of_loaded (Quiet.create m o ho hf) rfl
  update m r f ha hf := .of_loaded (Calm.update m r f ha hf) rfl
  intern m o text hk ho hf ht hn := .of_loaded (Creates.intern m o text hk ho hf ht hn) rfl
  classObject m o c hk ho hf hc hn := .of_loaded (Creates.classObject m o c hk ho hf hc hn) rfl
  print m out err := .of_loaded (Calm.print m out err) rfl

end KeepsClasses

/-- The object is of the class of a name. -/
def Machine.IsOf (m : Machine) (r : Ref) (name : String) : Prop :=
  ∃ o, m.heap.get? r = some o ∧ m.loaded.get? name = some o.type

theorem Machine.IsOf.keeps {m m' : Machine} {r : Ref} {name : String} (h : m.IsOf r name)
    (hk : KeepsClasses m m') : m'.IsOf r name := by
  obtain ⟨o, ho, hl⟩ := h
  obtain ⟨o', ho', ht⟩ := hk.types r o ho
  exact ⟨o', ho', ht.symm ▸ hk.loaded name o.type hl⟩

/-- An array of references may hold the objects of the class of its elements. -/
theorem Machine.IsOf.holds {m : Machine} {r : Ref} {o : Object} {name element : String}
    {bools : Int32 → Prop} (hr : m.IsOf r element) (hf : m.Filled bools)
    (ho : m.loaded.get? name = some o.type)
    (hn : ∀ s c, Sources.Defines s name c → ∃ e, c.element = some e ∧ e.name = element) :
    o.type.Holds bools m.heap (.ofRef r) := by
  have hdefined := hf.loaded name o.type ho
  obtain ⟨o', ho', hl⟩ := hr
  obtain ⟨e, he, hname⟩ := hn _ _ hdefined
  refine ⟨fun t ht => FieldType.admits_reference (hdefined.isReference ht he) _, fun r' hr' => ?_⟩
  cases hr'
  refine ⟨o', e, ho', he, Class.assignable_of_name ?_⟩
  rw [(hf.loaded element o'.type hl).name_eq, hname]

namespace Exec

variable {R : Machine → Machine → Prop} {α : Type}

theorem get_within [Std.Refl R] : Within R (get : Exec Machine) := fun m => refl_of R m

/-- Work that begins by reading the machine. -/
theorem read_within [Std.Refl R] [IsTrans Machine R] {f : Machine → Exec α}
    (h : ∀ m, Within R (f m)) : Within R ((get : Exec Machine) >>= f) := get_within.bind h

theorem attempt_within {x : Exec α} (h : Within R x) : Within R (attempt x) := h

variable [Creates R]

/-! ## Classes -/

theorem loadClass_within {name : String} : Within R (loadClass name) := fun m => Creates.load m name

/-- What has been loaded is loaded. -/
theorem loadClass_entered {name : String} {c : Class} {m m' : Machine}
    (h : outcome (loadClass name) m = (.ok c, m')) : m'.loaded.get? name = some c := by
  have loaded := Loader.load_comes (sources m) [] name m.loaded m.loaded rfl
  have h₁ : (outcome (Loader.load (sources m) [] name) m.loaded).1 = .ok c := congrArg Prod.fst h
  have h₂ : { m with loaded := (outcome (Loader.load (sources m) [] name) m.loaded).2 } = m' :=
    congrArg Prod.snd h
  subst h₂
  split at loaded
  · next d l e =>
    rw [e] at h₁ ⊢
    cases h₁
    exact loaded.2
  · next e' l e =>
    rw [e] at h₁
    cases h₁

/-- Work with a class that has just been loaded. -/
theorem loadClass_bind_within {name : String} {f : Class → Exec α}
    (h : ∀ m c, m.loaded.get? name = some c → R m (outcome (f c) m).2) :
    Within R (loadClass name >>= f) :=
  loadClass_within.bind_of fun _ c m' e => h m' c (loadClass_entered e)

theorem classState_within {c : Class} : Within R (classState c) :=
  read_within fun _ => .pure _

theorem getStatic_within {c : Class} {index : Nat} : Within R (getStatic c index) :=
  classState_within.bind fun _ => .pure _

/-! ## Objects -/

theorem object_within {r : Ref} : Within R (object r) := by
  refine read_within fun m => ?_
  split
  · exact .pure _
  · exact .throw _

theorem typeOf_within {r : Ref} : Within R (typeOf r) := object_within.bind fun _ => .pure _

theorem getField_within {r : Ref} {key : String} : Within R (getField r key) :=
  .bind object_within fun _ => .liftExcept _

omit [Creates R] in
/-- A store in an array that is there sets an element or does nothing. -/
theorem arrayStore_of [Std.Refl R] {r : Ref} {o : Object} {index : Int32} {v : Value} {m : Machine}
    (ho : m.heap.get? r = some o)
    (h : ∀ place, R m { m with heap := m.heap.update r (·.setElement place v) }) :
    R m (outcome (arrayStore r index v) m).2 := by
  rw [arrayStore, outcome_bind_ok (outcome_object ho)]
  rcases hp : o.elementPlace index with e | place
  · rw [outcome_bind_error (outcome_liftExcept _ _)]
    exact refl_of R m
  · rw [outcome_bind_ok (outcome_liftExcept _ _)]
    exact h place

/-! ## Allocation -/

theorem instantiate_within {R : Machine → Machine → Prop} [Quiet R] {c : Class} :
    Within R (instantiate c) := by
  unfold instantiate
  split
  · exact .throw _
  · next hc =>
    have hc : c.isAbstract = false := (Bool.or_eq_false_iff.1 (Bool.eq_false_iff.2 hc)).2
    exact fun m => Quiet.create m _ ⟨rfl, rfl, rfl⟩ (.ofClass hc)

theorem instantiate_known {c : Class} {m : Machine} (h : m.Knows c) :
    R m (outcome (instantiate c) m).2 := by
  unfold instantiate
  split
  · exact Within.throw _ m
  · next hc =>
    have hc : c.isAbstract = false := (Bool.or_eq_false_iff.1 (Bool.eq_false_iff.2 hc)).2
    exact Creates.allocate m _ h ⟨rfl, rfl, rfl⟩ (.ofClass hc)

theorem instantiateArray_loaded {name : String} {c : Class} {length : Int32} {m : Machine}
    (h : m.loaded.get? name = some c) (hn : isArrayName name = true) :
    R m (outcome (instantiateArray c length) m).2 := by
  unfold instantiateArray
  split
  · exact Within.throw _ m
  · exact Creates.allocate m _ (.inl ⟨_, h⟩) ⟨rfl, rfl, rfl⟩ (.ofArrayClass h hn _)

theorem newObject_within {className : String} : Within R (newObject className) :=
  loadClass_bind_within fun _ _ h => instantiate_known (.inl ⟨_, h⟩)

theorem newArray_within {className : String} {length : Int32}
    (hn : isArrayName className = true) : Within R (newArray className length) :=
  loadClass_bind_within fun _ _ h => instantiateArray_loaded h hn

omit [Creates R] in
/-- A new array is of the class of its name. -/
theorem newArray_isOf {name : String} {length : Int32} {m m' : Machine} {r : Ref}
    (h : outcome (newArray name length) m = (.ok r, m')) : m'.IsOf r name := by
  obtain ⟨c, m₁, hc, ha⟩ := outcome_bind_eq_ok h
  have hl := loadClass_entered hc
  unfold instantiateArray at ha
  split at ha
  · cases (outcome_throw _ _).symm.trans ha
  · cases ha
    exact ⟨.ofArrayClass c length.toInt.toNat, Heap.get?_allocate.trans (if_pos rfl), hl⟩

theorem cloneObject_within {r : Ref} : Within R (cloneObject r) := by
  intro m
  rw [cloneObject]
  rcases object_cases r m with ⟨-, e⟩ | ⟨o, ho, e⟩
  · rw [outcome_bind_error e]
    exact refl_of R m
  · rw [outcome_bind_ok e]
    exact Creates.allocate m o.duplicate (.inr ⟨r, o, ho, rfl⟩) ⟨rfl, rfl, rfl⟩ (.of_same ho rfl rfl)

theorem newString_within {text : String} : Within R (newString text) :=
  loadClass_bind_within fun m _ h =>
    Creates.allocate m _ (.inl ⟨_, h⟩) ⟨rfl, rfl, rfl⟩ (.ofLoaded h (by decide) _)

omit [Creates R] in
theorem newString_isOf {text : String} {m m' : Machine} {r : Ref}
    (h : outcome (newString text) m = (.ok r, m')) : m'.IsOf r ClassName.string := by
  obtain ⟨c, m₁, hc, ha⟩ := outcome_bind_eq_ok h
  have hl := loadClass_entered hc
  cases ha
  exact ⟨.ofClass c { text := some text }, Heap.get?_allocate.trans (if_pos rfl), hl⟩

theorem intern_within {text : String} : Within R (intern text) := by
  refine loadClass_bind_within fun m c h => ?_
  rw [outcome_bind_ok (outcome_get m)]
  cases hi : m.interned.get? text with
  | some r => exact Within.pure r m
  | none =>
    exact Creates.intern m (.ofClass c { text := some text }) text (.inl ⟨_, h⟩) ⟨rfl, rfl, rfl⟩
      (.ofLoaded h (by decide) _) rfl hi

theorem classObject_within {c : Class} : Within R (classObject c) := by
  refine loadClass_bind_within fun m k h => ?_
  rw [outcome_bind_ok (outcome_get m)]
  cases hc : m.classObjects.get? c.name with
  | some r => exact Within.pure r m
  | none =>
    exact Creates.classObject m (.ofClass k { represents := some c }) c (.inl ⟨_, h⟩)
      ⟨rfl, rfl, rfl⟩ (.ofLoaded h (by decide) _) rfl hc

theorem textOf_within {r : Ref} : Within R (textOf r) := by
  refine .bind object_within fun _ => ?_
  split
  · exact .pure _
  · exact .throw _

end Exec

/-! ## Changes of what is there -/

namespace Exec

variable {R : Machine → Machine → Prop} {α : Type} [Calm R]

theorem setStatic_within {c : Class} {index : Nat} {v : Value} :
    Within R (setStatic c index v) := fun m => Calm.setStatics m c _

theorem putStaticByKey_within {c : Class} {key : String} {v : Value} :
    Within R (putStaticByKey c key v) := by
  unfold putStaticByKey
  split
  · exact .pure _
  · exact .bind setStatic_within fun _ => .pure _

/-- Changing what is attached to an object. -/
theorem updateObject_within {r : Ref} {f : Object → Object} (h : ∀ o : Object, o.Alike (f o))
    (hb : ∀ o, (f o).body = o.body) : Within R (updateObject r f) :=
  fun m => Calm.update m r f (fun o _ => h o) fun o ho => .of_same ho (h o).type_eq (hb o)

/-- Replacing an object by one like it that was made from it and is no array. -/
theorem setObject_within {r : Ref} {f : Object → Except Fault Object}
    (h : ∀ o o', f o = .ok o' → o.Alike o')
    (hb : ∀ o o', f o = .ok o' → ∃ slots, o'.body = .fields slots)
    (hs : ∀ o o', f o = .ok o' → (o.Sized → o'.Sized) ∧ (o.Shaped → o'.Shaped)) :
    Within R (do setObject r (← f (← object r)) : Exec Unit) := by
  intro m
  rcases object_cases r m with ⟨-, e⟩ | ⟨o, ho, e⟩
  · rw [outcome_bind_error e]; exact refl_of R m
  · rw [outcome_bind_ok e]
    rcases hf : f o with _ | o'
    · rw [outcome_bind_error (outcome_liftExcept _ _)]; exact refl_of R m
    · rw [outcome_bind_ok (outcome_liftExcept _ _)]
      refine Calm.update m r _ (fun o₁ ho₁ => ?_) fun o₁ ho₁ => ?_
      · cases ho.symm.trans ho₁
        exact h o o' hf
      · obtain ⟨slots, hslots⟩ := hb o o' hf
        exact ⟨fun _ _ _ _ => .of_fields hslots, fun hm => (hs o o' hf).1 (hm.objects r o ho),
          fun hm => (hs o o' hf).2 (hm.objects r o ho)⟩

theorem updatePayload_within {r : Ref} {f : Payload → Payload}
    (h : ∀ o : Object, o.Alike { o with payload := f o.payload }) :
    Within R (updatePayload r f) :=
  .bind (.discard object_within) fun _ => updateObject_within h fun _ => rfl

theorem putField_within {r : Ref} {key : String} {v : Value} : Within R (putField r key v) :=
  setObject_within (fun _ _ => Object.putField_alike) (fun _ _ => Object.putField_fields)
    fun _ _ h => ⟨fun hs => hs.putField h, fun hs => hs.putField h⟩

/-- A store of what the array may hold. -/
theorem arrayStore_held {r : Ref} {o : Object} {index : Int32} {v : Value} {m : Machine}
    (ho : m.heap.get? r = some o) (hv : ∀ bools : Int32 → Prop, bools 0 → bools 1 →
      m.Filled bools → o.type.Holds bools m.heap v) :
    R m (outcome (arrayStore r index v) m).2 := by
  refine arrayStore_of ho fun place => Calm.update m r _ (fun _ _ => ⟨rfl, rfl, rfl, rfl, rfl, rfl⟩)
    fun o' ho' => ?_
  cases ho.symm.trans ho'
  exact ⟨fun bools h0 h1 hf => (hf.arrays r o ho).setElement (fun _ => hv bools h0 h1 hf) place,
    fun hs => (hs.objects r o ho).setElement place v,
    fun hs => (hs.objects r o ho).setElement place v⟩

/-- Storing a new object, of the class of its elements, in an array. -/
theorem storeNew_within {make : Exec Ref} {index : Int32} {array : Ref} {name element : String}
    {m : Machine} (hm : Within R make) (hk : Within KeepsClasses make)
    (hi : ∀ m r m', outcome make m = (.ok r, m') → m'.IsOf r element)
    (hn : ∀ s c, Sources.Defines s name c → ∃ e, c.element = some e ∧ e.name = element)
    (ha : m.IsOf array name) :
    R m (outcome (do let r ← make; arrayStore array index (.ofRef r)) m).2 := by
  refine Within.bind_at (hm m) fun r m₁ hr => ?_
  obtain ⟨o, ho, hl⟩ := ha.keeps (hk.of_eq hr)
  exact arrayStore_held ho fun _ _ _ hf => (hi m r m₁ hr).holds hf hl hn

theorem storeAll_within {γ : Type} {make : γ → Exec Ref} {index : γ → Int32} {array : Ref}
    {name element : String} (hm : ∀ c, Within R (make c)) (hk : ∀ c, Within KeepsClasses (make c))
    (hi : ∀ c m r m', outcome (make c) m = (.ok r, m') → m'.IsOf r element)
    (hn : ∀ s c, Sources.Defines s name c → ∃ e, c.element = some e ∧ e.name = element) :
    ∀ {l : List γ} {m : Machine}, m.IsOf array name → R m (outcome (l.forM fun c => do
      let r ← make c
      arrayStore array (index c) (.ofRef r)) m).2
  | [], m, _ => Within.pure _ m
  | c :: l, m, ha => by
    rw [List.forM]
    refine Within.bind_at (storeNew_within (hm c) (hk c) (hi c) hn ha) fun _ m₁ h => ?_
    have kept : KeepsClasses m
        (outcome (do let r ← make c; arrayStore array (index c) (.ofRef r)) m).2 :=
      storeNew_within (hk c) (hk c) (hi c) hn ha
    rw [h] at kept
    exact storeAll_within hm hk hi hn (ha.keeps kept)

theorem print_within {stream : Stream} {text : String} : Within R (print stream text) := by
  intro m
  simp only [print, outcome_modify]
  split
  · cases stream
    · exact Calm.print m _ m.err
    · exact Calm.print m m.out _
  · exact refl_of R m

/-! ## Throwables -/

theorem newThrowable_within {className : String} {message : Option String} {cause : Option Ref} :
    Within R (newThrowable className message cause) := by
  refine .bind newObject_within fun r => ?_
  cases message with
  | none => exact .bind putField_within fun _ => .pure _
  | some text =>
    exact .bind newString_within fun _ => .bind putField_within fun _ =>
      .bind putField_within fun _ => .pure _

theorem outcome_raiseNew (className : String) (message : Option String) (cause : Option Ref)
    (m : Machine) :
    outcome (raiseNew className message cause) m =
      match outcome (newThrowable className message cause) m with
      | (.ok r, m') => (.ok r, m')
      | (.error f, m') => (.error (.fatal (.materialize className (f.text m'.heap))), m') := rfl

theorem raiseNew_of {R : Machine → Machine → Prop} {className : String} {message : Option String}
    {cause : Option Ref} (h : Within R (newThrowable className message cause)) :
    Within R (raiseNew className message cause) := by
  intro m
  have h := h m
  rw [outcome_raiseNew]
  split <;> next e => rw [e] at h; exact h

theorem materialize_of {R : Machine → Machine → Prop} [Std.Refl R]
    (h : ∀ {className message}, Within R (newThrowable className message none)) {t : Throwable} :
    Within R (materialize t) := by
  cases t with
  | object r => exact .pure _
  | symbolic name message => exact raiseNew_of h

theorem initializerFailure_of {R : Machine → Machine → Prop} [Creates R] {r : Ref}
    (h : ∀ {className message cause}, Within R (newThrowable className message cause)) :
    Within R (initializerFailure r) := by
  refine .bind typeOf_within fun _ => ?_
  split
  · exact .pure _
  · exact raiseNew_of h

theorem materialize_within {t : Throwable} : Within R (materialize t) :=
  materialize_of newThrowable_within

theorem initializerFailure_within {r : Ref} : Within R (initializerFailure r) :=
  initializerFailure_of newThrowable_within

end Exec

end GreenVm
