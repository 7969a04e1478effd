/-
  Every class that turns up in a running machine is the one its name means.

  * `Machine.Defines m c`: the class is what its name means to the machine.
  * `Machine.Grounded m`: the classes that are loaded, the classes of all objects, and those of the
    methods that new threads start at are defined.
  * `Retains`: a relation between machines, of work that keeps this up, and changes neither the
    definitions nor the class of any object.
-/
import GreenVm.Proofs.Ancestry
import GreenVm.Proofs.Quiet.Natives

namespace GreenVm

open Exec

/-! ## More natives -/

/-- At least the same class files and natives, and no more refused. -/
structure Sources.Extends (s s' : Sources) : Prop where
  find : ∀ name file, s.find? name = some file → s'.find? name = some file
  eager : s'.eager = true → s.eager = true
  natives : ∀ key, s.natives.table.contains key = true → s'.natives.table.contains key = true

/-- No native method of a declaration is without a native. -/
theorem ClassFile.checkNatives_eq_ok {n : Natives} {d : Declaration} :
    ClassFile.checkNatives n d = .ok () ↔
      ∀ m ∈ d.methods, m.isNative = true → n.contains d.name m.name m.descriptor = true := by
  have provided (m : Method) : (if m.isNative && !n.contains d.name m.name m.descriptor then
      throw (.nativeMissing d.name m.name m.descriptor) else return () : Except Fault Unit) =
        .ok () ↔ (m.isNative = true → n.contains d.name m.name m.descriptor = true) := by
    cases m.isNative <;> cases n.contains d.name m.name m.descriptor <;>
      simp [pure, Except.pure, throw, throwThe, MonadExceptOf.throw]
  unfold ClassFile.checkNatives
  induction d.methods with
  | nil => exact iff_of_true rfl nofun
  | cons m ms ih =>
    rw [List.forall_mem_cons]
    refine Iff.trans ⟨?_, ?_⟩ (and_congr (provided m) ih)
    · intro h
      obtain ⟨_, hm, hms⟩ := except_bind_eq_ok.1 h
      exact ⟨hm, hms⟩
    · rintro ⟨hm, hms⟩
      exact except_bind_eq_ok.2 ⟨(), hm, hms⟩

theorem ClassFile.checkNatives_mono {n n' : Natives}
    (h : ∀ key, n.table.contains key = true → n'.table.contains key = true) {d : Declaration}
    (hd : ClassFile.checkNatives n d = .ok ()) : ClassFile.checkNatives n' d = .ok () :=
  checkNatives_eq_ok.2 fun m hm hn => h _ (checkNatives_eq_ok.1 hd m hm hn)

namespace Sources

variable {s s' : Sources} {name : String} {c : Class}

theorem Extends.linkClass (h : s.Extends s') {file : ClassFile} {superClass : Option Class}
    {interfaces : List Class} (hl : Loader.linkClass s file superClass interfaces = .ok c) :
    Loader.linkClass s' file superClass interfaces = .ok c := by
  obtain ⟨declared, hd, hn, rfl⟩ := Loader.linkClass_ok hl
  refine except_bind_eq_ok.2 ⟨declared, hd, ?_⟩
  by_cases he : s'.eager = true
  · rw [if_pos he]
    exact except_bind_eq_ok.2 ⟨(), ClassFile.checkNatives_mono h.natives
      (hn (h.eager he)), rfl⟩
  · rw [if_neg he]
    rfl

/-- Sources define the classes of others if they have the class files of these and link them, too. -/
theorem Defines.mono (hc : s.Defines name c)
    (hfind : ∀ name file, s.find? name = some file → s'.find? name = some file)
    (hlink : ∀ name file superClass interfaces c, s.find? name = some file →
      Loader.linkClass s file superClass interfaces = .ok c →
        Loader.linkClass s' file superClass interfaces = .ok c) : s'.Defines name c := by
  induction hc with
  | array ht he _ _ _ _ ihes iho ihc ihs => exact .array ht he ihes iho ihc ihs
  | file hp hf hn hs htop _ hsc hi _ hic hl ihss ihis =>
    exact .file hp (hfind _ _ hf) hn hs htop ihss hsc hi ihis hic (hlink _ _ _ _ _ hf hl)

/-- More sources define no fewer classes, and none otherwise. -/
theorem Extends.defines (h : s.Extends s') (hc : s.Defines name c) : s'.Defines name c :=
  hc.mono h.find fun _ _ _ _ _ _ => h.linkClass

end Sources

/-! ## Grounded machines -/

namespace Machine

/-- The class is what its name means to the machine. -/
def Defines (m : Machine) (c : Class) : Prop := (sources m).Defines c.name c

/-- The thread has not run, and the class in which it is to start is defined. -/
def Starts (m : Machine) (t : Thread) : Prop :=
  ∃ r args, t = .starting t.id t.name r args ∧ m.Defines r.owner

/-- Every class in the machine is defined. -/
structure Grounded (m : Machine) : Prop where
  loaded : m.loaded.Sound (sources m)
  types : ∀ r o, m.heap.get? r = some o → m.Defines o.type
  started : ∀ t ∈ m.requests.spawned, m.Starts t

variable {m : Machine} {c d : Class}

theorem ascends_defines (m : Machine) : Class.Ascends m.Defines where
  superClass _ _ h hd := Sources.Defines.superClass h hd
  interface _ _ h hd := Sources.Defines.interface h hd

theorem Defines.unique (hc : m.Defines c) (hd : m.Defines d) (h : c.name = d.name) : c = d :=
  Sources.Defines.unique (h ▸ hc) hd

theorem Grounded.of_loaded (h : m.Grounded) {name : String} (hc : m.loaded.get? name = some c) :
    m.Defines c := by
  have hd := h.loaded name c hc
  rw [Machine.Defines, hd.name_eq]
  exact hd

theorem Grounded.knows (h : m.Grounded) (hc : m.Knows c) : m.Defines c := by
  rcases hc with ⟨name, hc⟩ | ⟨r, o, ho, rfl⟩
  · exact h.of_loaded hc
  · exact h.types r o ho

end Machine

/-! ## What stays -/

/-- Nothing becomes undefined or defined otherwise, and objects keep their classes. -/
structure Retains (m m' : Machine) : Prop where
  config_eq : m'.config = m.config
  classPath_eq : m'.classPath = m.classPath
  natives : ∀ key, m.natives.table.contains key = true → m'.natives.table.contains key = true
  types : KeepsTypes m m'
  classObjects : ∀ name r, m.classObjects.get? name = some r →
    m'.classObjects.get? name = some r
  grounded : m.Grounded → m'.Grounded

namespace Retains

variable {m m' m'' : Machine} {c : Class}

theorem sources_extends (h : Retains m m') : (sources m).Extends (sources m') where
  find name file hf := by
    rw [Sources.find?, sources, h.classPath_eq]
    exact hf
  eager he := by
    rw [sources, h.config_eq] at he
    exact he
  natives := h.natives

theorem defines (h : Retains m m') (hc : m.Defines c) : m'.Defines c :=
  h.sources_extends.defines hc

theorem refl (m : Machine) : Retains m m :=
  ⟨rfl, rfl, fun _ h => h, fun _ o h => ⟨o, h, rfl⟩, fun _ _ h => h, id⟩

theorem trans (h : Retains m m') (h' : Retains m' m'') : Retains m m'' where
  config_eq := h'.config_eq.trans h.config_eq
  classPath_eq := h'.classPath_eq.trans h.classPath_eq
  natives key hk := h'.natives key (h.natives key hk)
  types := trans_of KeepsTypes h.types h'.types
  classObjects name r hr := h'.classObjects name r (h.classObjects name r hr)
  grounded := h'.grounded ∘ h.grounded

/-- Changes of what has to do with neither definitions nor objects. -/
theorem of_same (hs : sources m' = sources m) (hc : m'.config = m.config)
    (hl : m'.loaded = m.loaded) (hh : m'.heap = m.heap) (ho : m'.classObjects = m.classObjects)
    (hq : m'.requests.spawned = m.requests.spawned) : Retains m m' where
  config_eq := hc
  classPath_eq := congrArg Sources.classPath hs
  natives key hk := by
    have : m'.natives = m.natives := congrArg Sources.natives hs
    exact this.symm ▸ hk
  types r o h := ⟨o, hh.symm ▸ h, rfl⟩
  classObjects name r h := ho.symm ▸ h
  grounded h := by
    refine ⟨?_, ?_, ?_⟩
    · rw [hs, hl]
      exact h.loaded
    · rw [hh]
      intro r o hr
      rw [Machine.Defines, hs]
      exact h.types r o hr
    · rw [hq]
      intro t ht
      obtain ⟨r, args, e, hr⟩ := h.started t ht
      refine ⟨r, args, e, ?_⟩
      rw [Machine.Defines, hs]
      exact hr

/-- Changing objects, but not their classes. -/
theorem update {r : Ref} {f : Object → Object}
    (hf : ∀ o, m.heap.get? r = some o → (f o).type = o.type) :
    Retains m { m with heap := m.heap.update r f } where
  config_eq := rfl
  classPath_eq := rfl
  natives _ h := h
  types := .update hf
  classObjects _ _ h := h
  grounded h := by
    refine ⟨h.loaded, fun r' o' ho' => ?_, h.started⟩
    rw [Heap.get?_update] at ho'
    split at ho'
    · next hr =>
      obtain ⟨o, ho, rfl⟩ := Option.map_eq_some_iff.1 ho'
      have := h.types r' o ho
      rw [← hf o (hr ▸ ho)] at this
      exact this
    · exact h.types r' o' ho'

/-- A new object of a defined class. -/
theorem allocate {o : Object} (ho : m.Grounded → m.Defines o.type) :
    Retains m { m with heap := (m.heap.allocate o).2 } where
  config_eq := rfl
  classPath_eq := rfl
  natives _ h := h
  types _ o' h := ⟨o', Heap.get?_allocate_of_get? h, rfl⟩
  classObjects _ _ h := h
  grounded h := by
    refine ⟨h.loaded, fun r o' h' => ?_, h.started⟩
    rw [Heap.get?_allocate] at h'
    split at h'
    · cases h'
      exact ho h
    · exact h.types r o' h'

theorem load (m : Machine) (name : String) : Retains m (outcome (loadClass name) m).2 where
  config_eq := rfl
  classPath_eq := rfl
  natives _ h := h
  types _ o h := ⟨o, h, rfl⟩
  classObjects _ _ h := h
  grounded h := ⟨(loadClass_grows m name).sound h.loaded, h.types, h.started⟩

instance : Std.Refl Retains := ⟨.refl⟩

instance : IsTrans Machine Retains := ⟨fun _ _ _ => .trans⟩

instance : Calm Retains where
  load := .load
  setStatics _ _ _ := .of_same rfl rfl rfl rfl rfl rfl
  allocate _ _ hk _ _ := .allocate fun h => h.knows hk
  update _ _ _ ha _ := .update fun o ho => (ha o ho).type_eq
  intern _ _ _ hk _ _ _ _ := (Retains.allocate fun h => h.knows hk).trans
    (.of_same rfl rfl rfl rfl rfl rfl)
  classObject m o c hk _ _ _ hn := by
    refine (Retains.allocate fun h => h.knows hk).trans ⟨rfl, rfl, fun _ h => h,
      fun _ o h => ⟨o, h, rfl⟩, fun name r h => ?_, fun h => ⟨h.loaded, h.types, h.started⟩⟩
    have hne : c.name ≠ name := fun e => by
      have h : m.classObjects.get? name = some r := h
      rw [← e, hn] at h
      cases h
    exact (Table.get?_put_of_ne _ _ hne).trans h
  print _ _ _ := .of_same rfl rfl rfl rfl rfl rfl

instance : StoresBytes Retains where
  storeByte _ _ _ _ _ _ _ := .update fun _ _ => rfl

instance : Lively Retains where
  change _ _ _ hf := .update fun o ho => (hf o ho).type_eq
  request _ _ hq := .of_same rfl rfl rfl rfl rfl hq
  bind _ _ _ := .of_same rfl rfl rfl rfl rfl rfl
  start m r o run id name args ho hrun := by
    refine ⟨rfl, rfl, fun _ h => h, fun _ o h => ⟨o, h, rfl⟩, fun _ _ h => h, fun h => ?_⟩
    refine ⟨h.loaded, h.types, fun u hu => ?_⟩
    rcases List.mem_append.1 hu with hu | hu
    · exact h.started u hu
    · obtain rfl := List.mem_singleton.1 hu
      exact ⟨run, args, rfl, m.ascends_defines.findMethod? (h.types r o ho) hrun⟩

end Retains

/-! ## Classes that the code of a class mentions -/

namespace Exec

variable {m m' : Machine} {current c : Class} {name : String} {index : Nat}

theorem loadClass_defines (hg : m.Grounded) (h : outcome (loadClass name) m = (.ok c, m')) :
    m'.Defines c := by
  have hr := Retains.load m name
  rw [h] at hr
  exact (hr.grounded hg).of_loaded (loadClass_entered h)

theorem mentioned_defines (hg : m.Grounded) (hc : m.Defines current)
    (h : outcome (mentioned current name) m = (.ok c, m')) : m'.Defines c := by
  unfold mentioned at h
  split at h
  · cases (outcome_pure _ _).symm.trans h
    exact hc
  · exact loadClass_defines hg h

theorem classAt_defines (hg : m.Grounded) (hc : m.Defines current)
    (h : outcome (classAt current index) m = (.ok c, m')) : m'.Defines c := by
  obtain ⟨k, m₁, hk, h⟩ := outcome_bind_eq_ok h
  cases (Prod.mk.inj ((outcome_liftExcept _ _).symm.trans hk)).2
  split at h
  · exact mentioned_defines hg hc h
  · cases (outcome_throw _ _).symm.trans h

theorem methodOf_defines {member : MemberRef} {r : MethodRef} (hg : m.Grounded)
    (hc : m.Defines current) (h : outcome (methodOf current member) m = (.ok r, m')) :
    m'.Defines r.owner := by
  obtain ⟨owner, m₁, ho, h⟩ := outcome_bind_eq_ok h
  split at h
  · next r' hr =>
    cases (outcome_pure _ _).symm.trans h
    exact m'.ascends_defines.findMethod? (mentioned_defines hg hc ho) hr
  · cases (outcome_throw _ _).symm.trans h

theorem resolveMethod_defines {r : MethodRef} (hg : m.Grounded) (hc : m.Defines current)
    (h : outcome (resolveMethod current index) m = (.ok r, m')) : m'.Defines r.owner := by
  obtain ⟨k, m₁, hk, h⟩ := outcome_bind_eq_ok h
  cases (Prod.mk.inj ((outcome_liftExcept _ _).symm.trans hk)).2
  split at h
  · exact methodOf_defines hg hc h
  · exact methodOf_defines hg hc h
  · cases (outcome_throw _ _).symm.trans h

theorem resolveField_defines {slot : Nat} (hg : m.Grounded) (hc : m.Defines current)
    (h : outcome (resolveField current index) m = (.ok (.staticSlot c slot), m')) :
    m'.Defines c := by
  obtain ⟨k, m₁, hk, h⟩ := outcome_bind_eq_ok h
  cases (Prod.mk.inj ((outcome_liftExcept _ _).symm.trans hk)).2
  split at h
  · obtain ⟨owner, m₁, ho, h⟩ := outcome_bind_eq_ok h
    obtain ⟨hs, rfl⟩ := Prod.mk.inj ((outcome_liftExcept _ _).symm.trans h)
    exact m₁.ascends_defines.fieldSite (mentioned_defines hg hc ho) hs
  · cases (outcome_throw _ _).symm.trans h

end Exec

end GreenVm
