/-
  Calls run the most derived method.

  * `Class.MostDerived key c d m`: on the way up from `c` along superclasses, `d` is the first class
    that declares a callable method under the key, and `m` is this method.
  * `Sources.Defines.select?_mostDerived`: if it is not abstract it is what is selected, whatever the
    interfaces of the classes on the way offer.
  * `Frame.CallsOn f m m' resolved c`: the instruction of the frame is a call on an object of class
    `c`, and its reference means `resolved`.
  * `Sources.Defines.calls_mostDerived`: what the lookups and calls of a class come to.
-/
import GreenVm.Proofs.CallTables
import GreenVm.Proofs.Dispatch

namespace GreenVm

namespace Class

variable {key name descriptor : String} {c d s : Class} {m : Method}

/-- The class declares no callable method under the key. -/
def Lacks (c : Class) (key : String) : Prop :=
  ∀ m ∈ c.declared.methods, m.isVirtual = true → m.key ≠ key

instance (c : Class) (key : String) : Decidable (c.Lacks key) :=
  inferInstanceAs (Decidable (∀ m ∈ c.declared.methods, m.isVirtual = true → m.key ≠ key))

/-- The class declares the callable method under the key; if it declares several, this is the last. -/
structure Declares (c : Class) (key : String) (m : Method) : Prop where
  isVirtual : m.isVirtual = true
  key_eq : m.key = key
  last : ∃ before after, c.declared.methods = before ++ m :: after ∧
    ∀ k ∈ after, k.isVirtual = true → k.key ≠ key

/-- The nearest class on the way up that declares a callable method under the key, and the method. -/
inductive MostDerived (key : String) : Class → Class → Method → Prop
  | own {c : Class} {m : Method} (h : c.Declares key m) : MostDerived key c c m
  | inherited {c s d : Class} {m : Method} (hl : c.Lacks key) (hs : c.superClass = some s)
    (h : MostDerived key s d m) : MostDerived key c d m

theorem Lacks.ownSelected? (h : c.Lacks key) : c.ownSelected? key = none := by
  have : c.declared.methods.filter (fun m => m.isVirtual && m.key == key) = [] :=
    List.filter_eq_nil_iff.2 fun m hm => by simpa using h m hm
  rw [Class.ownSelected?, this]
  rfl

theorem Declares.ownSelected? (h : c.Declares key m) : c.ownSelected? key = some ⟨c, m⟩ := by
  obtain ⟨before, after, hm, hafter⟩ := h.last
  have none_after : after.filter (fun m => m.isVirtual && m.key == key) = [] :=
    List.filter_eq_nil_iff.2 fun m hm => by simpa using hafter m hm
  rw [Class.ownSelected?, hm, List.filter_append, List.filter_cons_of_pos (by
    simp [h.isVirtual, h.key_eq]), none_after, List.getLast?_concat]
  rfl

theorem declares_of_ownSelected? {r : MethodRef} (h : c.ownSelected? key = some r) :
    r.owner = c ∧ c.Declares key r.method := by
  obtain ⟨m, hm, rfl⟩ := Option.map_eq_some_iff.1 h
  obtain ⟨others, hm⟩ := List.getLast?_eq_some_iff.1 hm
  obtain ⟨before, after, hmethods, -, hlast⟩ := List.filter_eq_append_iff.1 hm
  obtain ⟨before', after', rfl, -, hm, hafter⟩ := List.filter_eq_cons_iff.1 hlast
  simp only [Bool.and_eq_true, beq_iff_eq] at hm
  refine ⟨rfl, hm.1, hm.2, before ++ before', after', by simp [hmethods], fun k hk hv hkey => ?_⟩
  have := List.filter_eq_nil_iff.1 hafter k hk
  simp [hv, hkey] at this

/-- What is selected among the callable methods is what is found. -/
theorem findMethod?_of_select? (h : c.select? (name ++ descriptor) = some ⟨d, m⟩) :
    c.findMethod? name descriptor = some ⟨d, m⟩ := by
  obtain ⟨declared, superClass, interfaces, element⟩ := c
  cases superClass <;> simp [findMethod?, findHere?, h]

end Class

/-! ## Selection -/

namespace Sources.Defines

variable {s : Sources} {key : String} {c d : Class} {m : Method}

/-- Array classes declare nothing. -/
theorem lacks_of_component {name : String} (h : s.Defines name c)
    (hc : c.declared.component.isSome = true) : c.Lacks key := by
  cases h with
  | array => simp [Class.Lacks, Declaration.ofArray]
  | file _ _ _ _ _ _ _ _ _ _ hl =>
    obtain ⟨declared, hd, -, rfl⟩ := Loader.linkClass_ok hl
    rw [(ClassFile.linkDeclaration_ok hd).2] at hc
    cases hc

/-- A class selects what it declares itself, unless this is abstract. -/
theorem select?_of_declares {name : String} (h : s.Defines name c) (hown : c.Declares key m)
    (ha : m.isAbstract = false) : c.select? key = some ⟨c, m⟩ := by
  have plain : ¬ c.declared.component.isSome = true := fun hc => by
    have none_own : c.ownSelected? key = none := (h.lacks_of_component hc).ownSelected?
    rw [hown.ownSelected?] at none_own
    cases none_own
  rw [Class.select?_eq, Class.selectOver_eq, if_neg plain, hown.ownSelected?, Option.some_or]
  exact CallTable.fill_of_concrete ha _

/-- The most derived method is selected, unless it is abstract. -/
theorem select?_mostDerived (h : s.Defines c.name c) (hi : c.isInterface = false)
    (hm : c.MostDerived key d m) (ha : m.isAbstract = false) : c.select? key = some ⟨d, m⟩ := by
  induction hm with
  | own hown => exact h.select?_of_declares hown ha
  | @inherited c k d m hl hs _ ih =>
    have above := ih (h.superClass hs) (h.isInterface_superClass hs) ha
    rw [Class.select?_eq, Class.selectOver_eq, hs, Option.bind_some, above, hl.ownSelected?, hi]
    split
    · rfl
    · exact CallTable.fill_of_concrete ha _

end Sources.Defines

/-! ## Calls -/

/-- The next instruction of the frame is a call on an object of class `c`, and its reference means
    `resolved`.  If this is a method of an interface the object implements it. -/
structure Frame.CallsOn (f : Frame) (m m' : Machine) (resolved : MethodRef) (c : Class) : Prop where
  reference : ∃ index, (f.code.instructions[f.pc]? = some (.invokeVirtual index) ∨
    f.code.instructions[f.pc]? = some (.invokeInterface index)) ∧
      outcome (Exec.resolveMethod f.owner index) m = (.ok resolved, m')
  isStatic : resolved.method.isStatic = false
  receiver : ∃ n o object, resolved.method.argumentCount = n + 1 ∧
    f.stack.peek n = .ok (.ofRef o) ∧ m'.heap.get? o = some object ∧ object.type = c
  implements : resolved.owner.isInterface = true → c.isAssignableTo resolved.owner = true

namespace Frame.CallsOn

variable {f : Frame} {m m' : Machine} {resolved : MethodRef} {c : Class}

/-- The call goes to what the class of the object selects. -/
theorem execute (h : f.CallsOn m m' resolved c) (host : Host) (id : ThreadId) :
    outcome (Frame.execute host id) (f, m) = (.ok (.invoke (virtualTarget c resolved)), f, m') := by
  obtain ⟨index, hi, hr⟩ := h.reference
  obtain ⟨n, o, object, hn, ho, hobject, rfl⟩ := h.receiver
  have implements : (resolved.owner.isInterface && !object.type.isAssignableTo resolved.owner) =
      false := by
    cases hi : resolved.owner.isInterface with
    | false => rfl
    | true => simp [h.implements hi]
  have invoked : outcome (FrameM.invokeVirtual index) (f, m) =
      (.ok (.invoke (virtualTarget object.type resolved)), f, m') := by
    rw [FrameM.invokeVirtual, outcome_bind_ok (FrameM.outcome_owner _), outcome_frame_bind_ok hr]
    simp only [h.isStatic, Bool.false_eq_true, if_false, hn]
    rw [outcome_bind_ok (FrameM.outcome_receiver ho m'),
      outcome_frame_bind_ok (Exec.outcome_typeOf hobject)]
    simp only [implements, Bool.false_eq_true, if_false]
    exact outcome_pure _ _
  rw [Frame.execute, outcome_bind_ok (outcome_getFrame _)]
  rcases hi with hi | hi <;> rw [hi] <;> exact invoked

end Frame.CallsOn

theorem virtualTarget_eq {c : Class} {resolved r : MethodRef}
    (hr : c.findMethod? resolved.method.name resolved.method.descriptor = some r) :
    virtualTarget c resolved = if resolved.method.isPrivate then resolved else r := by
  simp [virtualTarget, hr]

/-- **Overriding.**  By the tables of a class that is defined and of its superclasses, a name and
    descriptor mean what they mean; and what they mean has them, put together, as its own.  If the class
    is no interface and the most derived method under a key is not abstract, it is the one that is found,
    and the one that calls on objects of the class run, whatever method of this key their reference
    means; only a private method is not overridden. -/
theorem Sources.Defines.calls_mostDerived {s : Sources} {c : Class} (h : s.Defines c.name c) :
    (∀ name descriptor, c.lookUp? name descriptor = c.findMethod? name descriptor) ∧
    (∀ name descriptor r, c.findMethod? name descriptor = some r →
      r.method.name ++ r.method.descriptor = name ++ descriptor) ∧
    (c.isInterface = false → ∀ key d m, c.MostDerived key d m → m.isAbstract = false →
      (∀ name descriptor, name ++ descriptor = key → c.findMethod? name descriptor = some ⟨d, m⟩) ∧
      ∀ host id f m₀ m₁ resolved, f.CallsOn m₀ m₁ resolved c → resolved.method.key = key →
        outcome (Frame.execute host id) (f, m₀) =
          (.ok (.invoke (if resolved.method.isPrivate then resolved else ⟨d, m⟩)), f, m₁)) := by
  refine ⟨fun name descriptor => lookUp?_eq name descriptor h, fun _ _ _ => Class.findMethod?_key, ?_⟩
  intro hi key d m hm ha
  have selected := h.select?_mostDerived hi hm ha
  constructor
  · rintro name descriptor rfl
    exact Class.findMethod?_of_select? selected
  · rintro host id f m₀ m₁ resolved hf rfl
    rw [hf.execute host id, virtualTarget_eq (Class.findMethod?_of_select? selected)]

/-! ## A class with a method to choose -/

namespace Overridden

/-- A method `f` that answers a number. -/
def answer (n : Int32) : MethodDecl :=
  { flags := .ofList [.publicAccess], name := "f", descriptor := "()I"
    code := some (.ofList 1 1 [.literal (.int n), .leave (some .int)]) }

/-- A class `A` whose method `f` is abstract, and whose method `g` calls it. -/
def asking : ClassFile :=
  { ClassFile.ofClass "A" with
    flags := .ofList [.publicAccess, .abstract], pool := [.method ⟨"A", "f", "()I"⟩]
    methods := [
      { flags := .ofList [.publicAccess, .abstract], name := "f", descriptor := "()I" },
      { flags := .ofList [.publicAccess], name := "g", descriptor := "()I"
        code := some (.ofList 1 1 [.load .reference 0, .invokeVirtual 1, .leave (some .int)]) }] }

/-- An interface `I` that offers `f`. -/
def offering : ClassFile := { ClassFile.ofInterface "I" with methods := [answer 2] }

/-- A class `B` below `A` that overrides `f`. -/
def answering : ClassFile := { (ClassFile.ofClass "B").extending "A" with methods := [answer 1] }

/-- A class `C` below `B` that implements `I`. -/
def inheriting : ClassFile := ((ClassFile.ofClass "C").extending "B").implementing "I"

def sources : Sources where
  classPath := .ofList [("A", asking), ("I", offering), ("B", answering), ("C", inheriting)]
  natives := {}
  eager := false

/-- The method of a declaration without parameters, and with an integer for its result. -/
def method (m : MethodDecl) : Method :=
  { flags := m.flags, name := m.name, type := ⟨[], some .int⟩, descriptor := m.descriptor
    code := m.code.map fun code =>
      { maxStack := code.maxStack, maxLocals := code.maxLocals
        instructions := (code.instructions.map Prod.snd).toArray
        offsets := code.instructions.map Prod.fst, handlers := [], lines := [] } }

/-- The class of a class file whose methods are all of this kind. -/
def classOf (file : ClassFile) (superClass : Class) (interfaces : List Class) : Class :=
  { declared := { name := file.name, flags := file.flags, pool := file.pool, staticFields := []
                  instanceFields := [], methods := file.methods.map method, component := none
                  sourceFile := none }
    superClass := some superClass, interfaces, element := none }

def object : Class :=
  (outcome (Loader.load sources [] ClassName.object) .empty).1.toOption.getD default

def a : Class := classOf asking object []
def i : Class := classOf offering object []
def b : Class := classOf answering a []
def c : Class := classOf inheriting b [i]

/-- The method of a class at some place. -/
def methodAt (c : Class) (index : Nat) : MethodRef := ⟨c, c.declared.methods.getD index default⟩

/-- A call of `A.g` that is about to call `f`. -/
def frame : Frame :=
  { method := methodAt a 1, code := (methodAt a 1).method.code.getD default, pc := 1
    locals := #[.ofRef ⟨0⟩], stack := { values := [.ofRef ⟨0⟩], depth := 1, max := 1 }
    monitors := [], kind := .method }

/-- A machine with an object of class `C`. -/
def machine : Machine :=
  { config := {}, classPath := sources.classPath, heap := ⟨#[.ofClass c {}]⟩ }

theorem defines_object : sources.Defines ClassName.object object := by
  have loads : (outcome (Loader.load sources [] ClassName.object) .empty).1.toOption.isSome = true := by
    decide +kernel
  unfold object
  cases hr : (outcome (Loader.load sources [] ClassName.object) .empty).1 with
  | error e =>
    rw [hr] at loads
    cases loads
  | ok o => exact (Loader.load_iff fun _ _ h => by cases h).1 hr

theorem links : ∀ file ∈ [asking, offering, answering, inheriting],
    file.linkDeclaration.toOption = some (classOf file default []).declared := by
  decide +kernel

/-- A class file below the classes that it names. -/
theorem defines_classOf {file : ClassFile} {d : Class} {is : List Class}
    (hl : file ∈ [asking, offering, answering, inheriting])
    (hf : sources.find? file.name = some file) (hp : isArrayName file.name = false)
    (hs : file.superClass = some d.name) (hd : sources.Defines d.name d)
    (hdi : d.isInterface = false) (hi : file.interfaces.length = is.length)
    (his : ∀ p ∈ file.interfaces.zip is, sources.Defines p.1 p.2)
    (hii : ∀ i ∈ is, i.isInterface = true) : sources.Defines file.name (classOf file d is) := by
  have link : Loader.linkClass sources file (some d) is = .ok (classOf file d is) := by
    have := links file hl
    cases hd : file.linkDeclaration with
    | error e =>
      rw [hd] at this
      cases this
    | ok declared =>
      rw [hd] at this
      cases this
      rw [Loader.linkClass, hd]
      rfl
  refine .file hp hf rfl (congrArg Option.isSome hs) (by simp [hs]) ?_ ?_ hi his hii link
  · rintro n hn _ ⟨⟩
    cases hs.symm.trans hn
    exact hd
  · rintro _ ⟨⟩
    exact hdi

theorem defines_a : sources.Defines a.name a := by
  refine defines_classOf (by decide) (by decide) (by decide) ?_ ?_ ?_ rfl (by simp) (by simp)
  · exact congrArg some defines_object.name_eq.symm
  · exact defines_object.name_eq.symm ▸ defines_object
  · exact defines_object.object_top.1

theorem defines_i : sources.Defines i.name i := by
  refine defines_classOf (by decide) (by decide) (by decide) ?_ ?_ ?_ rfl (by simp) (by simp)
  · exact congrArg some defines_object.name_eq.symm
  · exact defines_object.name_eq.symm ▸ defines_object
  · exact defines_object.object_top.1

theorem defines_b : sources.Defines b.name b :=
  defines_classOf (by decide) (by decide) (by decide) rfl defines_a rfl rfl (by simp) (by simp)

theorem defines_c : sources.Defines c.name c := by
  refine defines_classOf (by decide) (by decide) (by decide) rfl defines_b rfl rfl ?_ (by simp; rfl)
  rintro p hp
  obtain rfl := List.mem_singleton.1 hp
  exact defines_i

theorem mostDerived : c.MostDerived "f()I" b (methodAt b 0).method :=
  .inherited (by decide) rfl (.own ⟨by decide, by decide, [], [], rfl, by simp⟩)

theorem callsOn : frame.CallsOn machine machine (methodAt a 0) c where
  reference := ⟨1, .inl rfl, rfl⟩
  isStatic := by decide
  receiver := ⟨0, ⟨0⟩, .ofClass c {}, by decide, rfl, rfl, rfl⟩
  implements := by decide

end Overridden

open Overridden in
/-- `C` inherits an abstract method, an override of it and an offer of its interface. -/
theorem Sources.Defines.calls_mostDerived_inherited :
    sources.Defines c.name c ∧ c.MostDerived "f()I" b (methodAt b 0).method ∧
      frame.CallsOn machine machine (methodAt a 0) c ∧
      c.lookUp? "f" "()I" = some (methodAt b 0) ∧ c.findMethod? "f" "()I" = some (methodAt b 0) ∧
      outcome (Frame.execute .idle ⟨0⟩) (frame, machine) =
        (.ok (.invoke (methodAt b 0)), frame, machine) := by
  obtain ⟨tables, -, overrides⟩ := Sources.Defines.calls_mostDerived defines_c
  obtain ⟨found, called⟩ := overrides rfl _ _ _ mostDerived (by decide)
  refine ⟨defines_c, mostDerived, callsOn, ?_, found "f" "()I" rfl, ?_⟩
  · exact (tables "f" "()I").trans (found "f" "()I" rfl)
  · exact called .idle ⟨0⟩ frame machine machine _ callsOn (by decide)

end GreenVm
