/-
  Reading and writing the fields of objects.

  * `Vm.sized_after`: in every state that a virtual machine can reach, every object has a slot for
    each field of its class.
  * `Machine.RefersTo`: an entry of the pool of a class refers to a field which a class declares.
  * `Frame.Reads`: the instruction that reads a field comes to push a value.
  * `Vm.fields_after`: what is written through one reference is read through another if both refer to
    one field, and if they do not, the value stays that was there before.
-/
import GreenVm.Proofs.Lasting
import GreenVm.Proofs.Queues.Retries

namespace GreenVm

open Exec

/-! ## Slots of an object -/

namespace Object

variable {o : Object} {i j : Nat}

/-- What has slots is no array. -/
theorem Sized.body_eq (hs : o.Sized) (hi : i < o.type.layout.length) :
    ∃ slots, o.body = .fields slots ∧ slots.size = o.type.layout.length := by
  unfold Sized at hs
  cases hb : o.body with
  | fields slots =>
    rw [hb] at hs
    exact ⟨slots, rfl, hs⟩
  | elements values =>
    rw [hb] at hs
    simp only [Body.slots, List.size_toArray, List.length_nil] at hs
    omega

/-- Every slot of the class is there to be read. -/
theorem Sized.getSlot_ok (hs : o.Sized) (hi : i < o.type.layout.length) :
    ∃ v, o.getSlot i = .ok v := by
  obtain ⟨slots, hb, hsize⟩ := hs.body_eq hi
  refine ⟨slots[i], ?_⟩
  simp only [getSlot, hb, Array.getElem?_eq_getElem (hsize.symm ▸ hi : i < slots.size)]

/-- Every slot is there to be written, and this changes no other slot. -/
theorem Sized.putSlot_ok (hs : o.Sized) (hi : i < o.type.layout.length) (v : Value) :
    ∃ o', o.putSlot i v = .ok o' ∧ o'.type = o.type ∧ o'.getSlot i = .ok v ∧
      ∀ j, j ≠ i → o'.getSlot j = o.getSlot j := by
  obtain ⟨slots, hb, hsize⟩ := hs.body_eq hi
  have hlt : i < slots.size := hsize.symm ▸ hi
  refine ⟨{ o with body := .fields (slots.setIfInBounds i v) }, ?_, rfl, ?_, fun j hj => ?_⟩
  · simp only [Object.putSlot, hb, if_pos hlt]
  · simp only [getSlot, Array.getElem?_setIfInBounds_self_of_lt hlt]
  · simp only [getSlot, hb, Array.getElem?_setIfInBounds_ne hj.symm]

/-- A new object has the default of the type of a field in its slot. -/
theorem ofClass_getSlot {c : Class} {payload : Payload} {s : FieldSlot}
    (hi : c.layout[i]? = some s) :
    (Object.ofClass c payload).getSlot i = .ok (Value.default s.field.type) := by
  simp only [getSlot, ofClass, List.getElem?_toArray, List.getElem?_map, hi, Option.map_some]

end Object

/-! ## Sizes over a run -/

variable {m m' : Machine} {r : Ref} {o : Object} {host : Host}

theorem Machine.sized_iff : m.Sized ↔ m.Each Object.Sized :=
  ⟨fun h => ⟨h.loaded, h.objects⟩, fun h => ⟨h.loaded, h.objects⟩⟩

instance : Lasting Object.Sized where
  of_fills hf hm := hf.sized (Machine.sized_iff.2 hm)
  of_same ht hb hs := hs.of_same ht hb
  setElement place v hs := hs.setElement place v

/-- Objects that have their slots keep them, and new ones have theirs. -/
def KeepsSized (m m' : Machine) : Prop := m.Sized → m'.Sized

namespace KeepsSized

theorem eq_keepsEach : KeepsSized = KeepsEach Object.Sized :=
  funext₂ fun _ _ => propext (imp_congr Machine.sized_iff Machine.sized_iff)

instance : Lively KeepsSized := eq_keepsEach ▸ inferInstance

end KeepsSized

namespace Vm

/-- In every state that a virtual machine can reach, objects have the slots of their classes. -/
theorem sized_after (hh : host.Within KeepsSized) (config : Config)
    (classPath : Table String ClassFile) (wallClock : Nat) (as : List Action) :
    ((boot config classPath wallClock).after host as).machine.Sized :=
  Machine.sized_iff.2 (each_after (KeepsSized.eq_keepsEach ▸ hh) config classPath wallClock as)

end Vm

/-! ## References to fields -/

/-- In the machine, an entry of the pool of a class refers to an instance field, and this is the one
    in a slot that the class `D` declares. -/
structure Machine.RefersTo (m : Machine) (current : Class) (index : Nat) (field : MemberRef)
    (D : Class) (slot : Nat) : Prop where
  constant : current.constant index = .ok (.field field)
  resolved : (outcome (resolveField current index) m).1 = .ok (.instanceSlot D slot)

namespace Machine.RefersTo

variable {current D : Class} {index slot : Nat} {field : MemberRef}

/-- The reference is looked up in the class it names. -/
theorem lookup (h : m.RefersTo current index field D slot) :
    ∃ c m', outcome (mentioned current field.owner) m = (.ok c, m') ∧
      c.fieldSite field.name field.descriptor = .ok (.instanceSlot D slot) := by
  have hr := h.resolved
  have hk : outcome (liftM (current.constant index) : Exec Constant) m =
      (.ok (.field field), m) := by
    rw [h.constant]
    rfl
  rw [resolveField, outcome_bind_ok hk] at hr
  rcases hc : outcome (mentioned current field.owner) m with ⟨e | c, m'⟩
  · rw [outcome_bind_error hc] at hr
    cases hr
  · rw [outcome_bind_ok hc] at hr
    exact ⟨c, m', rfl, hr⟩

theorem hasField (h : m.RefersTo current index field D slot) :
    D.HasField field.name field.descriptor slot := by
  obtain ⟨c, m', -, hsite⟩ := h.lookup
  exact (Class.hasField_of_fieldSite hsite).2

/-- A class of the name of the one that declares the field has that class in its lineage, so that it
    is enough to compare names. -/
theorem mem_lineage {E : Class} (h : m.RefersTo current index field D slot) (hg : m.Grounded)
    (hc : m.Defines current) (hE : m.Defines E) (hb : E.isBelow D.name = true) : D ∈ E.lineage := by
  obtain ⟨c, m', hm, hsite⟩ := h.lookup
  have hkept : Retains m m' := mentioned_within.of_eq hm
  have hD : m'.Defines D := Sources.Defines.lineage (mentioned_defines hg hc hm) D
    (Class.hasField_of_fieldSite hsite).1
  exact Sources.Defines.mem_lineage (hkept.defines hE) hD hb

/-- The reference means the same later on. -/
theorem again (h : m.RefersTo current index field D slot) (hg : m.Grounded) (hr : Retains m m') :
    ∃ m'', outcome (resolveField current index) m' = (.ok (.instanceSlot D slot), m'') ∧
      Loads m' m'' := by
  obtain ⟨c, m₁, hc, hsite⟩ := h.lookup
  obtain ⟨m'', hc', hl⟩ := mentioned_again hg hc hr
  have hk : outcome (liftM (current.constant index) : Exec Constant) m' =
      (.ok (.field field), m') := by
    rw [h.constant]
    rfl
  refine ⟨m'', ?_, hl⟩
  rw [resolveField, outcome_bind_ok hk, outcome_bind_ok hc', hsite]
  rfl

end Machine.RefersTo

/-- The reference comes to an instance field that the class of a name declares. -/
def FieldSite.isOf (name : String) : FieldSite → Bool
  | instanceSlot c _ => c.name == name
  | staticSlot _ _ => false

theorem Machine.refersTo_of_isOf {current : Class} {index : Nat} {field : MemberRef} {name : String}
    (hk : (current.constant index).toOption = some (.field field))
    (hs : (outcome (resolveField current index) m).1.toOption.any (·.isOf name) = true) :
    ∃ D slot, m.RefersTo current index field D slot ∧ D.name = name := by
  have hconstant : current.constant index = .ok (.field field) := by
    cases hc : current.constant index with
    | error e => rw [hc] at hk; cases hk
    | ok k => rw [hc] at hk; cases hk; rfl
  obtain ⟨site, hsite, hof⟩ := except_any_toOption.1 hs
  cases site with
  | instanceSlot D slot => exact ⟨D, slot, ⟨hconstant, hsite⟩, eq_of_beq hof⟩
  | staticSlot => cases hof

/-! ## The instructions -/

namespace FrameM

variable {f : Frame} {v : Value} {vs : List Value} {D : Class} {index slot : Nat}
  {field : MemberRef}

/-- Popping from a stack that is not empty. -/
theorem outcome_pop (h : f.stack.values = v :: vs) (m : Machine) :
    ∃ stack : OperandStack, stack.values = vs ∧ outcome pop (f, m) = (.ok v, { f with stack }, m) := by
  have hpop : f.stack.pop = .ok (v, { f.stack with values := vs, depth := f.stack.depth - v.slots }) := by
    rw [OperandStack.pop, h]
  refine ⟨{ f.stack with values := vs, depth := f.stack.depth - v.slots }, rfl, ?_⟩
  rw [pop, takeOff, outcome_bind_ok (outcome_getFrame _), hpop]
  rfl

theorem outcome_instanceSite {m'' : Machine}
    (h : outcome (resolveField f.owner index) m = (.ok (.instanceSlot D slot), m'')) :
    outcome (instanceSite index) (f, m) = (.ok (D, slot), f, m'') := by
  have howner : outcome owner (f, m) = (.ok f.owner, f, m) := rfl
  rw [instanceSite, outcome_bind_ok howner, outcome_frame_bind_ok h, outcome_pure]

/-- An object of a class below has the fields that are asked for. -/
theorem outcome_popHolder (h : f.stack.values = .ofRef r :: vs) (ho : m.heap.get? r = some o)
    (hD : D ∈ o.type.lineage) :
    ∃ stack : OperandStack, stack.values = vs ∧
      outcome (popHolder D) (f, m) = (.ok (r, o), { f with stack }, m) := by
  obtain ⟨stack, hstack, hpop⟩ := outcome_pop h m
  have hobject : outcome popObject (f, m) = (.ok r, { f with stack }, m) := by
    rw [popObject, outcome_bind_ok hpop]
    rfl
  have hbelow : o.type.isBelow D.name = true := List.any_eq_true.2 ⟨D, hD, beq_self_eq_true D.name⟩
  refine ⟨stack, hstack, ?_⟩
  rw [popHolder, outcome_bind_ok hobject, outcome_frame_bind_ok (outcome_object ho), if_pos hbelow,
    outcome_pure]

end FrameM

/-- The instruction that reads the field comes to push a value in place of the object on top of the
    stack.  It loads no more than classes on the way there. -/
def Frame.Reads (f : Frame) (index : Nat) (m : Machine) (v : Value) : Prop :=
  ∃ (stack : OperandStack) (m' : Machine), f.stack.values.tail = stack.values ∧ Loads m m' ∧
    outcome (FrameM.getField index) (f, m) = outcome (FrameM.push v) ({ f with stack }, m')

/-- The instruction that writes the field takes the value and the object from the stack and leaves
    everything else of the frame as it is. -/
def Frame.Writes (f : Frame) (index : Nat) (m m' : Machine) : Prop :=
  ∃ stack : OperandStack, f.stack.values.tail.tail = stack.values ∧
    outcome (FrameM.putField index) (f, m) = (.ok (), { f with stack }, m')

section Access

variable {f : Frame} {v : Value} {vs : List Value} {D : Class} {index slot : Nat} {field : MemberRef}
  {m₀ : Machine}

/-- Reading a field of an object that has it. -/
theorem Machine.RefersTo.reads (h : m₀.RefersTo f.owner index field D slot) (hg : m₀.Grounded)
    (hr : Retains m₀ m) (hf : f.stack.values = .ofRef r :: vs) (ho : m.heap.get? r = some o)
    (hD : D ∈ o.type.lineage) (hv : o.getSlot slot = .ok v) : f.Reads index m v := by
  obtain ⟨m₁, hsite, hl⟩ := h.again hg hr
  obtain ⟨o₁, ho₁, htype, hbody⟩ := hl.keepsObjects.get? r o ho
  obtain ⟨stack, hstack, hpop⟩ := FrameM.outcome_popHolder (m := m₁) hf ho₁ (htype.symm ▸ hD)
  have hv₁ : o₁.getSlot slot = .ok v := by
    rw [← hv]
    simp only [Object.getSlot, hbody]
  refine ⟨stack, m₁, by rw [hf]; exact hstack.symm, hl, ?_⟩
  rw [FrameM.getField, outcome_bind_ok (FrameM.outcome_instanceSite hsite)]
  dsimp only
  rw [outcome_bind_ok hpop, hv₁]
  rfl

/-- Writing a field of an object that has it. -/
theorem Machine.RefersTo.writes {o' : Object} (h : m₀.RefersTo f.owner index field D slot)
    (hg : m₀.Grounded) (hr : Retains m₀ m) (hf : f.stack.values = v :: .ofRef r :: vs)
    (ho : m.heap.get? r = some o) (hD : D ∈ o.type.lineage) (hv : o.putSlot slot v = .ok o') :
    ∃ m', f.Writes index m m' ∧ Retains m m' ∧ m'.heap.get? r = some o' := by
  obtain ⟨m₁, hsite, hl⟩ := h.again hg hr
  have hretains := hl.retains
  obtain ⟨-, loaded, rfl⟩ := hl
  obtain ⟨stack₁, hstack₁, hvalue⟩ := FrameM.outcome_pop hf { m with loaded }
  obtain ⟨stack, hstack, hpop⟩ :=
    FrameM.outcome_popHolder (f := { f with stack := stack₁ }) (m := { m with loaded }) hstack₁ ho hD
  refine ⟨{ m with loaded, heap := m.heap.update r fun _ => o' }, ⟨stack, by rw [hf]; exact hstack.symm,
    ?_⟩, hretains.trans (.update fun o₁ ho₁ => ?_), Heap.get?_update_self ho⟩
  · rw [FrameM.putField, outcome_bind_ok (FrameM.outcome_instanceSite hsite)]
    dsimp only
    rw [outcome_bind_ok hvalue, outcome_bind_ok hpop]
    dsimp only
    rw [hv]
    rfl
  · cases ho.symm.trans ho₁
    exact (Object.putSlot_alike hv).type_eq

end Access

/-! ## Runs -/

namespace Vm

/-- **A field holds what was last written to it, and no other field does.**  In every state that a
    virtual machine can reach, let the names in the lineage of a class `E` be plain, and let two
    references come to fields that classes of the lineage declare.  A value that is written to an
    object of the class through one is read through the other if both are declared by the same class
    under the same name and descriptor; if not, what is read is what was read before.  No such access
    fails for want of a slot.  And through each declaration a new object of the class shows the default
    of the type that the descriptor of the declaration stands for. -/
theorem fields_after (hh : host.Within KeepsInit) (hs : host.Within KeepsSized) (config : Config)
    (classPath : Table String ClassFile) (wallClock : Nat) (as : List Action)
    (hm : m = ((boot config classPath wallClock).after host as).machine) {f g : Frame}
    {i j slot slot' : Nat} {x y : MemberRef} {D D' E : Class} (hE : m.Defines E)
    (hp : ∀ k ∈ E.lineage, k.Plain) (hx : m.RefersTo f.owner i x D slot)
    (hy : m.RefersTo g.owner j y D' slot') (hD : D ∈ E.lineage) (hD' : D' ∈ E.lineage) :
    (∀ r o v vs us, m.heap.get? r = some o → o.type = E → f.stack.values = v :: .ofRef r :: vs →
      g.stack.values = .ofRef r :: us → ∃ w m', g.Reads j m w ∧ f.Writes i m m' ∧
        g.Reads j m' (if D.name = D'.name ∧ x.name = y.name ∧ x.descriptor = y.descriptor
          then v else w)) ∧
      ∃ t, FieldType.parse? y.descriptor = some t ∧
        ∀ r m' us, outcome (instantiate E) m = (.ok r, m') → g.stack.values = .ofRef r :: us →
          g.Reads j m' (Value.default t) := by
  have hgrounded : m.Grounded := by
    obtain ⟨lost, h⟩ := (Initializing.boot config classPath wallClock).after hh as
    exact hm ▸ h.machine
  have hsized : m.Sized := hm ▸ sized_after hs config classPath wallClock as
  refine ⟨fun r o v vs us ho ht hf hg => ?_, ?_⟩
  · subst ht
    have hlt := Sources.Defines.slot_lt hE hD hx.hasField
    obtain ⟨w, hw⟩ := (hsized.objects r o ho).getSlot_ok (Sources.Defines.slot_lt hE hD' hy.hasField)
    obtain ⟨o', hput, ht', hself, hother⟩ := (hsized.objects r o ho).putSlot_ok hlt v
    obtain ⟨m', hwrites, hkept, ho'⟩ := hx.writes hgrounded (.refl m) hf ho hD hput
    refine ⟨w, m', hy.reads hgrounded (.refl m) hg ho hD' hw, hwrites,
      hy.reads hgrounded hkept hg ho' (ht' ▸ hD') ?_⟩
    have hone := Sources.Defines.slot_eq_iff hE hp hD hD' hx.hasField hy.hasField
    split
    · next hsame => rw [← hone.2 hsame, hself]
    · next hdiffer => rw [hother slot' fun e => hdiffer (hone.1 e.symm), hw]
  · obtain ⟨field, hfield, -, ht⟩ := Sources.Defines.layout_getElem? hE hp hD' hy.hasField
    refine ⟨field.type, ht, fun r m' us hr hg => ?_⟩
    unfold instantiate at hr
    split at hr
    · cases (outcome_throw _ _).symm.trans hr
    · cases hr
      exact hy.reads hgrounded (.allocate fun _ => hE) hg (Heap.get?_allocate.trans (if_pos rfl)) hD'
        (Object.ofClass_getSlot hfield)

/-! ## A program -/

/-- A virtual machine with a main method that makes an object of a class which declares a field that
    the class above declares, too. -/
def ofShadower : Vm :=
  let x : FieldDecl := { flags := .ofList [.publicAccess], name := "x", descriptor := "I" }
  .boot {} (.ofList [
    ("A", { ClassFile.ofClass "A" with fields := [x] }),
    ("B", { ClassFile.ofClass "B" with
      superClass := some "A", fields := [x]
      pool := [.classRef "B", .field ⟨"A", "x", "I"⟩, .field ⟨"B", "x", "I"⟩]
      methods := [
        { flags := .ofList [.staticMember], name := "main", descriptor := "()V"
          code := some (.ofList 2 0 [.new 1, .literal (.int 1), .putField 2, .leave none]) }] })]) 0

/-- What runs the main method until it has made the object. -/
def shadowing : List Action := .spawn "B" "main" "()V" [] :: List.replicate 2 .turn

/-- What is written to the field above is not seen in the field that hides it. -/
theorem fields_after_hiding :
    ∃ (f g : Frame) (D D' : Class) (slot slot' : Nat) (w : Value) (m' : Machine),
      let m := (ofShadower.after .idle shadowing).machine
      m.RefersTo f.owner 2 ⟨"A", "x", "I"⟩ D slot ∧ m.RefersTo g.owner 3 ⟨"B", "x", "I"⟩ D' slot' ∧
        f.stack.values = [.int 1, .ofRef ⟨2⟩] ∧ g.stack.values = [.ofRef ⟨2⟩] ∧
        g.Reads 3 m w ∧ f.Writes 2 m m' ∧ g.Reads 3 m' w := by
  have hinit := (Initializing.boot {} ofShadower.machine.classPath 0).after Host.idle_within shadowing
  have hboot : Vm.boot {} ofShadower.machine.classPath 0 = ofShadower := rfl
  rw [hboot] at hinit
  obtain ⟨lost, hinit⟩ := hinit
  have h : (ofShadower.after .idle shadowing).threads[0]?.any fun t => t.frames.head?.any fun f =>
      ((ofShadower.after .idle shadowing).machine.heap.get? ⟨2⟩).any fun o =>
        decide (∀ k ∈ o.type.lineage, k.Plain) && o.type.isBelow "A" && o.type.isBelow "B" &&
        (f.owner.constant 2).toOption == some (.field ⟨"A", "x", "I"⟩) &&
        (f.owner.constant 3).toOption == some (.field ⟨"B", "x", "I"⟩) &&
        (outcome (resolveField f.owner 2)
          (ofShadower.after .idle shadowing).machine).1.toOption.any (·.isOf "A") &&
        (outcome (resolveField f.owner 3)
          (ofShadower.after .idle shadowing).machine).1.toOption.any (·.isOf "B") := by
    decide +kernel
  generalize hvm : ofShadower.after .idle shadowing = vm at h hinit ⊢
  obtain ⟨t, ht, hany⟩ := (Option.any_eq_true _ _).1 h
  obtain ⟨f, hf, hany⟩ := (Option.any_eq_true _ _).1 hany
  obtain ⟨o, ho, hany⟩ := (Option.any_eq_true _ _).1 hany
  simp only [Bool.and_eq_true, decide_eq_true_eq, beq_iff_eq] at hany
  obtain ⟨⟨⟨⟨⟨⟨hplain, hA⟩, hB⟩, hconstant⟩, hconstant'⟩, hsite⟩, hsite'⟩ := hany
  obtain ⟨D, slot, hx, hD⟩ := Machine.refersTo_of_isOf hconstant hsite
  obtain ⟨D', slot', hy, hD'⟩ := Machine.refersTo_of_isOf hconstant' hsite'
  have howner : vm.machine.Defines f.owner :=
    (hinit.threads t (Array.mem_of_getElem? ht)).1.frames f (List.mem_of_mem_head? hf)
  have hE := hinit.machine.types _ o ho
  obtain ⟨w, m', hbefore, hwrites, hafter⟩ := (fields_after Host.idle_within Host.idle_within {}
    ofShadower.machine.classPath 0 shadowing (hvm ▸ rfl)
    (f := { f with stack := { values := [.int 1, .ofRef ⟨2⟩], max := 2 } })
    (g := { f with stack := { values := [.ofRef ⟨2⟩], max := 2 } }) hE hplain hx hy
    (hx.mem_lineage hinit.machine howner hE (hD ▸ hA))
    (hy.mem_lineage hinit.machine howner hE (hD' ▸ hB))).1 ⟨2⟩ o (.int 1) [] [] ho rfl rfl rfl
  refine ⟨{ f with stack := { values := [.int 1, .ofRef ⟨2⟩], max := 2 } },
    { f with stack := { values := [.ofRef ⟨2⟩], max := 2 } }, D, D', slot, slot', w, m', hx, hy, rfl,
    rfl, hbefore, hwrites, ?_⟩
  rw [if_neg (by rw [hD, hD']; simp)] at hafter
  exact hafter

end Vm

end GreenVm
