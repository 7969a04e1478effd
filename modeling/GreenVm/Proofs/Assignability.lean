/-
  Standing where a class is expected, from one class to the next.

  * `Class.Fits`: an object of a class may stand where its superclasses are expected and the interfaces
    of all that is above it, and an array where arrays are of what its elements may stand for.
  * `Sources.Defines.assignable_iff`: between classes that are defined this is what is tested.
  * `Class.Strays a b c`: what an object of `a` is refused for `c` by, though it may stand for `b`, whose
    objects may stand for `c`.  Either `b` is an interface with a superclass of its own, or the class `a`
    extends an array class `b`, or they are arrays whose elements are so related.
  * `Sources.Defines.assignable_laws`: with this exception the test is a preorder, which arrays of
    references follow from their elements.
-/
import GreenVm.Proofs.Elements
import GreenVm.Proofs.Loading.History

namespace GreenVm

/-! ## What stands above -/

namespace Class

variable {a b c d k : Class}

/-- An object of the first class may stand where the second is expected. -/
inductive Fits : Class → Class → Prop
  | superClass {a b : Class} (h : b ∈ a.lineage) : Fits a b
  | interface {a k b : Class} (hk : k ∈ a.ancestors) (hb : b ∈ k.interfaces) : Fits a b
  | elements {a b x y : Class} (ha : a.element = some x) (hb : b.element = some y)
    (h : Fits x y) : Fits a b

/-- The second class leads on to the third, but nothing leads there from the first. -/
inductive Strays : Class → Class → Class → Prop
  /-- Whoever implements an interface does not inherit from the superclass of the interface. -/
  | interface {a b c : Class} (hb : b.isInterface = true) (hc : c ∈ b.lineage)
    (hne : c ≠ b) (htop : c.name ≠ ClassName.object) : Strays a b c
  /-- A class below an array class is no array class. -/
  | array {a b c : Class} (ha : a.declared.component = none) (hb : b ∈ a.lineage)
    (hbe : b.element.isSome = true) (hce : c.element.isSome = true) (hne : c ≠ b) : Strays a b c
  | elements {a b c x y z : Class} (ha : a.element = some x) (hb : b.element = some y)
    (hc : c.element = some z) (h : Strays x y z) : Strays a b c

theorem lineage_trans (hb : b ∈ a.lineage) (hc : c ∈ b.lineage) : c ∈ a.lineage := by
  have passes : ∀ k ∈ a.lineage, ∀ d ∈ k.lineage, d ∈ a.lineage :=
    lineage_of (P := fun k => ∀ d ∈ k.lineage, d ∈ a.lineage)
      (fun _ _ hk hs d hd => hk d (lineage_superClass hs hd)) fun _ hd => hd
  exact passes b hb c hc

end Class

namespace Sources.Defines

variable {s : Sources} {name : String} {a b c d k o x y : Class}

/-- What stands above what stands above a class stands above the class. -/
theorem ancestors_trans (h : s.Defines a.name a) (hb : b ∈ a.ancestors) (hc : c ∈ b.ancestors) :
    c ∈ a.ancestors :=
  (h.ascends_ancestors.reached ⟨(h.ascends_ancestors.reached ⟨h, a.mem_ancestors_self⟩ b hb).1, hb⟩ c
    hc).2

theorem lineage_subset_ancestors (h : s.Defines a.name a) (hb : b ∈ a.lineage) : b ∈ a.ancestors :=
  (h.ascends_ancestors.lineage ⟨h, a.mem_ancestors_self⟩ b hb).2

theorem interface_mem_ancestors (h : s.Defines a.name a) (hk : k ∈ a.ancestors)
    (hb : b ∈ k.interfaces) : b ∈ a.ancestors := by
  have hP := h.ascends_ancestors
  exact (hP.interface k b (hP.reached ⟨h, a.mem_ancestors_self⟩ k hk) hb).2

theorem ancestors (h : s.Defines a.name a) (hk : k ∈ a.ancestors) : s.Defines k.name k :=
  (h.ascends_ancestors.reached ⟨h, a.mem_ancestors_self⟩ k hk).1

/-- `Object` is on top of every lineage. -/
theorem object_mem_lineage (h : s.Defines name a) (ho : s.Defines ClassName.object o) :
    o ∈ a.lineage := by
  induction h with
  | array _ _ _ ho' =>
    obtain rfl := ho'.unique ho
    exact Class.lineage_superClass rfl (Class.mem_lineage_self _)
  | @file _ file superClass _ _ hp hf hn hs htop hss hsc hi his hic hl ih _ =>
    obtain ⟨declared, -, -, rfl⟩ := Loader.linkClass_ok hl
    cases superClass with
    | none =>
      have top : file.superClass = none := by simpa using hs
      have hself := Defines.file hp hf hn hs htop hss hsc hi his hic hl
      obtain rfl := hself.unique ((hn ▸ htop top) ▸ ho)
      exact Class.mem_lineage_self _
    | some d =>
      obtain ⟨n, hsuper⟩ := Option.isSome_iff_exists.1 hs
      exact Class.lineage_superClass rfl (ih n hsuper d rfl)

/-! ## Array classes -/

/-- Only array classes have a class for the elements. -/
theorem component_of_element (h : s.Defines name a) (he : a.element = some x) :
    a.declared.component.isSome = true := by
  cases h with
  | array => rfl
  | file _ _ _ _ _ _ _ _ _ _ hl =>
    obtain ⟨declared, -, -, rfl⟩ := Loader.linkClass_ok hl
    cases he

theorem element_of_component {t : FieldType} (h : s.Defines name a)
    (hc : a.declared.component = some t) (ht : t.isReference = true) :
    ∃ x, a.element = some x ∧ t.className? = some x.name ∧ s.Defines x.name x := by
  cases h with
  | @array _ component element _ _ _ hname he hes =>
    obtain rfl : component = t := by simpa [Declaration.ofArray] using hc
    obtain ⟨n, hn⟩ : ∃ n, component.className? = some n := by
      cases component <;> first | exact ⟨_, rfl⟩ | cases ht
    obtain ⟨x, rfl⟩ := Option.isSome_iff_exists.1 (he ▸ hn ▸ rfl : element.isSome = true)
    have hx := hes n hn x rfl
    exact ⟨x, rfl, hn.trans (congrArg some hx.name_eq.symm), hx.name_eq.symm ▸ hx⟩
  | file _ _ _ _ _ _ _ _ _ _ hl =>
    obtain ⟨declared, hd, -, rfl⟩ := Loader.linkClass_ok hl
    rw [(ClassFile.linkDeclaration_ok hd).2] at hc
    cases hc

theorem element (h : s.Defines name a) (he : a.element = some x) : s.Defines x.name x := by
  obtain ⟨t, ht⟩ := Option.isSome_iff_exists.1 (h.component_of_element he)
  obtain ⟨x', hx', -, hd⟩ := h.element_of_component ht (h.isReference ht he)
  cases he.symm.trans hx'
  exact hd

/-- Arrays with the same components are of the same class. -/
theorem eq_of_component {t : FieldType} (ha : s.Defines a.name a) (hb : s.Defines b.name b)
    (hat : a.declared.component = some t) (hbt : b.declared.component = some t) : a = b := by
  have named {c : Class} {n : String} (h : s.Defines n c) (hc : c.declared.component = some t) :
      n.toList = '[' :: t.chars := by
    cases h with
    | array hn =>
      obtain rfl := Option.some.inj hc
      exact toList_of_array hn
    | file _ _ _ _ _ _ _ _ _ _ hl =>
      obtain ⟨declared, hd, -, rfl⟩ := Loader.linkClass_ok hl
      rw [(ClassFile.linkDeclaration_ok hd).2] at hc
      cases hc
  have names : a.name = b.name := String.toList_inj.1 ((named ha hat).trans (named hb hbt).symm)
  exact ha.unique (names ▸ hb)

/-- What arrays implement. -/
theorem mem_interfaces_of_array (h : s.Defines name a) (hc : a.declared.component.isSome = true) :
    b ∈ a.interfaces ↔ s.Defines ClassName.cloneable b ∨ s.Defines ClassName.serializable b := by
  cases h with
  | array _ _ _ _ hcl hs =>
    constructor
    · rintro hb
      rcases List.mem_cons.1 hb with rfl | hb
      · exact .inl hcl
      · exact .inr (List.mem_singleton.1 hb ▸ hs)
    · rintro (hb | hb)
      · exact List.mem_cons.2 (.inl (hb.unique hcl))
      · exact List.mem_cons_of_mem _ (List.mem_singleton.2 (hb.unique hs))
  | file _ _ _ _ _ _ _ _ _ _ hl =>
    obtain ⟨declared, hd, -, rfl⟩ := Loader.linkClass_ok hl
    rw [(ClassFile.linkDeclaration_ok hd).2] at hc
    cases hc

/-- What the class file says of a class that is no array. -/
theorem file_of_component (h : s.Defines name a) (hc : a.declared.component = none) :
    ∃ file, s.find? name = some file ∧ a.declared.flags = file.flags ∧
      a.interfaces.length = file.interfaces.length ∧
      ∀ d, a.superClass = some d → ∃ n, file.superClass = some n ∧ s.Defines n d := by
  cases h with
  | array => cases hc
  | @file _ file _ _ _ _ hf _ hs _ hss _ hi _ _ hl =>
    obtain ⟨declared, hd, -, rfl⟩ := Loader.linkClass_ok hl
    refine ⟨file, hf, ClassFile.linkDeclaration_flags hd, hi.symm, ?_⟩
    rintro d rfl
    obtain ⟨n, hn⟩ := Option.isSome_iff_exists.1 hs
    exact ⟨n, hn, hss n hn d rfl⟩

/-- Above `Object` and the interfaces of arrays there is nothing but `Object`. -/
theorem bare (h : s.Defines name k)
    (hn : name ∈ [ClassName.object, ClassName.cloneable, ClassName.serializable]) :
    k.interfaces = [] ∧ ∀ d, k.superClass = some d → s.Defines ClassName.object d := by
  have builtIn : ∀ n ∈ [ClassName.object, ClassName.cloneable, ClassName.serializable],
      isArrayName n = false ∧ ((Library.classFiles.get? n).any fun file =>
        file.interfaces.isEmpty && file.superClass.all (· == ClassName.object)) = true := by
    decide +kernel
  obtain ⟨hp, hfile⟩ := builtIn name hn
  obtain ⟨file, hf, hfile⟩ := (Option.any_eq_true _ _).1 hfile
  simp only [Bool.and_eq_true, List.isEmpty_iff, Option.all_eq_true, beq_iff_eq] at hfile
  have plain : k.declared.component = none :=
    Option.isNone_iff_eq_none.1 (by simpa [hp] using h.component_isSome)
  obtain ⟨file', hf', -, hlen, hs⟩ := h.file_of_component plain
  have hfind : s.find? name = some file := by rw [find?, hf]; rfl
  obtain rfl := Option.some.inj (hf'.symm.trans hfind)
  refine ⟨List.length_eq_zero_iff.1 (by simpa [hfile.1] using hlen), fun d hd => ?_⟩
  obtain ⟨n, hsuper, hdefined⟩ := hs d hd
  exact hfile.2 n hsuper ▸ hdefined

/-- All interfaces above an array class are its own. -/
theorem interfaces_above_array (h : s.Defines a.name a) (hc : a.declared.component.isSome = true)
    (hk : k ∈ a.ancestors) (hb : b ∈ k.interfaces) : b ∈ a.interfaces := by
  let P (k : Class) : Prop :=
    k = a ∨ k.interfaces = [] ∧ ∀ d, k.superClass = some d → s.Defines ClassName.object d
  have interface (k i : Class) (hk : P k) (hi : i ∈ k.interfaces) : P i := by
    rcases hk with rfl | ⟨hnone, -⟩
    · rcases (h.mem_interfaces_of_array hc).1 hi with hi | hi
      · exact .inr (hi.bare (by simp))
      · exact .inr (hi.bare (by simp))
    · simp [hnone] at hi
  have superClass (k d : Class) (hk : P k) (hd : k.superClass = some d) : P d := by
    rcases hk with rfl | ⟨-, hs⟩
    · obtain ⟨object, hs, ho⟩ := h.array_top hc
      cases hs.symm.trans hd
      exact .inr (ho.bare (by simp))
    · exact .inr ((hs d hd).bare (by simp))
  have above : P k := Class.reached_of interface (fun _ => superClass) (.inl rfl) k hk
  rcases above with rfl | ⟨hnone, -⟩
  · exact hb
  · simp [hnone] at hb

/-! ## What is tested -/

theorem fits_of_assignable_plain (ha : s.Defines a.name a) (hb : s.Defines b.name b)
    (hc : a.declared.component = none) (h : a.isAssignableTo b = true) : a.Fits b := by
  rcases (Class.assignable_plain_iff hc).1 h with hn | h
  · obtain rfl := ha.unique (hn ▸ hb)
    exact .superClass (Class.mem_lineage_self _)
  · split at h
    · obtain ⟨k, hk, h⟩ := List.any_eq_true.1 h
      obtain ⟨i, hi, hn⟩ := List.any_eq_true.1 h
      obtain rfl : i = b := ((ha.ancestors hk).interface hi).unique (eq_of_beq hn ▸ hb)
      exact .interface hk hi
    · exact .superClass (ha.mem_lineage hb h)

theorem fits_of_assignable (ha : s.Defines name a) (hb : s.Defines b.name b)
    (h : a.isAssignableTo b = true) : a.Fits b := by
  induction ha generalizing b with
  | file hp hf hn hs htop hss hsc hi his hic hl =>
    have ha := Defines.file hp hf hn hs htop hss hsc hi his hic hl
    refine fits_of_assignable_plain (ha.name_eq.symm ▸ ha) hb ?_ h
    exact Option.isNone_iff_eq_none.1 (by simpa [hp] using ha.component_isSome)
  | @array name t element object cloneable serializable ht he hes ho hcl hs ih =>
    have ha := Defines.array ht he hes ho hcl hs
    generalize hdef : ({ declared := .ofArray name t, superClass := some object
                         interfaces := [cloneable, serializable], element } : Class) = a at h ha ⊢
    have hat : a.declared.component = some t := by rw [← hdef]; rfl
    have hself : s.Defines a.name a := ha.name_eq.symm ▸ ha
    have same (hn : a.name = b.name) : a.Fits b := by
      obtain rfl := hself.unique (hn ▸ hb)
      exact .superClass (Class.mem_lineage_self _)
    cases hbc : b.declared.component with
    | none =>
      rcases (Class.assignable_array_iff (by simp [hat]) hbc).1 h with hn | h
      · exact same hn
      · split at h
        · refine .interface a.mem_ancestors_self ((ha.mem_interfaces_of_array (by simp [hat])).2 ?_)
          rcases h with hn | hn
          · exact .inl (hn ▸ hb)
          · exact .inr (hn ▸ hb)
        · exact .superClass (ha.object_mem_lineage (h ▸ hb))
    | some u =>
      rcases (Class.assignable_arrays_iff hat hbc).1 h with hn | h
      · exact same hn
      · split at h
        · subst h
          exact same (congrArg Class.name (hself.eq_of_component hb hat hbc))
        · obtain ⟨x, y, hx, hy, h⟩ := h
          obtain ⟨x', hx', hname, -⟩ := ha.element_of_component hat (ha.isReference hat hx)
          obtain rfl := Option.some.inj (hx.symm.trans hx')
          have hel : element = some x := by rw [← hx, ← hdef]
          exact .elements hx hy (ih _ hname x hel (hb.element hy) h)

theorem assignable_of_fits (ha : s.Defines a.name a) (hb : s.Defines b.name b) (h : a.Fits b) :
    a.isAssignableTo b = true := by
  induction h with
  | superClass hab => exact ha.covers.lineage _ hab
  | @interface a k b hk hi =>
    have hiface : b.isInterface = true := (ha.ancestors hk).isInterface_interface hi
    cases hc : a.declared.component with
    | none =>
      refine (Class.assignable_plain_iff hc).2 (.inr ?_)
      rw [if_pos hiface]
      exact List.any_eq_true.2 ⟨k, hk, List.any_eq_true.2 ⟨b, hi, beq_self_eq_true _⟩⟩
    | some t =>
      have harray : a.declared.component.isSome = true := by rw [hc]; rfl
      have hi := ha.interfaces_above_array harray hk hi
      refine (Class.assignable_array_iff harray (hb.component_of_isInterface hiface)).2 (.inr ?_)
      rw [if_pos hiface]
      exact ((ha.mem_interfaces_of_array harray).1 hi).imp name_eq name_eq
  | @elements a b x y hx hy _ ih =>
    obtain ⟨t, ht⟩ := Option.isSome_iff_exists.1 (ha.component_of_element hx)
    obtain ⟨u, hu⟩ := Option.isSome_iff_exists.1 (hb.component_of_element hy)
    refine (Class.assignable_arrays_iff ht hu).2 (.inr ?_)
    have htr := ha.isReference ht hx
    have hur := hb.isReference hu hy
    rw [if_neg (by simp [FieldType.isPrimitive, htr, hur])]
    exact ⟨x, y, hx, hy, ih (ha.element hx) (hb.element hy)⟩

/-- What is tested is whether an object of the one class may stand where the other is expected. -/
theorem assignable_iff (ha : s.Defines a.name a) (hb : s.Defines b.name b) :
    a.isAssignableTo b = true ↔ a.Fits b :=
  ⟨fits_of_assignable ha hb, assignable_of_fits ha hb⟩

/-! ## Laws -/

/-- **What an object of a class may stand for, those of another may that it stands for itself, unless the
    first class strays.** -/
theorem fits_trans (ha : s.Defines a.name a) (hb : s.Defines b.name b) (hab : a.Fits b)
    (hbc : b.Fits c) : a.Fits c ∨ Class.Strays a b c := by
  induction hab generalizing c with
  | @superClass a b hab =>
    cases hbc with
    | superClass hbc => exact .inl (.superClass (Class.lineage_trans hab hbc))
    | interface hk hi =>
      exact .inl (.interface (ha.ancestors_trans (ha.lineage_subset_ancestors hab) hk) hi)
    | elements hy hz h =>
      cases hat : a.declared.component with
      | none =>
        by_cases hcb : c = b
        · exact .inl (hcb ▸ .superClass hab)
        · exact .inr (.array hat hab (by simp [hy]) (by simp [hz]) hcb)
      | some t =>
        rcases ha.lineage_of_array (by simp [hat]) hab with rfl | ho
        · exact .inl (.elements hy hz h)
        · have harray := ho.component_of_element hy
          rw [ho.component_isSome, isArrayName_object] at harray
          cases harray
  | @interface a k b hk hi =>
    have hiface : b.isInterface = true := (ha.ancestors hk).isInterface_interface hi
    cases hbc with
    | @superClass _ c hbc =>
      by_cases hcb : c = b
      · exact .inl (hcb ▸ .interface hk hi)
      · by_cases htop : c.name = ClassName.object
        · exact .inl (.superClass (ha.object_mem_lineage (htop ▸ hb.lineage c hbc)))
        · exact .inr (.interface hiface hbc hcb htop)
    | interface hk' hi' =>
      exact .inl (.interface (ha.ancestors_trans (ha.interface_mem_ancestors hk hi) hk') hi')
    | elements hy _ _ =>
      have harray := hb.component_of_element hy
      rw [hb.component_of_isInterface hiface] at harray
      cases harray
  | @elements a b x y hx hy hxy ih =>
    have harray := hb.component_of_element hy
    cases hbc with
    | superClass hbc =>
      rcases hb.lineage_of_array harray hbc with rfl | ho
      · exact .inl (.elements hx hy hxy)
      · exact .inl (.superClass (ha.object_mem_lineage ho))
    | interface hk hi =>
      have hi := hb.interfaces_above_array harray hk hi
      refine .inl (.interface a.mem_ancestors_self ?_)
      have h := ha.mem_interfaces_of_array (b := c) (ha.component_of_element hx)
      exact h.2 ((hb.mem_interfaces_of_array harray).1 hi)
    | @elements _ _ y' z hy' hz hyz =>
      obtain rfl := Option.some.inj (hy.symm.trans hy')
      rcases ih (ha.element hx) (hb.element hy) hyz with h | h
      · exact .inl (.elements hx hz h)
      · exact .inr (.elements hx hy hz h)

/-- Arrays stand for each other only as their elements do. -/
theorem fits_elements (ha : s.Defines a.name a) (hb : s.Defines b.name b)
    (hx : a.element = some x) (hy : b.element = some y) (h : a.Fits b) : x.Fits y := by
  have harray := hb.component_of_element hy
  cases h with
  | superClass h =>
    rcases ha.lineage_of_array (ha.component_of_element hx) h with rfl | ho
    · obtain rfl := Option.some.inj (hx.symm.trans hy)
      exact .superClass (Class.mem_lineage_self _)
    · rw [ho.component_isSome, isArrayName_object] at harray
      cases harray
  | interface hk hi =>
    rw [hb.component_of_isInterface ((ha.ancestors hk).isInterface_interface hi)] at harray
    cases harray
  | elements hx' hy' h =>
    obtain rfl := Option.some.inj (hx.symm.trans hx')
    obtain rfl := Option.some.inj (hy.symm.trans hy')
    exact h

end Sources.Defines

/-- The superclass that a class file names is no array class, and that of an interface is `Object`. -/
def ClassFile.Upright (file : ClassFile) : Prop :=
  ∀ n ∈ file.superClass, isArrayName n = false ∧
    (file.flags.has .interface = true → n = ClassName.object)

instance (file : ClassFile) : Decidable file.Upright :=
  inferInstanceAs (Decidable (∀ n ∈ file.superClass, _))

/-- So it is with all class files there are. -/
def Sources.Upright (s : Sources) : Prop := ∀ name file, s.find? name = some file → file.Upright

namespace Sources

variable {s : Sources} {a b c : Class}

namespace Upright

theorem of_files (h : ∀ file ∈ s.files, file.Upright) : s.Upright :=
  fun _ _ hf => h _ (mem_files_of_find? hf)

theorem lineage_of_interface (hs : s.Upright) (hb : s.Defines b.name b)
    (hi : b.isInterface = true) (hc : c ∈ b.lineage) : c = b ∨ c.name = ClassName.object := by
  refine (Class.lineage_of (P := fun k => s.Defines k.name k ∧ (k = b ∨ k.name = ClassName.object))
    (fun k d hk hd => ⟨hk.1.superClass hd, .inr ?_⟩) ⟨hb, .inl rfl⟩ c hc).2
  obtain ⟨hdef, rfl | htop⟩ := hk
  · obtain ⟨file, hf, hflags, -, hsuper⟩ := hdef.file_of_component (hdef.component_of_isInterface hi)
    obtain ⟨n, hn, hd⟩ := hsuper d hd
    exact hd.name_eq.trans ((hs _ file hf n hn).2 (hflags ▸ hi))
  · rw [(htop ▸ hdef : s.Defines ClassName.object k).object_top.2.1] at hd
    cases hd

theorem component_lineage (hs : s.Upright) (ha : s.Defines a.name a)
    (hc : a.declared.component = none) (hb : b ∈ a.lineage) : b.declared.component = none := by
  refine (Class.lineage_of (P := fun k => s.Defines k.name k ∧ k.declared.component = none)
    (fun k d hk hd => ⟨hk.1.superClass hd, ?_⟩) ⟨ha, hc⟩ b hb).2
  obtain ⟨file, hf, -, -, hsuper⟩ := hk.1.file_of_component hk.2
  obtain ⟨n, hn, hd⟩ := hsuper d hd
  exact Option.isNone_iff_eq_none.1 (by simpa [(hs _ file hf n hn).1] using hd.component_isSome)

/-- Where superclasses are as they should be nothing strays. -/
theorem not_strays (hs : s.Upright) (ha : s.Defines a.name a) (hb : s.Defines b.name b) :
    ¬ Class.Strays a b c := by
  intro h
  induction h with
  | interface hi hc hne htop =>
    rcases hs.lineage_of_interface hb hi hc with rfl | h
    · exact hne rfl
    · exact htop h
  | array hplain hab hbe =>
    obtain ⟨y, hy⟩ := Option.isSome_iff_exists.1 hbe
    have harray := hb.component_of_element hy
    rw [hs.component_lineage ha hplain hab] at harray
    cases harray
  | elements hx hy _ _ ih => exact ih (ha.element hx) (hb.element hy)

end Upright

/-- **The test is a preorder that arrays of references follow from their elements.**  It is reflexive,
    and transitive but for what strays, which nothing does where the superclass of no interface is other
    than `Object`, and that of no class an array class.  An array class of references has the class of
    its elements, and arrays stand for each other as their elements do. -/
theorem Defines.assignable_laws (ha : s.Defines a.name a) (hb : s.Defines b.name b)
    (hc : s.Defines c.name c) :
    a.isAssignableTo a = true ∧
    (a.isAssignableTo b = true → b.isAssignableTo c = true →
      a.isAssignableTo c = true ∨ Class.Strays a b c) ∧
    (s.Upright → ¬ Class.Strays a b c) ∧
    (∀ t, a.declared.component = some t → t.isReference = true →
      ∃ x, a.element = some x ∧ t.className? = some x.name ∧ s.Defines x.name x) ∧
    ∀ x y, a.element = some x → b.element = some y →
      (a.isAssignableTo b = true ↔ x.isAssignableTo y = true) := by
  refine ⟨Class.assignable_of_name rfl, fun hab hbc => ?_, fun hs => hs.not_strays ha hb,
    fun t ht hr => ha.element_of_component ht hr, fun x y hx hy => ?_⟩
  · have hab := (ha.assignable_iff hb).1 hab
    have hbc := (hb.assignable_iff hc).1 hbc
    exact (ha.fits_trans hb hab hbc).imp_left (ha.assignable_iff hc).2
  · rw [ha.assignable_iff hb, (ha.element hx).assignable_iff (hb.element hy)]
    exact ⟨fun h => ha.fits_elements hb hx hy h, .elements hx hy⟩

/-! ## Programs -/

/-- An interface `I`, an interface `J` that extends it, and a class `A` that implements `J`. -/
def extended : Sources :=
  ofFiles [.ofInterface "I", (ClassFile.ofInterface "J").implementing "I",
    (ClassFile.ofClass "A").implementing "J"]

theorem upright_extended : extended.Upright := .of_files (by decide +kernel)

/-- Arrays of `A` may stand for arrays of `J`, and these for arrays of `I`. -/
theorem assignable_laws_extended :
    extended.Upright ∧ ∃ a b c x y, extended.Defines "[LA;" a ∧ extended.Defines "[LJ;" b ∧
      extended.Defines "[LI;" c ∧ a.element = some x ∧ b.element = some y ∧
      a.isAssignableTo a = true ∧ a.isAssignableTo b = true ∧ b.isAssignableTo c = true ∧
      a.isAssignableTo c = true ∧ x.isAssignableTo y = true := by
  have h : ((extended.class? "[LA;").any fun a => (extended.class? "[LJ;").any fun b =>
      (extended.class? "[LI;").any fun c => a.isAssignableTo b && b.isAssignableTo c &&
        a.element.isSome && b.element.isSome) = true := by
    decide +kernel
  simp only [Option.any_eq_true, Bool.and_eq_true, Option.isSome_iff_exists, class?_eq_some] at h
  obtain ⟨a, ha, b, hb, c, hc, ⟨⟨hab, hbc⟩, x, hx⟩, y, hy⟩ := h
  obtain ⟨hself, trans, straight, -, elements⟩ := Defines.assignable_laws
    (ha.name_eq.symm ▸ ha) (hb.name_eq.symm ▸ hb) (hc.name_eq.symm ▸ hc)
  exact ⟨upright_extended, a, b, c, x, y, ha, hb, hc, hx, hy, hself, hab, hbc,
    (trans hab hbc).resolve_right (straight upright_extended), (elements x y hx hy).1 hab⟩

/-- A class `S`, an interface `I` that names it for its superclass, and a class `A` that implements
    `I`. -/
def misplaced : Sources :=
  ofFiles [.ofClass "S", (ClassFile.ofInterface "I").extending "S",
    (ClassFile.ofClass "A").implementing "I"]

/-- An `A` may stand for an `I`, and an `I` for an `S`, but no `A` for an `S`. -/
theorem not_assignable_trans :
    ∃ a b c, misplaced.Defines "A" a ∧ misplaced.Defines "I" b ∧ misplaced.Defines "S" c ∧
      a.isAssignableTo b = true ∧ b.isAssignableTo c = true ∧ a.isAssignableTo c = false := by
  have h : ((misplaced.class? "A").any fun a => (misplaced.class? "I").any fun b =>
      (misplaced.class? "S").any fun c =>
        a.isAssignableTo b && b.isAssignableTo c && !a.isAssignableTo c) = true := by
    decide +kernel
  simp only [Option.any_eq_true, Bool.and_eq_true, Bool.not_eq_true', class?_eq_some] at h
  obtain ⟨a, ha, b, hb, c, hc, ⟨hab, hbc⟩, hac⟩ := h
  exact ⟨a, b, c, ha, hb, hc, hab, hbc, hac⟩

end Sources

end GreenVm
