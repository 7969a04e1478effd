/-
  The class in which a method is found stands above the class it was looked up in.

  * `Class.ancestors_closed`: the search for what stands above a class misses nothing.  It leaves out
    what has a name that it has met before, which among defined classes is the same class.
  * `Sources.Defines.covers`: so an object of a defined class may stand where the superclasses of the
    class are expected, and the interfaces in which its methods are looked up.
  * `Sources.Defines.assignable_findMethod?`: in particular where the class is expected in which a method
    of the object is found.
-/
import GreenVm.Class.Subtyping
import GreenVm.Proofs.Ancestry
import GreenVm.Proofs.Loading

namespace GreenVm

/-! ## What a search reaches -/

namespace Class

/-- Everything directly above a class, along superclasses if `up` says so, has one of some names. -/
structure AboveIn (up : Bool) (names : List String) (c : Class) : Prop where
  interface : ∀ i ∈ c.interfaces, i.name ∈ names
  superClass : up = true → ∀ s, c.superClass = some s → s.name ∈ names

theorem AboveIn.mono {up : Bool} {names names' : List String} {c : Class}
    (h : c.AboveIn up names) (hn : names ⊆ names') : c.AboveIn up names' where
  interface i hi := hn (h.interface i hi)
  superClass hup s hs := hn (h.superClass hup s hs)

mutual

/-- A search reaches the class, if it has not been seen, and whatever stands directly above what it
    reaches. -/
theorem reached_closed (up : Bool) (seen : List String) : ∀ c : Class,
    c.name ∈ (c.reached up seen).map name ++ seen ∧
      ∀ k ∈ c.reached up seen, k.AboveIn up ((c.reached up seen).map name ++ seen)
  | ⟨declared, superClass, interfaces, element⟩ => by
    rw [reached]
    split
    · next hseen => exact ⟨hseen, nofun⟩
    · dsimp only
      obtain ⟨hi, ho⟩ := reachedAmong_closed up seen interfaces
      generalize reachedAmong up seen interfaces = offered at hi ho ⊢
      obtain ⟨hs, ha⟩ := reachedAbove_closed up (offered.map name ++ seen) superClass
      generalize reachedAbove up (offered.map name ++ seen) superClass = above at hs ha ⊢
      generalize he : (if up = true then above else []) = above' at ⊢
      have hoffered : offered.map name ++ seen ⊆ (⟨declared, superClass, interfaces, element⟩ ::
          (offered ++ above') : List Class).map name ++ seen := by
        intro n
        simp only [List.map_cons, List.map_append, List.mem_append, List.mem_cons]
        tauto
      have habove (hup : up = true) : above.map name ++ (offered.map name ++ seen) ⊆
          (⟨declared, superClass, interfaces, element⟩ :: (offered ++ above') : List Class).map name ++
            seen := by
        rw [if_pos hup] at he
        subst he
        intro n
        simp only [List.map_cons, List.map_append, List.mem_append, List.mem_cons]
        tauto
      refine ⟨by simp, List.forall_mem_cons.2 ⟨⟨fun i h => hoffered (hi i h), fun hup s h =>
        habove hup (hs s h)⟩, fun k hk => ?_⟩⟩
      rcases List.mem_append.1 hk with hk | hk
      · exact (ho k hk).mono hoffered
      · split at he
        · next hup => exact (ha k (he ▸ hk)).mono (habove hup)
        · rw [← he] at hk
          cases hk

theorem reachedAmong_closed (up : Bool) (seen : List String) : ∀ cs : List Class,
    (∀ c ∈ cs, c.name ∈ (reachedAmong up seen cs).map name ++ seen) ∧
      ∀ k ∈ reachedAmong up seen cs, k.AboveIn up ((reachedAmong up seen cs).map name ++ seen)
  | [] => ⟨nofun, by simp [reachedAmong]⟩
  | c :: cs => by
    obtain ⟨hc, hr⟩ := reached_closed up seen c
    obtain ⟨hcs, hrs⟩ := reachedAmong_closed up ((reached up seen c).map name ++ seen) cs
    rw [reachedAmong]
    generalize reached up seen c = first at hc hr hcs hrs ⊢
    generalize reachedAmong up (first.map name ++ seen) cs = others at hcs hrs ⊢
    have hfirst : first.map name ++ seen ⊆ (first ++ others).map name ++ seen := by
      intro n
      simp only [List.map_append, List.mem_append]
      tauto
    have hothers : others.map name ++ (first.map name ++ seen) ⊆
        (first ++ others).map name ++ seen := by
      intro n
      simp only [List.map_append, List.mem_append]
      tauto
    refine ⟨List.forall_mem_cons.2 ⟨hfirst hc, fun d hd => hothers (hcs d hd)⟩, fun k hk => ?_⟩
    rcases List.mem_append.1 hk with hk | hk
    · exact (hr k hk).mono hfirst
    · exact (hrs k hk).mono hothers

theorem reachedAbove_closed (up : Bool) (seen : List String) : ∀ superClass : Option Class,
    (∀ s, superClass = some s → s.name ∈ (reachedAbove up seen superClass).map name ++ seen) ∧
      ∀ k ∈ reachedAbove up seen superClass,
        k.AboveIn up ((reachedAbove up seen superClass).map name ++ seen)
  | none => ⟨nofun, by simp [reachedAbove]⟩
  | some s => by
    rw [reachedAbove]
    obtain ⟨hs, hr⟩ := reached_closed up seen s
    refine ⟨fun s' e => ?_, hr⟩
    cases e
    exact hs

end

/-- What stands directly above an ancestor has the name of one. -/
theorem ancestors_closed {c k : Class} (hk : k ∈ c.ancestors) :
    k.AboveIn true (c.ancestors.map name) := by
  have h := (reached_closed true [] c).2 k hk
  rwa [List.append_nil] at h

theorem mem_ancestors_self (c : Class) : c ∈ c.ancestors := by
  obtain ⟨declared, superClass, interfaces, element⟩ := c
  rw [ancestors, reached, if_neg List.not_mem_nil]
  exact List.mem_cons_self

end Class

namespace Class

variable {c k : Class}

/-- What is not an array may stand where its superclasses and the interfaces of all of them are
    expected. -/
theorem assignable_plain_iff (hc : c.declared.component = none) :
    c.isAssignableTo k = true ↔ c.name = k.name ∨
      if k.isInterface = true then c.implements k.name = true else c.isBelow k.name = true := by
  obtain ⟨declared, superClass, interfaces, element⟩ := c
  dsimp only at hc
  unfold isAssignableTo
  simp only [hc, name]
  split <;> split <;> simp_all

/-- Every array is an object, cloneable and serializable. -/
theorem assignable_array_iff (hc : c.declared.component.isSome = true)
    (hk : k.declared.component = none) :
    c.isAssignableTo k = true ↔ c.name = k.name ∨
      if k.isInterface = true then k.name = ClassName.cloneable ∨ k.name = ClassName.serializable
      else k.name = ClassName.object := by
  obtain ⟨declared, superClass, interfaces, element⟩ := c
  obtain ⟨component, hc⟩ := Option.isSome_iff_exists.1 hc
  dsimp only at hc
  unfold isAssignableTo
  simp only [hc, hk]
  split <;> split <;> simp_all [name]

/-- Arrays of references follow their elements, and arrays of primitives only match themselves. -/
theorem assignable_arrays_iff {t u : FieldType} (hc : c.declared.component = some t)
    (hk : k.declared.component = some u) :
    c.isAssignableTo k = true ↔ c.name = k.name ∨
      if t.isPrimitive = true ∨ u.isPrimitive = true then t = u
      else ∃ x y, c.element = some x ∧ k.element = some y ∧ x.isAssignableTo y = true := by
  obtain ⟨declared, superClass, interfaces, element⟩ := c
  obtain ⟨declared', superClass', interfaces', element'⟩ := k
  dsimp only at hc hk
  rw [isAssignableTo.eq_def]
  simp only [hc, hk, name]
  cases element <;> cases element' <;> split <;> split <;> simp_all

theorem assignable_of_name (h : c.name = k.name) : c.isAssignableTo k = true := by
  obtain ⟨declared, superClass, interfaces, element⟩ := c
  unfold isAssignableTo
  exact if_pos (beq_iff_eq.2 h)

end Class

/-! ## Built-in classes above arrays -/

theorem ClassFile.linkDeclaration_flags {file : ClassFile} {d : Declaration}
    (h : file.linkDeclaration = .ok d) : d.flags = file.flags := by
  obtain ⟨_, -, h⟩ := except_bind_eq_ok.1 h
  obtain ⟨fields, -, h⟩ := except_bind_eq_ok.1 h
  obtain ⟨methods, -, h⟩ := except_bind_eq_ok.1 h
  cases h
  rfl

namespace Sources.Defines

variable {s : Sources} {name : String} {c d k : Class} {file : ClassFile}

/-- The class of a built-in class file. -/
theorem builtin (h : s.Defines name c) (hp : isArrayName name = false)
    (hf : Library.classFiles.get? name = some file) :
    c.isInterface = file.flags.has .interface ∧ c.superClass.isSome = file.superClass.isSome ∧
      c.interfaces.length = file.interfaces.length := by
  cases h with
  | array ht => exact absurd (isArrayName_of_array ht) (by simp [hp])
  | file _ hf' _ hs _ _ _ hi _ _ hl =>
    rw [find?, hf] at hf'
    obtain rfl := Option.some.inj hf'
    obtain ⟨declared, hd, -, rfl⟩ := Loader.linkClass_ok hl
    exact ⟨congrArg (·.has .interface) (ClassFile.linkDeclaration_flags hd), hs.symm, hi.symm⟩

theorem object_top (h : s.Defines ClassName.object c) :
    c.isInterface = false ∧ c.superClass = none ∧ c.interfaces = [] := by
  obtain ⟨file, hf, hi, hs, hn⟩ : ∃ file, Library.classFiles.get? ClassName.object = some file ∧
      file.flags.has .interface = false ∧ file.superClass = none ∧ file.interfaces = [] := by
    exact ⟨_, rfl, by decide +kernel⟩
  obtain ⟨hi', hs', hn'⟩ := h.builtin isArrayName_object hf
  rw [hs] at hs'
  rw [hn] at hn'
  exact ⟨hi'.trans hi, Option.isNone_iff_eq_none.1 (by simpa using hs'), List.length_eq_zero_iff.1 hn'⟩

theorem isInterface_cloneable (h : s.Defines ClassName.cloneable c) : c.isInterface = true :=
  (h.builtin isArrayName_cloneable rfl).1.trans (by decide +kernel)

theorem isInterface_serializable (h : s.Defines ClassName.serializable c) : c.isInterface = true :=
  (h.builtin isArrayName_serializable rfl).1.trans (by decide +kernel)

/-! ## What a class can be used as -/

/-- Interfaces are no arrays. -/
theorem component_of_isInterface (h : s.Defines name c) (hi : c.isInterface = true) :
    c.declared.component = none := by
  cases h with
  | array =>
    have : (AccessFlags.ofList [.publicAccess, .final, .abstract]).has .interface = true := hi
    exact absurd this (by decide)
  | file _ _ _ _ _ _ _ _ _ _ hl =>
    obtain ⟨declared, hd, -, rfl⟩ := Loader.linkClass_ok hl
    exact (ClassFile.linkDeclaration_ok hd).2

theorem isInterface_superClass (h : s.Defines name c) (hs : c.superClass = some d) :
    d.isInterface = false := by
  cases h with
  | array _ _ _ ho =>
    cases hs
    exact ho.object_top.1
  | file _ _ _ _ _ _ hsc _ _ _ hl =>
    obtain ⟨declared, -, -, rfl⟩ := Loader.linkClass_ok hl
    cases hs
    exact hsc d rfl

theorem isInterface_interface (h : s.Defines name c) (hi : d ∈ c.interfaces) :
    d.isInterface = true := by
  cases h with
  | array _ _ _ _ hc hs =>
    rcases List.mem_cons.1 hi with rfl | hi
    · exact hc.isInterface_cloneable
    · cases List.mem_singleton.1 hi
      exact hs.isInterface_serializable
  | file _ _ _ _ _ _ _ _ _ hic hl =>
    obtain ⟨declared, -, -, rfl⟩ := Loader.linkClass_ok hl
    exact hic d hi

/-- The ancestors of a class are all that stands above it. -/
theorem ascends_ancestors (h : s.Defines c.name c) :
    Class.Ascends fun k => s.Defines k.name k ∧ k ∈ c.ancestors := by
  have defines : ∀ k ∈ c.ancestors, s.Defines k.name k :=
    Class.reached_of (P := fun k => s.Defines k.name k) (fun _ _ => interface)
      (fun _ _ _ => superClass) h
  have mem {d : Class} (hd : s.Defines d.name d) (hn : d.name ∈ c.ancestors.map Class.name) :
      d ∈ c.ancestors := by
    obtain ⟨e, he, hn⟩ := List.mem_map.1 hn
    exact (defines e he).unique (hn ▸ hd) ▸ he
  refine ⟨fun k d hk hd => ?_, fun k d hk hd => ?_⟩
  · exact ⟨hk.1.superClass hd, mem (hk.1.superClass hd)
      ((Class.ancestors_closed hk.2).superClass rfl d hd)⟩
  · exact ⟨hk.1.interface hd, mem (hk.1.interface hd) ((Class.ancestors_closed hk.2).interface d hd)⟩

/-- A class implements the interfaces in which methods of its superclasses are looked up. -/
theorem implements_allInterfaces (h : s.Defines c.name c) (hd : d ∈ c.lineage)
    (hk : k ∈ d.allInterfaces) : k.isInterface = true ∧ c.implements k.name = true := by
  have hP := h.ascends_ancestors
  have implements {k i : Class} (hk : s.Defines k.name k ∧ k ∈ c.ancestors) (hi : i ∈ k.interfaces) :
      i.isInterface = true ∧ c.implements i.name = true :=
    ⟨hk.1.isInterface_interface hi, List.any_eq_true.2 ⟨k, hk.2, List.any_eq_true.2 ⟨i, hi, by simp⟩⟩⟩
  have reached : ∀ k ∈ Class.reachedAmong false [] d.interfaces,
      (s.Defines k.name k ∧ k ∈ c.ancestors) ∧ k.isInterface = true ∧ c.implements k.name = true := by
    refine Class.reachedAmong_of (fun k i hk hi => ?_) nofun fun i hi => ?_
    · exact ⟨hP.interface k i hk.1 hi, implements hk.1 hi⟩
    · have hd := hP.lineage ⟨h, c.mem_ancestors_self⟩ d hd
      exact ⟨hP.interface d i hd hi, implements hd hi⟩
  exact (reached k hk).2

/-- Above an array class there is only `Object`. -/
theorem array_top (h : s.Defines name c) (hc : c.declared.component.isSome = true) :
    ∃ object, c.superClass = some object ∧ s.Defines ClassName.object object := by
  cases h with
  | array _ _ _ ho => exact ⟨_, rfl, ho⟩
  | file _ _ _ _ _ _ _ _ _ _ hl =>
    obtain ⟨declared, hd, -, rfl⟩ := Loader.linkClass_ok hl
    rw [(ClassFile.linkDeclaration_ok hd).2] at hc
    cases hc

/-- On the lineage of an array class is `Object` besides it. -/
theorem lineage_of_array (h : s.Defines name c) (hc : c.declared.component.isSome = true)
    (hk : k ∈ c.lineage) : k = c ∨ s.Defines ClassName.object k := by
  obtain ⟨object, hs, ho⟩ := h.array_top hc
  obtain ⟨-, htop, -⟩ := ho.object_top
  obtain ⟨declared, superClass, interfaces, element⟩ := c
  obtain ⟨declared', superClass', interfaces', element'⟩ := object
  cases hs
  cases htop
  rw [Class.lineage, Class.lineage] at hk
  rcases List.mem_cons.1 hk with rfl | hk
  · exact .inl rfl
  · exact .inr (List.mem_singleton.1 hk ▸ ho)

/-- The classes on the lineage of a class are defined. -/
theorem lineage (h : s.Defines c.name c) : ∀ k ∈ c.lineage, s.Defines k.name k :=
  Class.lineage_of (P := fun k => s.Defines k.name k) (fun _ _ => superClass) h

/-- A class that is below the name of another is below this class. -/
theorem mem_lineage (h : s.Defines c.name c) (hk : s.Defines k.name k)
    (hb : c.isBelow k.name = true) : k ∈ c.lineage := by
  obtain ⟨d, hd, hn⟩ := List.any_eq_true.1 hb
  exact (h.lineage d hd).unique (eq_of_beq hn ▸ hk) ▸ hd

/-- The superclasses of a class are no interfaces. -/
theorem isInterface_lineage (h : s.Defines c.name c) (hk : k ∈ c.lineage) :
    k = c ∨ k.isInterface = false :=
  (Class.lineage_of (P := fun k => s.Defines k.name k ∧ (k = c ∨ k.isInterface = false))
    (fun _ _ hk hd => ⟨hk.1.superClass hd, .inr (hk.1.isInterface_superClass hd)⟩) ⟨h, .inl rfl⟩ k
      hk).2

/-- **An object of a class may stand where its superclasses are expected, and the interfaces in which
    its methods are looked up.** -/
theorem covers (h : s.Defines c.name c) : Class.Covers (fun k => c.isAssignableTo k = true) c := by
  cases hc : c.declared.component with
  | some component =>
    refine ⟨fun k hk => ?_, fun d hd hplain k hk => ?_⟩
    · rcases h.lineage_of_array (by simp [hc]) hk with rfl | ho
      · exact Class.assignable_of_name rfl
      · have plain : k.declared.component = none :=
          Option.isNone_iff_eq_none.1 (by simpa [isArrayName_object] using ho.component_isSome)
        refine (Class.assignable_array_iff (by simp [hc]) plain).2 (.inr ?_)
        rw [if_neg (by simp [ho.object_top.1])]
        exact ho.name_eq
    · rcases h.lineage_of_array (by simp [hc]) hd with rfl | ho
      · cases hc.symm.trans hplain
      · simp [Class.allInterfaces, ho.object_top.2.2, Class.reachedAmong] at hk
  | none =>
    refine ⟨fun k hk => ?_, fun d hd _ k hk => (Class.assignable_plain_iff hc).2 (.inr ?_)⟩
    · rcases h.isInterface_lineage hk with rfl | hi
      · exact Class.assignable_of_name rfl
      · refine (Class.assignable_plain_iff hc).2 (.inr ?_)
        rw [if_neg (by simp [hi])]
        exact List.any_eq_true.2 ⟨k, hk, by simp⟩
    · obtain ⟨hi, himp⟩ := h.implements_allInterfaces hd hk
      rw [if_pos hi]
      exact himp

/-- The class in which a method of an object is found is one of those. -/
theorem assignable_findMethod? {method descriptor : String} {r : MethodRef} (h : s.Defines c.name c)
    (hr : c.findMethod? method descriptor = some r) : c.isAssignableTo r.owner = true :=
  h.covers.findMethod? hr

end Sources.Defines

end GreenVm
