/-
  The names of the classes that reference types stand for.

  * `FieldType.Masks`: an object type that bears the name of an array type, as `L[I;` bears that of
    `int[]`.  Descriptors can speak of such types, and of one without any name.
  * `FieldType.className?_eq_iff`: this is the only way for two types to have the same class name,
    and `FieldType.ofClassName?_className?` that names lead back to the other types only.
  * `Class.type`: the type that a class is the class of.
  * `Loader.load_array`: what loading an array class comes to, for all components.
-/
import GreenVm.Proofs.Assignability
import GreenVm.Proofs.Descriptors
import GreenVm.Proofs.Loading.Closure

namespace GreenVm

/-! ## Names and types -/

namespace FieldType

variable {t u : FieldType} {name : String}

/-- An object type under the name of an array type. -/
def Masks (t : FieldType) : FieldType → Prop
  | array component => t = object (array component).text
  | _ => False

/-- The name of an object type is one that a class can be asked for by. -/
def ProperlyNamed : FieldType → Prop
  | object name => name ≠ "" ∧ isArrayName name = false
  | _ => True

instance ProperlyNamed.decide : DecidablePred ProperlyNamed
  | object name => inferInstanceAs (Decidable (name ≠ "" ∧ isArrayName name = false))
  | byte | char | double | float | int | long | short | boolean | array _ => .isTrue trivial

theorem isArrayName_text (component : FieldType) : isArrayName (array component).text = true := by
  simp [isArrayName, text, chars]

/-- Only array types print with a bracket in front. -/
theorem isArrayName_text_iff : isArrayName t.text = true ↔ ∃ component, t = array component := by
  refine ⟨fun h => ?_, ?_⟩
  · cases t <;> simp [isArrayName, text, chars] at h ⊢
  · rintro ⟨component, rfl⟩
    exact isArrayName_text component

theorem ProperlyNamed.not_masks (h : t.ProperlyNamed) : ¬ t.Masks u := by
  cases u with
  | array component =>
    rintro rfl
    exact absurd (isArrayName_text component) (by simp [h.2])
  | _ => exact id

/-- Types that can be printed are told apart by what they print. -/
theorem eq_of_text_eq (ht : t.WellNamed) (hu : u.WellNamed) (h : t.text = u.text) : t = u :=
  Option.some.inj ((parse?_eq_some_iff.2 ⟨rfl, ht⟩).symm.trans (parse?_eq_some_iff.2 ⟨h, hu⟩))

theorem ofClassName?_text {component : FieldType} (h : component.WellNamed) :
    ofClassName? (array component).text = some (array component) := by
  rw [ofClassName?, if_pos (isArrayName_text component)]
  exact parse?_eq_some_iff.2 ⟨rfl, h⟩

/-- A name is that of the type it denotes. -/
theorem className?_of_ofClassName? (h : ofClassName? name = some t) : t.className? = some name := by
  unfold ofClassName? at h
  split at h
  · next ha =>
    obtain ⟨rfl, -⟩ := parse?_eq_some_iff.1 h
    obtain ⟨component, rfl⟩ := isArrayName_text_iff.1 ha
    rfl
  · split at h
    · cases h
    · cases h
      rfl

/-- No name is read as the object type that it is the name of. -/
theorem parse?_ne_object (name : String) : parse? name ≠ some (object name) := by
  intro h
  have := congrArg (fun s => s.toList.length) (parse?_eq_some_iff.1 h).1
  simp [text, chars] at this
  omega

/-- The name of a type leads back to it, unless it is an improper one. -/
theorem ofClassName?_className? (ht : t.WellNamed) (hr : t.isReference = true) :
    t.className?.bind ofClassName? = some t ↔ t.ProperlyNamed := by
  cases t with
  | object name =>
    change ofClassName? name = some (object name) ↔ name ≠ "" ∧ isArrayName name = false
    unfold ofClassName?
    split
    · next ha => simp [ha, parse?_ne_object]
    · next ha => split <;> simp_all
  | array component => exact iff_of_true (ofClassName?_text ht) trivial
  | _ => cases hr

/-- Two types have the same class name only if one of them bears the name of the other. -/
theorem className?_eq_iff (ht : t.WellNamed) (hu : u.WellNamed) (hr : t.isReference = true) :
    t.className? = u.className? ↔ t = u ∨ t.Masks u ∨ u.Masks t := by
  cases t with
  | object n => cases u <;> simp [className?, Masks]
  | array a =>
    cases u with
    | array b =>
      simp only [className?, Masks, Option.some.injEq, reduceCtorEq, or_false]
      exact ⟨eq_of_text_eq ht hu, congrArg text⟩
    | _ => simp [className?, Masks, eq_comm]
  | _ => cases hr

end FieldType

/-! ## Classes and types -/

/-- The type that a class is the class of. -/
def Class.type (c : Class) : FieldType :=
  c.declared.component.elim (.object c.name) .array

namespace Sources.Defines

variable {s : Sources} {name : String} {c : Class} {t : FieldType}

/-- The class under the name of a type is that of the type, or of the array type it bears the name
    of. -/
theorem type_eq_or_masks (h : s.Defines name c) (ht : t.WellNamed) (hn : t.className? = some name) :
    c.type = t ∨ t.Masks c.type := by
  cases h with
  | @array _ component _ _ _ _ hname =>
    change FieldType.array component = t ∨ t.Masks (.array component)
    have hc := FieldType.className?_of_ofClassName? hname
    cases t with
    | object n =>
      cases hn
      exact .inr (congrArg FieldType.object (Option.some.inj hc).symm)
    | array u =>
      cases hn
      exact .inl (Option.some.inj (hname.symm.trans (FieldType.ofClassName?_text ht)))
    | _ => cases hn
  | file hp _ hname _ _ _ _ _ _ _ hl =>
    obtain ⟨declared, hd, -, rfl⟩ := Loader.linkClass_ok hl
    obtain ⟨hdn, hdc⟩ := ClassFile.linkDeclaration_ok hd
    cases t with
    | object n =>
      cases hn
      exact .inl (by simp [Class.type, Class.name, hdc, hdn, hname])
    | array u =>
      cases hn
      exact absurd (FieldType.isArrayName_text u) (by simp [hp])
    | _ => cases hn

/-- An array class is defined just if the classes it is built on are. -/
theorem exists_array_iff (ht : t.WellNamed) :
    (∃ c, s.Defines (FieldType.array t).text c) ↔
      ∀ n ∈ t.className?.toList ++
        [ClassName.object, ClassName.cloneable, ClassName.serializable], ∃ e, s.Defines n e := by
  have hname := FieldType.ofClassName?_text ht
  constructor
  · rintro ⟨c, h⟩ n hn
    cases h with
    | @array _ component element _ _ _ hcomponent he hes ho hc hs =>
      obtain rfl : component = t := by simpa using hcomponent.symm.trans hname
      rcases List.mem_append.1 hn with hn | hn
      · have hn := Option.mem_toList.1 hn
        obtain ⟨e, rfl⟩ := Option.isSome_iff_exists.1 (he ▸ Option.isSome_of_mem hn)
        exact ⟨e, hes n hn e rfl⟩
      · simp only [List.mem_cons, List.not_mem_nil, or_false] at hn
        rcases hn with rfl | rfl | rfl
        exacts [⟨_, ho⟩, ⟨_, hc⟩, ⟨_, hs⟩]
    | file hp => simp [FieldType.isArrayName_text] at hp
  · intro h
    obtain ⟨object, ho⟩ := h ClassName.object (by simp)
    obtain ⟨cloneable, hc⟩ := h ClassName.cloneable (by simp)
    obtain ⟨serializable, hs⟩ := h ClassName.serializable (by simp)
    cases hn : t.className? with
    | none =>
      have he : t.className?.isSome = (none : Option Class).isSome := by rw [hn]; rfl
      exact ⟨_, .array hname he (by simp) ho hc hs⟩
    | some n =>
      obtain ⟨e, hd⟩ := h n (by simp [hn])
      have he : t.className?.isSome = (some e).isSome := by rw [hn]; rfl
      exact ⟨_, .array hname he (by simpa [hn] using hd) ho hc hs⟩

end Sources.Defines

/-- A class is that of the arrays of a type, and has for its elements the loaded class of the type's
    name. -/
structure Class.IsArrayOf (l : Loaded) (c : Class) (t : FieldType) : Prop where
  type : c.type = .array t
  primitive : t.isReference = false → c.element = none
  reference : t.isReference = true → ∃ e, c.element = some e ∧ t.className? = some e.name ∧
    l.get? e.name = some e ∧ (e.type = t ∨ t.Masks e.type)

theorem Class.component_of_type {c : Class} {t : FieldType} (h : c.type = .array t) :
    c.declared.component = some t := by
  unfold Class.type at h
  cases hc : c.declared.component <;> simp_all

/-- A loaded array class is built on the loaded class of its elements. -/
theorem Loaded.Consistent.isArrayOf {s : Sources} {l : Loaded} {c : Class} {t : FieldType}
    (h : Loaded.Consistent s l) (ht : t.WellNamed) (hc : l.get? (FieldType.array t).text = some c) :
    c.IsArrayOf l t := by
  have hd := h.sound _ c hc
  have htype : c.type = .array t :=
    (hd.type_eq_or_masks (t := .array t) ht rfl).resolve_right
      (FieldType.ProperlyNamed.not_masks trivial)
  have hcomponent := Class.component_of_type htype
  refine ⟨htype, fun hr => ?_, fun hr => ?_⟩
  · by_contra he
    obtain ⟨e, he⟩ := Option.ne_none_iff_exists'.1 he
    rw [hd.isReference hcomponent he] at hr
    cases hr
  · obtain ⟨e, he, hn, hde⟩ := hd.element_of_component hcomponent hr
    exact ⟨e, he, hn, h.closed _ c hc e (Class.mem_parts.2 (by simp [he])),
      hde.type_eq_or_masks ht hn⟩

namespace Loader

variable {s : Sources} {l : Loaded} {t : FieldType}

/-- Loading an array class resolves the class of its elements. -/
theorem load_isArrayOf (hl : Loaded.Consistent s l) (ht : t.WellNamed) {c : Class} {l' : Loaded}
    (h : outcome (load s [] (FieldType.array t).text) l = (.ok c, l')) : c.IsArrayOf l' t := by
  have entered := load_enters s [] (FieldType.array t).text [] l hl.holds_nil
  rw [h] at entered
  have hc := entered.entered c (by simp)
  have hd := (load_iff hl.sound).1 (congrArg Prod.fst h)
  rw [hd.name_eq] at hc
  exact entered.toConsistent.isArrayOf ht hc

end Loader

namespace FieldType

/-- **Class names and reference types go together, but for types that bear the name of others.**  A
    type that descriptors can speak of is the one that its class name leads back to just if it is
    properly named; a name that leads to it is its own.  Another such type has the same name only if
    one of the two bears the name of the other, which no properly named one does.  Loading the class
    of the arrays of the type succeeds just if the classes it is built on are defined, and its elements
    are of the class of the type, or of the array class that the type bears the name of. -/
theorem classNames_denote {text : String} {t : FieldType} (ht : parse? text = some t) :
    (t.isReference = true →
      (t.className?.bind ofClassName? = some t ↔ t.ProperlyNamed) ∧
      ∀ text' u, parse? text' = some u →
        (t.className? = u.className? ↔ t = u ∨ t.Masks u ∨ u.Masks t)) ∧
    (∀ name, ofClassName? name = some t → t.className? = some name) ∧
    (t.ProperlyNamed → ∀ u, ¬ t.Masks u) ∧
    ∀ (s : Sources) (l : Loaded), Loaded.Consistent s l →
      ((∃ c, (outcome (Loader.load s [] (array t).text) l).1 = .ok c) ↔
        ∀ n ∈ t.className?.toList ++
          [ClassName.object, ClassName.cloneable, ClassName.serializable], ∃ e, s.Defines n e) ∧
      ∀ c l', outcome (Loader.load s [] (array t).text) l = (.ok c, l') → c.IsArrayOf l' t := by
  have wellNamed {text : String} {t : FieldType} (h : parse? text = some t) : t.WellNamed :=
    (parse?_eq_some_iff.1 h).2
  have hw := wellNamed ht
  refine ⟨fun hr => ⟨ofClassName?_className? hw hr, fun text' u hu => ?_⟩,
    fun name h => className?_of_ofClassName? h, fun h u => h.not_masks,
    fun s l hl => ⟨?_, fun c l' h => Loader.load_isArrayOf hl hw h⟩⟩
  · exact className?_eq_iff hw (wellNamed hu) hr
  · simp only [Loader.load_iff hl.sound]
    exact Sources.Defines.exists_array_iff hw

/-- The class of arrays of arrays of `java/lang/String` has that of arrays of `java/lang/String` for
    its elements. -/
theorem classNames_denote_strings :
    ∃ t c l' e, parse? "[Ljava/lang/String;" = some t ∧ t.className?.bind ofClassName? = some t ∧
      outcome (Loader.load (Sources.ofFiles []) [] (array t).text) .empty = (.ok c, l') ∧
      c.element = some e ∧ l'.get? "[Ljava/lang/String;" = some e ∧ e.type = t := by
  have hparse : parse? "[Ljava/lang/String;" = some (array (object "java/lang/String")) := by
    decide +kernel
  have loads : ((Sources.ofFiles []).class? "[[Ljava/lang/String;").isSome = true := by
    decide +kernel
  obtain ⟨back, -, proper, built⟩ := classNames_denote hparse
  have hl := (Loaded.Arises.empty (Sources.ofFiles [])).consistent
  obtain ⟨c, hc⟩ := Option.isSome_iff_exists.1 loads
  have hc := (Loader.load_iff hl.sound).2 (Sources.class?_eq_some.1 hc)
  obtain ⟨e, he, hn, hloaded, htype⟩ := ((built _ _ hl).2 c _ (Prod.ext hc rfl)).reference rfl
  have hname : e.name = "[Ljava/lang/String;" := (Option.some.inj hn).symm
  exact ⟨_, c, _, e, hparse, (back rfl).1.2 trivial, Prod.ext hc rfl, he, hname ▸ hloaded,
    htype.resolve_right (proper trivial _)⟩

/-- The descriptor `L[I;` is read, as a type with the class name of `int[]`: the name does not lead
    back to it, and the arrays of the type have arrays of `int` for elements.  So is `L;`, as a type
    whose name leads nowhere. -/
theorem not_ofClassName?_className? :
    parse? "L[I;" = some (object "[I") ∧ array int ≠ object "[I" ∧
      (object "[I").className?.bind ofClassName? = some (array int) ∧
      (object "[I").className? = (array int).className? ∧
      ((Sources.ofFiles []).class? "[L[I;").any
        (fun c => c.element.any fun e => e.type = array int) = true ∧
      parse? "L;" = some (object "") ∧ (object "").className?.bind ofClassName? = none := by
  decide +kernel

end FieldType

end GreenVm
