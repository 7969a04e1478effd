/-
  Where the fields of an object are.

  * `Sources.Defines.layout_isPrefix`: the slots of a class are the first ones of every class below it.
  * `Class.Plain`: the names of the class and of its instance fields hold neither of the marks that
    keys are made with.
  * `FieldSlot.answersTo_iff`: then the qualified key of a field names no slot but that of the field.
  * `Class.HasField D name descriptor slot`: the slot that a reference to a field of `D` comes to.
  * `Sources.Defines.slot_eq_iff`: in an object of a class below them, two fields share a slot only if
    they are one.
-/
import GreenVm.Class.Fields
import GreenVm.Proofs.Linking
import GreenVm.Proofs.Subtyping

namespace GreenVm

/-! ## Keys -/

/-- The text holds neither of the marks that keys are made with. -/
structure IsPlain (text : String) : Prop where
  dot : '.' ∉ text.toList
  colon : ':' ∉ text.toList

instance : DecidablePred IsPlain := fun text =>
  decidable_of_iff ('.' ∉ text.toList ∧ ':' ∉ text.toList)
    ⟨fun h => ⟨h.1, h.2⟩, fun h => ⟨h.dot, h.colon⟩⟩

/-- A text is cut in one way at the first place where a mark stands. -/
theorem append_mark_inj {α : Type} {mark : α} : ∀ {as bs cs ds : List α}, mark ∉ as → mark ∉ bs →
    as ++ mark :: cs = bs ++ mark :: ds → as = bs ∧ cs = ds
  | [], [], _, _, _, _, h => ⟨rfl, (List.cons.inj h).2⟩
  | [], b :: _, _, _, _, hb, h => absurd (List.cons.inj h).1 fun e => hb (by simp [e])
  | a :: _, [], _, _, ha, _, h => absurd (List.cons.inj h).1 fun e => ha (by simp [e])
  | a :: as, b :: bs, _, _, ha, hb, h => by
    obtain ⟨rfl, htail⟩ := List.cons.inj h
    obtain ⟨hab, hcd⟩ := append_mark_inj (fun e => ha (List.mem_cons_of_mem _ e))
      (fun e => hb (List.mem_cons_of_mem _ e)) htail
    exact ⟨congrArg (a :: ·) hab, hcd⟩

namespace FieldSlot

variable {s : FieldSlot} {owner name descriptor : String}

/-- **The qualified key of a field names no slot but that of the field**, if all names are plain.  In
    particular it is not the short key of any field, since those have no dot before the colon. -/
theorem answersTo_iff (hs : IsPlain s.owner) (hf : IsPlain s.field.name) (ho : IsPlain owner)
    (hn : IsPlain name) :
    s.answersTo (owner ++ "." ++ name ++ ":" ++ descriptor) = true ↔
      s.owner = owner ∧ s.field.isNamed name descriptor = true := by
  have hqualified : s.field.qualifiedKey s.owner = owner ++ "." ++ name ++ ":" ++ descriptor ↔
      s.owner = owner ∧ s.field.name = name ∧ s.field.descriptor = descriptor := by
    constructor
    · intro h
      have h : s.owner.toList ++ '.' :: (s.field.name.toList ++ ':' :: s.field.descriptor.toList) =
          owner.toList ++ '.' :: (name.toList ++ ':' :: descriptor.toList) := by
        simpa [Field.qualifiedKey, Field.key] using congrArg String.toList h
      obtain ⟨howner, h⟩ := append_mark_inj hs.dot ho.dot h
      obtain ⟨hname, hdescriptor⟩ := append_mark_inj hf.colon hn.colon h
      exact ⟨String.toList_inj.1 howner, String.toList_inj.1 hname, String.toList_inj.1 hdescriptor⟩
    · rintro ⟨rfl, rfl, rfl⟩
      simp [Field.qualifiedKey, Field.key, String.append_assoc]
  have hshort : s.field.key ≠ owner ++ "." ++ name ++ ":" ++ descriptor := by
    intro h
    have h : s.field.name.toList ++ ':' :: s.field.descriptor.toList =
        (owner.toList ++ '.' :: name.toList) ++ ':' :: descriptor.toList := by
      simpa [Field.key] using congrArg String.toList h
    have hcolon : ':' ∉ owner.toList ++ '.' :: name.toList := by
      simp [ho.colon, hn.colon]
    have hdot := hf.dot
    rw [(append_mark_inj hf.colon hcolon h).1] at hdot
    simp at hdot
  simp only [answersTo, Bool.or_eq_true, beq_iff_eq, hqualified, hshort, or_false, Field.isNamed,
    Bool.and_eq_true]

end FieldSlot

/-! ## Layouts -/

namespace Class

variable {c k : Class} {key name descriptor : String} {slot : Nat}

/-- The slots that a class has from above come first, then those of the fields it declares. -/
theorem layout_eq (c : Class) : c.layout = if c.declared.component.isSome then [] else
    c.superClass.elim [] layout ++ c.declared.instanceFields.map (⟨c.name, ·⟩) := by
  obtain ⟨declared, superClass, interfaces, element⟩ := c
  cases superClass <;> rw [layout] <;> rfl

theorem layout_of_array (h : c.declared.component.isSome = true) : c.layout = [] := by
  rw [layout_eq, if_pos h]

theorem layout_superClass {d : Class} (h : c.declared.component.isSome = false)
    (hd : c.superClass = some d) :
    c.layout = d.layout ++ c.declared.instanceFields.map (⟨c.name, ·⟩) := by
  rw [layout_eq, hd, if_neg (by simp [h])]
  rfl

/-- A slot is that of a field which a class of the lineage declares. -/
theorem mem_layout : ∀ {c : Class} {s : FieldSlot}, s ∈ c.layout →
    ∃ k ∈ c.lineage, k.name = s.owner ∧ s.field ∈ k.declared.instanceFields
  | ⟨declared, superClass, interfaces, element⟩, s, hs => by
    rw [layout_eq] at hs
    split at hs
    · cases hs
    · rcases List.mem_append.1 hs with hs | hs
      · cases superClass with
        | none => cases hs
        | some d =>
          obtain ⟨k, hk, hfield⟩ := mem_layout (c := d) hs
          exact ⟨k, lineage_superClass rfl hk, hfield⟩
      · obtain ⟨f, hf, rfl⟩ := List.mem_map.1 hs
        exact ⟨_, mem_lineage_self _, rfl, hf⟩

/-- What a key names is a slot that answers to it. -/
theorem slot?_eq_some (h : c.slot? key = some slot) :
    ∃ s, c.layout[slot]? = some s ∧ s.answersTo key = true := by
  obtain ⟨i, hi, rfl⟩ := Option.map_eq_some_iff.1 h
  obtain ⟨hlt, hanswers, -⟩ := List.findIdx?_eq_some_iff_getElem.1 hi
  rw [List.getElem_reverse] at hanswers
  exact ⟨_, List.getElem?_eq_getElem _, hanswers⟩

/-- The names of the class and of its instance fields are plain. -/
structure Plain (c : Class) : Prop where
  name : IsPlain c.name
  fields : ∀ f ∈ c.declared.instanceFields, IsPlain f.name

instance : DecidablePred Plain := fun c =>
  decidable_of_iff (IsPlain c.name ∧ ∀ f ∈ c.declared.instanceFields, IsPlain f.name)
    ⟨fun h => ⟨h.1, h.2⟩, fun h => ⟨h.name, h.fields⟩⟩

/-- The class declares an instance field of a name and descriptor, and references to it come to a
    slot. -/
structure HasField (c : Class) (name descriptor : String) (slot : Nat) : Prop where
  declared : c.declared.instanceFields.any (·.isNamed name descriptor) = true
  slot?_eq : c.slot? (c.name ++ "." ++ name ++ ":" ++ descriptor) = some slot

/-- A reference to an instance field means one of a class above, or of the class itself. -/
theorem hasField_of_fieldSite (h : c.fieldSite name descriptor = .ok (.instanceSlot k slot)) :
    k ∈ c.lineage ∧ k.HasField name descriptor slot := by
  unfold fieldSite at h
  split at h
  · next site hs =>
    cases h
    obtain ⟨d, hd, hs⟩ := List.exists_of_findSome?_eq_some hs
    unfold fieldSiteHere? at hs
    split at hs
    · next hdeclared =>
      dsimp only at hs
      split at hs
      · next slot' hslot =>
        cases hs
        exact ⟨hd, hdeclared, hslot⟩
      · cases hs
    · obtain ⟨site, hs, he⟩ := Option.map_eq_some_iff.1 hs
      cases he
      obtain ⟨i, -, hi⟩ := List.exists_of_findSome?_eq_some hs
      obtain ⟨n, -, hn⟩ := Option.map_eq_some_iff.1 hi
      cases hn
  · cases h
  · cases h

end Class

/-! ## Linked fields -/

theorem ClassFile.linkDeclaration_instanceFields {file : ClassFile} {d : Declaration}
    (h : file.linkDeclaration = .ok d) :
    (∀ f ∈ d.instanceFields, FieldType.parse? f.descriptor = some f.type) ∧
      (file.fields = [] → d.instanceFields = []) := by
  obtain ⟨_, -, h⟩ := except_bind_eq_ok.1 h
  obtain ⟨fields, hfields, h⟩ := except_bind_eq_ok.1 h
  obtain ⟨methods, -, h⟩ := except_bind_eq_ok.1 h
  cases h
  rw [mapM_eq_ok] at hfields
  constructor
  · intro f hf
    obtain ⟨⟨static, f'⟩, hf', rfl⟩ := List.mem_map.1 hf
    obtain ⟨decl, -, hdecl⟩ := forall₂_mem_right hfields (List.mem_filter.1 hf').1
    obtain ⟨linked, hlink, hpair⟩ := except_bind_eq_ok.1 hdecl
    cases hpair
    unfold FieldDecl.link at hlink
    split at hlink
    · cases hlink
    · next type htype =>
      cases hlink
      exact htype
  · intro he
    rw [he, List.forall₂_nil_left_iff] at hfields
    rw [hfields]
    rfl

namespace Sources.Defines

variable {s : Sources} {name : String} {c k k' : Class}

/-- The type of a field is that of its descriptor. -/
theorem parse?_descriptor (h : s.Defines name c) {f : Field} (hf : f ∈ c.declared.instanceFields) :
    FieldType.parse? f.descriptor = some f.type := by
  cases h with
  | array => cases hf
  | file _ _ _ _ _ _ _ _ _ _ hl =>
    obtain ⟨declared, hd, -, rfl⟩ := Loader.linkClass_ok hl
    exact (ClassFile.linkDeclaration_instanceFields hd).1 f hf

/-- The class of all objects has no fields. -/
theorem object_layout (h : s.Defines ClassName.object c) : c.layout = [] := by
  have hfields : c.declared.instanceFields = [] := by
    obtain ⟨file, hbuiltin, hnone⟩ : ∃ file, Library.classFiles.get? ClassName.object = some file ∧
        file.fields = [] := ⟨_, rfl, by decide +kernel⟩
    cases h with
    | array => rfl
    | file _ hf _ _ _ _ _ _ _ _ hl =>
      rw [find?, hbuiltin] at hf
      obtain rfl := Option.some.inj hf
      obtain ⟨declared, hd, -, rfl⟩ := Loader.linkClass_ok hl
      exact (ClassFile.linkDeclaration_instanceFields hd).2 hnone
  rw [Class.layout_eq, h.object_top.2.1, hfields]
  simp

/-- **The slots of a class are the first ones of every class below it**, so they are the same ones in
    all objects that have them. -/
theorem layout_isPrefix : ∀ {c : Class}, s.Defines c.name c → k ∈ c.lineage → k.layout <+: c.layout
  | ⟨declared, none, interfaces, element⟩, _, hk => by
    rw [Class.lineage, List.mem_singleton] at hk
    exact hk ▸ List.prefix_rfl
  | ⟨declared, some d, interfaces, element⟩, h, hk => by
    rw [Class.lineage, List.mem_cons] at hk
    rcases hk with rfl | hk
    · exact List.prefix_rfl
    have above := layout_isPrefix (h.superClass rfl) hk
    cases ha : declared.component.isSome with
    | false =>
      rw [Class.layout_superClass (c := ⟨declared, some d, interfaces, element⟩) ha rfl]
      exact above.trans (List.prefix_append _ _)
    | true =>
      -- above arrays there is only the class of all objects
      obtain ⟨object, hs, ho⟩ := h.array_top ha
      cases hs
      rw [ho.object_layout, List.prefix_nil] at above
      rw [above]
      exact List.nil_prefix

/-- The slot of a field is there in all objects that have the field. -/
theorem slot_lt (h : s.Defines c.name c) (hk : k ∈ c.lineage) {field descriptor : String} {i : Nat}
    (hf : k.HasField field descriptor i) : i < c.layout.length := by
  obtain ⟨slot, hslot, -⟩ := Class.slot?_eq_some hf.slot?_eq
  obtain ⟨hlt, -⟩ := List.getElem?_eq_some_iff.1 hslot
  exact Nat.lt_of_lt_of_le hlt (h.layout_isPrefix hk).length_le

/-- The slot is that of the field. -/
theorem layout_getElem? (h : s.Defines c.name c) (hp : ∀ k ∈ c.lineage, k.Plain) (hk : k ∈ c.lineage)
    {field descriptor : String} {i : Nat} (hf : k.HasField field descriptor i) :
    ∃ f, c.layout[i]? = some ⟨k.name, f⟩ ∧ f.isNamed field descriptor = true ∧
      FieldType.parse? descriptor = some f.type := by
  obtain ⟨⟨owner, f⟩, hslot, hanswers⟩ := Class.slot?_eq_some hf.slot?_eq
  have hin : c.layout[i]? = some ⟨owner, f⟩ := by
    obtain ⟨hlt, -⟩ := List.getElem?_eq_some_iff.1 hslot
    obtain ⟨rest, hrest⟩ := h.layout_isPrefix hk
    rw [← hrest, List.getElem?_append_left hlt]
    exact hslot
  obtain ⟨d, hd, rfl, hfield⟩ := Class.mem_layout (List.mem_of_getElem? hin)
  have hplain : IsPlain field := by
    obtain ⟨g, hg, hnamed⟩ := List.any_eq_true.1 hf.declared
    obtain ⟨hname, -⟩ := Bool.and_eq_true_iff.1 hnamed
    exact eq_of_beq hname ▸ (hp k hk).fields g hg
  obtain ⟨howner, hnamed⟩ := (FieldSlot.answersTo_iff (hp d hd).name ((hp d hd).fields f hfield)
    (hp k hk).name hplain).1 hanswers
  refine ⟨f, howner ▸ hin, hnamed, ?_⟩
  rw [← eq_of_beq (Bool.and_eq_true_iff.1 hnamed).2]
  exact (h.lineage d hd).parse?_descriptor hfield

/-- **Two fields of an object share a slot only if they are one**: declared by the same class under the
    same name and descriptor. -/
theorem slot_eq_iff (h : s.Defines c.name c) (hp : ∀ k ∈ c.lineage, k.Plain) (hk : k ∈ c.lineage)
    (hk' : k' ∈ c.lineage) {field descriptor field' descriptor' : String} {i j : Nat}
    (hf : k.HasField field descriptor i) (hf' : k'.HasField field' descriptor' j) :
    i = j ↔ k.name = k'.name ∧ field = field' ∧ descriptor = descriptor' := by
  constructor
  · rintro rfl
    obtain ⟨f, hslot, hnamed, -⟩ := h.layout_getElem? hp hk hf
    obtain ⟨f', hslot', hnamed', -⟩ := h.layout_getElem? hp hk' hf'
    obtain ⟨hname, rfl⟩ := FieldSlot.mk.inj (Option.some.inj (hslot.symm.trans hslot'))
    obtain ⟨hfield, hdescriptor⟩ := Bool.and_eq_true_iff.1 hnamed
    obtain ⟨hfield', hdescriptor'⟩ := Bool.and_eq_true_iff.1 hnamed'
    exact ⟨hname, (eq_of_beq hfield).symm.trans (eq_of_beq hfield'),
      (eq_of_beq hdescriptor).symm.trans (eq_of_beq hdescriptor')⟩
  · rintro ⟨hname, rfl, rfl⟩
    obtain rfl := (h.lineage k hk).unique (hname ▸ h.lineage k' hk')
    exact Option.some.inj (hf.slot?_eq.symm.trans hf'.slot?_eq)

end Sources.Defines

end GreenVm
