/-
  Reading descriptors and printing them.

  * `FieldType.WellNamed`, `MethodDescriptor.WellNamed`: no class name holds the `;` that ends it in
    print.  These are the types the grammar of descriptors speaks of.
  * `FieldType.read_append`: a printed type is read back, and what follows it is left alone.
  * `FieldType.readAll_eq_iff`: reading types for as long as there is one takes exactly the types
    printed in front of a text that starts with none.
  * `descriptors_denote`: a text is read as a type exactly if it is what the type prints, so that
    the readers accept the texts of the grammar and no others, each in one way.
-/
import GreenVm.Descriptor
import Mathlib.Logic.ExistsUnique

namespace GreenVm

variable {cs rest : List Char} {s : String}

/-! ## Field types -/

namespace FieldType

variable {t u : FieldType} {ts : List FieldType}

/-- No class name in the type holds a `;`. -/
def WellNamed : FieldType → Prop
  | object name => ';' ∉ name.toList
  | array component => component.WellNamed
  | _ => True

instance WellNamed.decide : DecidablePred WellNamed
  | object name => inferInstanceAs (Decidable (';' ∉ name.toList))
  | array component => WellNamed.decide component
  | byte | char | double | float | int | long | short | boolean => .isTrue trivial

/-- A class name is all that stands in front of the first `;`. -/
theorem read_object {name : List Char} (h : ';' ∉ name) :
    read ('L' :: (name ++ ';' :: rest)) = some (object (String.ofList name), rest) := by
  have hp : ∀ c ∈ name, (c != ';') = true := fun c hc => by
    rw [bne_iff_ne]
    rintro rfl
    exact h hc
  have ht : (name ++ ';' :: rest).takeWhile (· != ';') = name := by
    rw [List.takeWhile_append_of_pos hp]
    simp
  have hd : (name ++ ';' :: rest).dropWhile (· != ';') = ';' :: rest := by
    rw [List.dropWhile_append_of_pos hp]
    simp
  simp only [read, hd, ht]

/-- A printed type is read back, whatever follows it. -/
theorem read_append (h : t.WellNamed) (rest : List Char) :
    read (t.chars ++ rest) = some (t, rest) := by
  induction t with
  | object name =>
    rw [chars, List.cons_append, List.append_assoc, List.singleton_append, read_object h,
      String.ofList_toList]
  | array component ih => simp [chars, read, ih h]
  | _ => rfl

/-- What is read has well-formed names: the reader stops a name at its first `;`. -/
theorem wellNamed_of_read (h : read cs = some (t, rest)) : t.WellNamed := by
  fun_induction read cs generalizing t rest with
  | case9 | case12 => simp at h
  | case10 cs c rest' hd =>
    simp only [Option.some.injEq, Prod.mk.injEq] at h
    obtain ⟨rfl, -⟩ := h
    intro hc
    rw [String.toList_ofList] at hc
    have := List.all_takeWhile (p := (· != ';')) (l := cs)
    simpa using List.all_eq_true.1 this _ hc
  | case11 cs ih =>
    simp only [Option.map_eq_some_iff, Prod.exists, Prod.mk.injEq] at h
    obtain ⟨u, r, hr, rfl, rfl⟩ := h
    have hu : u.WellNamed := ih hr
    exact hu
  | _ =>
    simp only [Option.some.injEq, Prod.mk.injEq] at h
    obtain ⟨rfl, -⟩ := h
    trivial

/-- The reader takes a type off a text exactly if the text starts with what the type prints. -/
theorem read_eq_some_iff :
    read cs = some (t, rest) ↔ cs = t.chars ++ rest ∧ t.WellNamed := by
  refine ⟨fun h => ⟨read_eq h, wellNamed_of_read h⟩, ?_⟩
  rintro ⟨rfl, h⟩
  exact read_append h rest

theorem parse?_eq_some_iff : parse? s = some t ↔ s = t.text ∧ t.WellNamed := by
  have hp : parse? s = some t ↔ read s.toList = some (t, []) := by
    unfold parse?
    split <;> simp_all
  rw [hp, read_eq_some_iff, List.append_nil, text, ← String.toList_inj, String.toList_ofList]

/-! ## Several types in a row -/

theorem readAll_of_none (h : read cs = none) : readAll cs = ([], cs) := by
  rw [readAll]
  split <;> simp_all

theorem readAll_of_some (h : read cs = some (t, rest)) :
    readAll cs = (t :: (readAll rest).1, (readAll rest).2) := by
  rw [readAll]
  split <;> simp_all

/-- Reading for as long as there is a type to read takes exactly the types that are printed in front
    of a text that starts with none. -/
theorem readAll_eq_iff :
    readAll cs = (ts, rest) ↔
      cs = ts.flatMap chars ++ rest ∧ (∀ t ∈ ts, t.WellNamed) ∧ read rest = none := by
  constructor
  · intro h
    fun_induction readAll cs generalizing ts rest with
    | case1 cs hr =>
      obtain ⟨rfl, rfl⟩ := Prod.mk.inj h
      exact ⟨rfl, by simp, hr⟩
    | case2 cs t cs' hr _ us last hrec ih =>
      obtain ⟨rfl, rfl⟩ := Prod.mk.inj h
      obtain ⟨rfl, hus, hlast⟩ := ih hrec
      obtain ⟨rfl, ht⟩ := read_eq_some_iff.1 hr
      refine ⟨by simp, ?_, hlast⟩
      rintro u (_ | ⟨_, hu⟩)
      · exact ht
      · exact hus u hu
  · rintro ⟨rfl, hts, hrest⟩
    induction ts with
    | nil => exact readAll_of_none hrest
    | cons t ts ih =>
      have ht := read_append (hts t (by simp)) (ts.flatMap chars ++ rest)
      rw [List.flatMap_cons, List.append_assoc, readAll_of_some ht,
        ih fun u hu => hts u (List.mem_cons_of_mem t hu)]

end FieldType

/-! ## Methods -/

/-- No class name in the return type holds a `;`. -/
def ReturnType.WellNamed (t : ReturnType) : Prop := ∀ u ∈ t, u.WellNamed

/-- The return type is read off a text exactly if the text starts with what it prints. -/
theorem readReturn_eq_some_iff {t : ReturnType} :
    readReturn cs = some (t, rest) ↔
      cs = MethodDescriptor.returnChars t ++ rest ∧ t.WellNamed := by
  cases t with
  | none =>
    have hV : FieldType.read ('V' :: rest) = none := rfl
    simp only [MethodDescriptor.returnChars, List.singleton_append, readReturn]
    constructor
    · intro h
      split at h <;> simp_all [ReturnType.WellNamed]
    · rintro ⟨rfl, -⟩
      simp only [hV]
  | some u =>
    have hu : ReturnType.WellNamed (some u) ↔ u.WellNamed := by simp [ReturnType.WellNamed]
    rw [hu, MethodDescriptor.returnChars, ← FieldType.read_eq_some_iff]
    simp only [readReturn]
    split <;> simp_all

namespace MethodDescriptor

variable {d : MethodDescriptor}

/-- No class name in the parameters and in the return type holds a `;`. -/
structure WellNamed (d : MethodDescriptor) : Prop where
  parameters : ∀ t ∈ d.parameters, t.WellNamed
  returnType : d.returnType.WellNamed

/-- What is read between the parentheses and behind them. -/
theorem parse?_eq_some_iff_read :
    parse? s = some d ↔ ∃ cs rest, s.toList = '(' :: cs ∧
      FieldType.readAll cs = (d.parameters, ')' :: rest) ∧
      readReturn rest = some (d.returnType, []) := by
  constructor
  · intro h
    unfold parse? at h
    split at h
    · next cs hs =>
      split at h
      · next ps rest hps =>
        split at h
        · next t ht =>
          obtain rfl := Option.some.inj h
          exact ⟨cs, rest, hs, hps, ht⟩
        · simp at h
      · simp at h
    · simp at h
  · rintro ⟨cs, rest, hs, hps, ht⟩
    simp [parse?, hs, hps, ht]

theorem parse?_eq_some_iff : parse? s = some d ↔ s = d.text ∧ d.WellNamed := by
  have hp : ∀ rest, FieldType.read (')' :: rest) = none := fun _ => rfl
  rw [parse?_eq_some_iff_read, text, ← String.toList_inj, String.toList_ofList]
  constructor
  · rintro ⟨cs, rest, hs, hps, ht⟩
    obtain ⟨rfl, hnames, -⟩ := FieldType.readAll_eq_iff.1 hps
    obtain ⟨rfl, hname⟩ := readReturn_eq_some_iff.1 ht
    exact ⟨by simpa using hs, hnames, hname⟩
  · rintro ⟨hs, hnames, hname⟩
    refine ⟨_, _, hs, FieldType.readAll_eq_iff.2 ⟨rfl, hnames, hp _⟩, ?_⟩
    exact readReturn_eq_some_iff.2 ⟨(List.append_nil _).symm, hname⟩

/-- The printed form, part by part. -/
theorem text_eq (d : MethodDescriptor) :
    d.text = "(" ++ String.join (d.parameters.map FieldType.text) ++ ")" ++
      d.returnType.elim "V" FieldType.text := by
  have hps : ∀ ts : List FieldType,
      (String.join (ts.map FieldType.text)).toList = ts.flatMap FieldType.chars := by
    intro ts
    induction ts with
    | nil => rfl
    | cons t ts ih => simp [ih, FieldType.text]
  have ht : (d.returnType.elim "V" FieldType.text).toList = returnChars d.returnType := by
    cases d.returnType with
    | none => rfl
    | some t => simp [FieldType.text, returnChars]
  rw [← String.toList_inj, text]
  simp [hps, ht]

end MethodDescriptor

/-! ## Texts and types -/

/-- What is found is the only thing of its kind, when finding it says which kind that is. -/
theorem isSome_iff_existsUnique {α : Type} {x : Option α} {p : α → Prop}
    (h : ∀ a, x = some a ↔ p a) : x.isSome ↔ ∃! a, p a := by
  simp only [Option.isSome_iff_exists, ← h]
  constructor
  · rintro ⟨a, ha⟩
    exact ⟨a, ha, fun b hb => Option.some.inj (hb.symm.trans ha)⟩
  · rintro ⟨a, ha, -⟩
    exact ⟨a, ha⟩

/-- **A text is read as a type exactly if it is what the type prints** and the names in the type are
    ones that can be printed, for field types and for methods alike.  So the texts that are read are
    those of the grammar, nothing may follow them, and each is the print of one type only. -/
theorem descriptors_denote :
    (∀ s t, FieldType.parse? s = some t ↔ s = t.text ∧ t.WellNamed) ∧
    (∀ s d, MethodDescriptor.parse? s = some d ↔
      s = "(" ++ String.join (d.parameters.map FieldType.text) ++ ")" ++
        d.returnType.elim "V" FieldType.text ∧ d.WellNamed) ∧
    (∀ s, (FieldType.parse? s).isSome ↔ ∃! t : FieldType, t.text = s ∧ t.WellNamed) ∧
    (∀ s, (MethodDescriptor.parse? s).isSome ↔
      ∃! d : MethodDescriptor, d.text = s ∧ d.WellNamed) := by
  refine ⟨fun s t => FieldType.parse?_eq_some_iff, fun s d => ?_, fun s => isSome_iff_existsUnique fun t => ?_,
    fun s => isSome_iff_existsUnique fun d => ?_⟩
  · rw [MethodDescriptor.parse?_eq_some_iff, MethodDescriptor.text_eq]
  · rw [FieldType.parse?_eq_some_iff, eq_comm]
  · rw [MethodDescriptor.parse?_eq_some_iff, eq_comm]

/-- A name with a `;` in it prints as a text that is read otherwise, here not at all. -/
example : ¬ (FieldType.object "a;b").WellNamed ∧
    FieldType.parse? (FieldType.object "a;b").text = none := by decide +kernel

end GreenVm
