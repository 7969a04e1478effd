/-
  Loading: every class is defined at most once per name, after the classes above it.

  `Loader.load` returns the class of a name, defining it and whatever it needs if it must.  `path`
  holds the names whose definition is under way; a class that needs itself is refused.  A failure
  defines nothing under the name it was asked for, but classes that were completed on the way stay.

  Loading ends because a class whose definition is under way is not begun again, and because the
  name of an array's elements is shorter than the name of the array; `Sources.remaining` counts
  both.
-/
import GreenVm.Class.Linking
import GreenVm.Library.Classes

namespace GreenVm

/-- Where classes come from.  The built-in classes come first, so no class path replaces them. -/
structure Sources where
  classPath : Table String ClassFile
  natives : Natives
  /-- Whether a class with a native method that nobody provides is refused. -/
  eager : Bool
  deriving Inhabited

namespace Sources

/-- The class file for a name. -/
def find? (s : Sources) (name : String) : Option ClassFile :=
  (Library.classFiles.get? name).or (s.classPath.get? name)

/-- All names there is a class file for. -/
def names (s : Sources) : List String := Library.classFiles.keys ++ s.classPath.keys

theorem mem_names_of_find? {s : Sources} {name : String} {file : ClassFile}
    (h : s.find? name = some file) : name ∈ s.names := by
  simp only [find?, Option.or_eq_some_iff] at h
  rcases h with h | ⟨_, h⟩
  · exact List.mem_append_left _ (Table.mem_keys_of_get? h)
  · exact List.mem_append_right _ (Table.mem_keys_of_get? h)

/-- How many names could still be begun. -/
def fresh (s : Sources) (path : List String) : Nat :=
  (s.names.filter (· ∉ path)).length

theorem fresh_cons_le (s : Sources) (path : List String) (name : String) :
    s.fresh (name :: path) ≤ s.fresh path := by
  unfold fresh
  rw [← List.countP_eq_length_filter, ← List.countP_eq_length_filter]
  exact List.countP_mono_left fun x _ h => by simp_all

theorem fresh_cons_lt {s : Sources} {path : List String} {name : String} {file : ClassFile}
    (hp : name ∉ path) (hf : s.find? name = some file) : s.fresh (name :: path) < s.fresh path := by
  unfold fresh
  have hs : (s.names.filter (· ∉ name :: path)) =
      (s.names.filter (· ∉ path)).filter (· ≠ name) := by
    rw [List.filter_filter]
    congr 1
    funext x
    simp
  rw [hs]
  exact List.length_filter_lt_length_iff_exists.2
    ⟨name, List.mem_filter.2 ⟨mem_names_of_find? hf, by simpa using hp⟩, by simp⟩

end Sources

/-- Zero for a class, and for an array more than for its elements. -/
def arrayRank (name : String) : Nat :=
  if isArrayName name then name.toList.length + 1 else 0

theorem arrayRank_le (name : String) : arrayRank name ≤ name.toList.length + 1 := by
  unfold arrayRank
  split <;> omega

/-- The class name of a type is no longer than its descriptor. -/
theorem FieldType.length_of_className? {t : FieldType} {name : String}
    (h : t.className? = some name) : name.toList.length ≤ t.chars.length := by
  cases t with
  | object n =>
    obtain rfl : n = name := by simpa [className?] using h
    simp [chars]
    omega
  | array c =>
    obtain rfl : (array c).text = name := by simpa [className?] using h
    simp [text]
  | _ => simp [className?] at h

/-- Plain classes are below every array class. -/
theorem arrayRank_lt_of_plain {name plain : String} (h : isArrayName name = true)
    (hp : isArrayName plain = false) : arrayRank plain < arrayRank name := by
  simp [arrayRank, h, hp]

/-- The components of an array class are of lower rank. -/
theorem arrayRank_lt {name elementName : String} {component : FieldType}
    (h : FieldType.ofClassName? name = some (.array component))
    (he : component.className? = some elementName) : arrayRank elementName < arrayRank name := by
  have ha : isArrayName name = true := by
    unfold FieldType.ofClassName? at h
    split at h
    · assumption
    · split at h <;> simp at h
  have hn : name.toList = '[' :: component.chars := by
    simp only [FieldType.ofClassName?, ha, if_true, FieldType.parse?] at h
    split at h
    · next t hr =>
      obtain rfl : t = .array component := by simpa using h
      simpa [FieldType.chars] using FieldType.read_eq hr
    · simp at h
  have h1 := arrayRank_le elementName
  have h2 := FieldType.length_of_className? he
  have h3 : arrayRank name = name.toList.length + 1 := by simp [arrayRank, ha]
  rw [h3, hn, List.length_cons]
  omega

theorem isArrayName_object : isArrayName ClassName.object = false := by decide +kernel

theorem isArrayName_cloneable : isArrayName ClassName.cloneable = false := by decide +kernel

theorem isArrayName_serializable : isArrayName ClassName.serializable = false := by decide +kernel

/-! ### How far loading can still go -/

/-- The names of the classes directly above the class of a class file. -/
def ClassFile.above (file : ClassFile) : List String := file.superClass.toList ++ file.interfaces

namespace Sources

/-- All class files. -/
def files (s : Sources) : List ClassFile :=
  Library.classFiles.entries.map Prod.snd ++ s.classPath.entries.map Prod.snd

theorem mem_files_of_find? {s : Sources} {name : String} {file : ClassFile}
    (h : s.find? name = some file) : file ∈ s.files := by
  simp only [find?, Option.or_eq_some_iff] at h
  rcases h with h | ⟨_, h⟩
  · exact List.mem_append_left _ (Table.mem_values_of_get? h)
  · exact List.mem_append_right _ (Table.mem_values_of_get? h)

/-- More than the rank of every name that stands above a class in its class file. -/
def rankLimit (s : Sources) : Nat :=
  ((s.files.flatMap ClassFile.above).map arrayRank).max?.getD 0 + 1

theorem arrayRank_lt_rankLimit {s : Sources} {name next : String} {file : ClassFile}
    (hf : s.find? name = some file) (hn : next ∈ file.above) : arrayRank next < s.rankLimit := by
  have hm : arrayRank next ∈ (s.files.flatMap ClassFile.above).map arrayRank :=
    List.mem_map.2 ⟨next, List.mem_flatMap.2 ⟨file, mem_files_of_find? hf, hn⟩, rfl⟩
  exact Nat.lt_succ_of_le (List.le_max?_getD_of_mem hm)

/-- What is left to do for a name while the definition of others is under way. -/
def remaining (s : Sources) (path : List String) (name : String) : Nat :=
  s.fresh path * s.rankLimit + arrayRank name

/-- Going on to a name of lower rank is progress. -/
theorem remaining_lt_of_rank (s : Sources) (path : List String) {name next : String}
    (h : arrayRank next < arrayRank name) :
    s.remaining (name :: path) next < s.remaining path name := by
  have := Nat.mul_le_mul_right s.rankLimit (s.fresh_cons_le path name)
  unfold remaining
  omega

/-- Going on to a name above a class that was not under way is progress. -/
theorem remaining_lt_of_find? {s : Sources} {path : List String} {name next : String}
    {file : ClassFile} (hp : name ∉ path) (hf : s.find? name = some file)
    (hn : next ∈ file.above) : s.remaining (name :: path) next < s.remaining path name := by
  have hr := arrayRank_lt_rankLimit hf hn
  have := Nat.mul_le_mul_right s.rankLimit (fresh_cons_lt hp hf)
  rw [Nat.succ_mul] at this
  unfold remaining
  omega

end Sources

/-- The classes defined so far. -/
abbrev Loaded := Table String Class

/-- Work that defines classes. -/
abbrev LoadM := ExceptT Fault (StateM Loaded)

namespace Loader

/-- Refuses a superclass that is an interface. -/
def checkSuperclass (name : String) (c : Class) : Except Fault Class :=
  if c.isInterface then .error (.superclassIsInterface name c.name) else .ok c

/-- Refuses an interface that is none. -/
def checkInterface (name : String) (c : Class) : Except Fault Class :=
  if c.isInterface then .ok c else .error (.notAnInterface name c.name)

/-- Links a class file below classes that are linked. -/
def linkClass (s : Sources) (file : ClassFile) (superClass : Option Class)
    (interfaces : List Class) : Except Fault Class := do
  let declared ← file.linkDeclaration
  if s.eager then ClassFile.checkNatives s.natives declared
  return { declared, superClass, interfaces, element := none }

/-- The class of the elements of an array, for components that are references. -/
def elementOf (component : FieldType)
    (next : (name : String) → component.className? = some name → LoadM Class) :
    LoadM (Option Class) :=
  match h : component.className? with
  | some name => some <$> next name h
  | none => pure none

/-- The superclass of a class file.  Only `java/lang/Object` has none. -/
def superclassOf (file : ClassFile) (next : (name : String) → name ∈ file.above → LoadM Class) :
    LoadM (Option Class) :=
  match h : file.superClass with
  | some name => do
    let c ← next name (by simp [ClassFile.above, h])
    some <$> checkSuperclass file.name c
  | none => if file.name = ClassName.object then pure none else throw (.noSuperclass file.name)

/-- The interfaces of a class file, in their order. -/
def interfacesOf (file : ClassFile) (next : (name : String) → name ∈ file.above → LoadM Class) :
    LoadM (List Class) :=
  file.interfaces.attach.mapM fun ⟨name, h⟩ => do
    let c ← next name (List.mem_append_right _ h)
    checkInterface file.name c

/-- Enters a class under its name. -/
def enter (name : String) (c : Class) : LoadM Class := do
  modify (·.put name c)
  return c

set_option linter.unusedVariables false in
/-- The class of a name. -/
def load (s : Sources) (path : List String) (name : String) : LoadM Class := do
  match (← get).get? name with
  | some c => return c
  | none =>
    if hp : name ∈ path then throw (.classCircularity name)
    else if isArrayName name then
      match ht : FieldType.ofClassName? name with
      | some (.array component) => do
        let element ← elementOf component fun n _ => load s (name :: path) n
        let object ← load s (name :: path) ClassName.object
        let cloneable ← load s (name :: path) ClassName.cloneable
        let serializable ← load s (name :: path) ClassName.serializable
        enter name { declared := .ofArray name component, superClass := some object
                     interfaces := [cloneable, serializable], element }
      | _ => throw (.classNotFound name)
    else
      match hf : s.find? name with
      | none => throw (.classNotFound name)
      | some file =>
        if file.name ≠ name then throw (.wrongClassName name file.name)
        else do
          let superClass ← superclassOf file fun n _ => load s (name :: path) n
          let interfaces ← interfacesOf file fun n _ => load s (name :: path) n
          let c ← linkClass s file superClass interfaces
          enter name c
termination_by s.remaining path name
decreasing_by
  · exact s.remaining_lt_of_rank path (arrayRank_lt ht ‹_›)
  · exact s.remaining_lt_of_rank path (arrayRank_lt_of_plain ‹_› isArrayName_object)
  · exact s.remaining_lt_of_rank path (arrayRank_lt_of_plain ‹_› isArrayName_cloneable)
  · exact s.remaining_lt_of_rank path (arrayRank_lt_of_plain ‹_› isArrayName_serializable)
  · exact Sources.remaining_lt_of_find? hp hf ‹_›
  · exact Sources.remaining_lt_of_find? hp hf ‹_›

end Loader

end GreenVm
