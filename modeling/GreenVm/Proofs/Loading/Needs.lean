/-
  What the definition of a class needs.

  * `Sources.Needs s name n`: the class of the first name is defined below the class of the second:
    its superclass, one of its interfaces, or the class of its elements.
  * `Sources.Defines.needs`: a name means a class only if all names that it needs do, and these are
    parts of the class.  So there is no way round.
  * `Loader.define next s name`: the definition of the class of a name, if `next` gets the classes it
    needs.  `Loader.load_eq`: loading is looking a name up and defining it, by more loading.
-/
import GreenVm.Proofs.Loading
import Mathlib.Logic.Relation

namespace GreenVm

namespace Sources

variable {s : Sources} {name n k : String} {c : Class}

/-- The definition of the class of the first name needs the class of the second. -/
inductive Needs (s : Sources) (name : String) : String → Prop
  | element {component : FieldType} {n : String}
    (ht : FieldType.ofClassName? name = some (.array component)) (hn : component.className? = some n) :
    Needs s name n
  | array {component : FieldType} {n : String}
    (ht : FieldType.ofClassName? name = some (.array component))
    (hn : n ∈ [ClassName.object, ClassName.cloneable, ClassName.serializable]) : Needs s name n
  | superClass {file : ClassFile} {n : String} (hp : isArrayName name = false)
    (hf : s.find? name = some file) (hn : file.superClass = some n) : Needs s name n
  | interface {file : ClassFile} {n : String} (hp : isArrayName name = false)
    (hf : s.find? name = some file) (hn : n ∈ file.interfaces) : Needs s name n

/-- Going on to what a name needs is progress, unless the name is under way already. -/
theorem Needs.remaining_lt {path : List String} (hn : s.Needs name n) (hp : name ∉ path) :
    s.remaining (name :: path) n < s.remaining path name := by
  cases hn with
  | element ht hn => exact s.remaining_lt_of_rank path (arrayRank_lt ht hn)
  | array ht hn =>
    refine s.remaining_lt_of_rank path (arrayRank_lt_of_plain (isArrayName_of_array ht) ?_)
    simp only [List.mem_cons, List.not_mem_nil, or_false] at hn
    rcases hn with rfl | rfl | rfl
    · exact isArrayName_object
    · exact isArrayName_cloneable
    · exact isArrayName_serializable
  | superClass _ hf hn =>
    exact remaining_lt_of_find? hp hf (List.mem_append_left _ (Option.mem_toList.2 hn))
  | interface _ hf hn => exact remaining_lt_of_find? hp hf (List.mem_append_right _ hn)

end Sources

namespace Class

/-- What a class is built on: its superclass, its interfaces, and the class of its elements. -/
def parts (c : Class) : List Class := c.superClass.toList ++ c.interfaces ++ c.element.toList

variable {c d : Class}

theorem mem_parts :
    d ∈ c.parts ↔ c.superClass = some d ∨ d ∈ c.interfaces ∨ c.element = some d := by
  simp [parts]

/-- A class is not built on itself. -/
theorem sizeOf_lt_of_mem_parts (h : d ∈ c.parts) : sizeOf d < sizeOf c := by
  obtain ⟨declared, superClass, interfaces, element⟩ := c
  rcases mem_parts.1 h with h | h | h
  · cases h
    simp
    omega
  · have := List.sizeOf_lt_of_mem h
    simp at this ⊢
    omega
  · cases h
    simp
    omega

end Class

namespace Sources

variable {s : Sources} {name n k : String} {c : Class}

namespace Defines

/-- What a class needs is a part of it. -/
theorem needs (h : s.Defines name c) (hn : s.Needs name n) : ∃ d ∈ c.parts, s.Defines n d := by
  cases h with
  | @array _ component element object cloneable serializable ht he hes ho hc hs =>
    cases hn with
    | element ht' hn =>
      cases ht.symm.trans ht'
      obtain ⟨d, rfl⟩ : ∃ d, element = some d :=
        Option.isSome_iff_exists.1 (by simpa [hn] using he.symm)
      exact ⟨d, by simp [Class.mem_parts], hes n hn d rfl⟩
    | array ht' hn =>
      simp only [List.mem_cons, List.not_mem_nil, or_false] at hn
      rcases hn with rfl | rfl | rfl
      · exact ⟨object, by simp [Class.mem_parts], ho⟩
      · exact ⟨cloneable, by simp [Class.mem_parts], hc⟩
      · exact ⟨serializable, by simp [Class.mem_parts], hs⟩
    | superClass hp | interface hp => exact absurd (isArrayName_of_array ht) (by simp [hp])
  | @file _ file superClass interfaces _ hp hf hname hs htop hss hsc hi his hic hl =>
    obtain ⟨declared, -, -, rfl⟩ := Loader.linkClass_ok hl
    cases hn with
    | element ht | array ht => exact absurd (isArrayName_of_array ht) (by simp [hp])
    | superClass _ hf' hn =>
      cases hf.symm.trans hf'
      obtain ⟨d, rfl⟩ : ∃ d, superClass = some d :=
        Option.isSome_iff_exists.1 (by simpa [hn] using hs.symm)
      exact ⟨d, by simp [Class.mem_parts], hss n hn d rfl⟩
    | interface _ hf' hn =>
      cases hf.symm.trans hf'
      obtain ⟨i, hlt, rfl⟩ := List.mem_iff_getElem.1 hn
      have hzip : i < (file.interfaces.zip interfaces).length := by
        rw [List.length_zip]
        omega
      have hz := List.getElem_mem hzip
      rw [List.getElem_zip] at hz
      exact ⟨_, Class.mem_parts.2 (.inr (.inl (List.of_mem_zip hz).2)), his _ hz⟩

/-- What a class needs in turn is defined, and smaller. -/
theorem needs_trans (h : s.Defines name c) (hn : Relation.TransGen s.Needs name n) :
    ∃ d, s.Defines n d ∧ sizeOf d < sizeOf c := by
  induction hn with
  | single hn =>
    obtain ⟨d, hd, hn⟩ := h.needs hn
    exact ⟨d, hn, Class.sizeOf_lt_of_mem_parts hd⟩
  | tail _ hn ih =>
    obtain ⟨d, hd, hlt⟩ := ih
    obtain ⟨e, he, hn⟩ := hd.needs hn
    exact ⟨e, hn, Nat.lt_trans (Class.sizeOf_lt_of_mem_parts he) hlt⟩

/-- A class that needs what needs itself is not defined. -/
theorem acyclic (h : s.Defines name c) (hk : Relation.ReflTransGen s.Needs name k) :
    ¬ Relation.TransGen s.Needs k k := by
  intro cycle
  obtain ⟨d, hd⟩ : ∃ d, s.Defines k d := by
    rcases Relation.reflTransGen_iff_eq_or_transGen.1 hk with rfl | hk
    · exact ⟨c, h⟩
    · exact (h.needs_trans hk).imp fun _ => And.left
  obtain ⟨e, he, hlt⟩ := hd.needs_trans cycle
  cases he.unique hd
  exact Nat.lt_irrefl _ hlt

/-- No class that needs it in turn is needed by a class. -/
theorem clear (h : s.Defines name c) {path : List String}
    (hpath : ∀ k ∈ path, Relation.TransGen s.Needs k name) : Loader.Clear s path c := by
  intro k hk d hd
  obtain ⟨c', hc', hlt⟩ := hd.needs_trans (hpath k hk)
  exact hc'.unique h ▸ hlt

end Defines

end Sources

/-! ## The definition of a class -/

namespace Loader

section Define

variable {M : Type → Type} [Monad M] [MonadExceptOf Fault M] [MonadLiftT (Except Fault) M]
  (next : String → M Class)

/-- The class of the elements of an array. -/
def elementBy (component : FieldType) : M (Option Class) :=
  match component.className? with
  | some n => some <$> next n
  | none => pure none

/-- The superclass of a class file. -/
def superclassBy (file : ClassFile) : M (Option Class) :=
  match file.superClass with
  | some n => do
    let c ← next n
    some <$> (checkSuperclass file.name c : M Class)
  | none => if file.name = ClassName.object then pure none else throw (.noSuperclass file.name)

/-- The interfaces of a class file. -/
def interfacesBy (file : ClassFile) : M (List Class) :=
  file.interfaces.mapM fun n => do
    let c ← next n
    checkInterface file.name c

/-- The definition of the class of a name, given how the classes it needs are come by. -/
def define (s : Sources) (name : String) : M Class :=
  if isArrayName name then
    match FieldType.ofClassName? name with
    | some (.array component) => do
      let element ← elementBy next component
      let object ← next ClassName.object
      let cloneable ← next ClassName.cloneable
      let serializable ← next ClassName.serializable
      return { declared := .ofArray name component, superClass := some object
               interfaces := [cloneable, serializable], element }
    | _ => throw (.classNotFound name)
  else
    match s.find? name with
    | none => throw (.classNotFound name)
    | some file =>
      if file.name ≠ name then throw (.wrongClassName name file.name)
      else do
        let superClass ← superclassBy next file
        let interfaces ← interfacesBy next file
        linkClass s file superClass interfaces

end Define

/-- A relation between two kinds of work that is kept when work is put together. -/
structure Compositional {M N : Type → Type} [Monad M] [MonadExceptOf Fault M]
    [MonadLiftT (Except Fault) M] [Monad N] [MonadExceptOf Fault N] [MonadLiftT (Except Fault) N]
    (R : ∀ α : Type, M α → N α → Prop) : Prop where
  pure : ∀ {α : Type} (a : α), R α (pure a) (pure a)
  throw : ∀ {α : Type} (e : Fault), R α (throw e) (throw e)
  liftExcept : ∀ {α : Type} (r : Except Fault α), R α (liftM r) (liftM r)
  map : ∀ {α β : Type} {x : M α} {y : N α} (f : α → β), R α x y → R β (f <$> x) (f <$> y)
  bind : ∀ {α β : Type} {x : M α} {y : N α} {f : α → M β} {g : α → N β}, R α x y →
    (∀ a, R β (f a) (g a)) → R β (x >>= f) (y >>= g)

namespace Compositional

variable {M N : Type → Type} [Monad M] [LawfulMonad M] [MonadExceptOf Fault M]
  [MonadLiftT (Except Fault) M] [Monad N] [LawfulMonad N] [MonadExceptOf Fault N]
  [MonadLiftT (Except Fault) N] {R : ∀ α : Type, M α → N α → Prop} (hR : Compositional R)

include hR

theorem mapM {α β : Type} {f : α → M β} {g : α → N β} :
    ∀ {as : List α}, (∀ a ∈ as, R β (f a) (g a)) →
      R (List β) (as.mapM f) (as.mapM g)
  | [], _ => by
    rw [List.mapM_nil, List.mapM_nil]
    exact hR.pure []
  | a :: as, h => by
    rw [List.mapM_cons, List.mapM_cons]
    obtain ⟨ha, has⟩ := List.forall_mem_cons.1 h
    exact hR.bind ha fun _ => hR.bind (mapM has) fun _ => hR.pure _

/-- Two ways to come by the needed classes lead to two ways to define a class. -/
theorem define {s : Sources} {name : String} (next : String → M Class) (next' : String → N Class)
    (h : ∀ n, s.Needs name n → R Class (next n) (next' n)) :
    R Class (define next s name) (define next' s name) := by
  unfold Loader.define
  split
  · split
    · next component ht =>
      have element : R (Option Class) (elementBy next component) (elementBy next' component) := by
        unfold elementBy
        split
        · next n hn => exact hR.map _ (h n (.element ht hn))
        · exact hR.pure _
      refine hR.bind element fun _ => ?_
      refine hR.bind (h ClassName.object (.array ht (by simp))) fun _ => ?_
      refine hR.bind (h ClassName.cloneable (.array ht (by simp))) fun _ => ?_
      exact hR.bind (h ClassName.serializable (.array ht (by simp))) fun _ => hR.pure _
    · exact hR.throw _
  · next hp =>
    have hp : isArrayName name = false := by simpa using hp
    split
    · exact hR.throw _
    · next file hf =>
      have superClass : R (Option Class) (superclassBy next file) (superclassBy next' file) := by
        unfold superclassBy
        split
        · next n hn =>
          exact hR.bind (h n (.superClass hp hf hn)) fun _ => hR.map _ (hR.liftExcept _)
        · split
          · exact hR.pure _
          · exact hR.throw _
      have interfaces : R (List Class) (interfacesBy next file) (interfacesBy next' file) :=
        hR.mapM fun n hn => hR.bind (h n (.interface hp hf hn)) fun _ => hR.liftExcept _
      split
      · exact hR.throw _
      · exact hR.bind superClass fun _ => hR.bind interfaces fun _ => hR.liftExcept _

end Compositional

section Equations

variable (next : String → LoadM Class) (file : ClassFile) (component : FieldType)

theorem elementOf_eq : (elementOf component fun n _ => next n) = elementBy next component := by
  unfold elementOf elementBy
  split
  · next n hn => simp only [hn]
  · next hn => simp only [hn]

theorem superclassOf_eq : (superclassOf file fun n _ => next n) = superclassBy next file := by
  unfold superclassOf superclassBy
  split
  · next n hn => simp only [hn]
  · next hn => simp only [hn]

theorem interfacesOf_eq : (interfacesOf file fun n _ => next n) = interfacesBy next file := by
  have go : ∀ ns : List { n // n ∈ file.interfaces },
      (ns.mapM fun n => do checkInterface file.name (← next n.1) : LoadM (List Class)) =
        ((ns.map Subtype.val).mapM fun n => do checkInterface file.name (← next n)) := by
    intro ns
    induction ns with
    | nil => rfl
    | cons n ns ih => rw [List.map_cons, List.mapM_cons, List.mapM_cons, ih]
  rw [interfacesBy, ← List.attach_map_subtype_val file.interfaces]
  exact go file.interfaces.attach

/-- Loading a name looks it up, and else defines it, by loading what it needs. -/
theorem load_eq (s : Sources) (path : List String) (name : String) :
    load s path name = (do
      match (← get).get? name with
      | some c => return c
      | none =>
        if name ∈ path then throw (.classCircularity name)
        else do enter name (← define (load s (name :: path)) s name)) := by
  rw [load]
  congr 1
  funext l
  cases l.get? name with
  | some c => rfl
  | none =>
    by_cases hp : name ∈ path
    · simp only [hp, dif_pos, if_pos]
    simp only [hp, dite_false, if_false]
    unfold define
    split
    · split
      · next component ht =>
        simp only [ht, elementOf_eq, bind_assoc, pure_bind]
      · next h =>
        split
        · next component hc => exact absurd hc (h component)
        · rfl
    · split
      · next hf => simp only [hf]; rfl
      · next file hf =>
        simp only [hf]
        split
        · rfl
        · simp only [bind_assoc, superclassOf_eq, interfacesOf_eq]

end Equations

end Loader

end GreenVm
