/-
  A class is loaded after what it is built on.

  * `Loaded.Closed l`: whatever a loaded class is built on is loaded, too.
  * `Loader.load_enters`: loading keeps this up, for the class of the name and for all others.
  * `Loaded.Arises s l`: what may have been loaded: it started with nothing, and then names have been
    loaded, maybe from fewer sources.  All of it is in order.
-/
import GreenVm.Proofs.Definitions
import GreenVm.Proofs.Loading.History

namespace GreenVm

namespace Loaded

/-- Whatever a loaded class is built on is loaded. -/
def Closed (l : Loaded) : Prop :=
  ∀ name c, l.get? name = some c → ∀ d ∈ c.parts, l.get? d.name = some d

/-- Every loaded class is what its name means, and what it is built on is loaded. -/
structure Consistent (s : Sources) (l : Loaded) : Prop where
  sound : l.Sound s
  closed : l.Closed

/-- Besides, some classes are loaded. -/
structure Holds (s : Sources) (cs : List Class) (l : Loaded) : Prop extends Consistent s l where
  entered : ∀ d ∈ cs, l.get? d.name = some d

variable {s : Sources} {name : String} {l l' : Loaded} {c : Class} {cs cs' : List Class}

theorem Consistent.holds_nil (h : Consistent s l) : Holds s [] l := ⟨h, by simp⟩

theorem Holds.mono (h : Holds s cs l) (hcs : cs' ⊆ cs) : Holds s cs' l where
  toConsistent := h.toConsistent
  entered d hd := h.entered d (hcs hd)

/-- Entering what a name means takes nothing back. -/
theorem Sound.kept (h : l.Sound s) (hc : s.Defines name c) {k : String} {d : Class}
    (hd : l.get? k = some d) : (l.put name c).get? k = some d := by
  rw [Table.get?_put]
  split
  · next e => rw [hc.unique (e ▸ h k d hd)]
  · exact hd

/-- A class can be entered once what it is built on is loaded. -/
theorem Holds.put (h : Holds s c.parts l) (hc : s.Defines name c) :
    Consistent s (l.put name c) where
  sound := h.sound.put hc
  closed k d hd e he := by
    refine h.sound.kept hc ?_
    rw [Table.get?_put] at hd
    split at hd
    · cases hd
      exact h.entered e he
    · exact h.closed k d hd e he

/-- The classes that the sources say a class needs are loaded with it. -/
theorem Consistent.needed (h : Consistent s l) (hc : l.get? name = some c) {k : String}
    (hk : s.Needs name k) : ∃ d ∈ c.parts, l.get? k = some d := by
  obtain ⟨d, hd, hkd⟩ := (h.sound name c hc).needs hk
  exact ⟨d, hd, hkd.name_eq ▸ h.closed name c hc d hd⟩

end Loaded

namespace Loader

open Loaded

variable {s : Sources} {name : String}

section Define

variable {next : String → LoadM Class} {file : ClassFile} {component : FieldType}
  {cs : List Class}

/-- Work that comes to classes, and leaves them loaded besides those that are. -/
abbrev Enters {α : Type} (s : Sources) (x : LoadM α) (classes : α → List Class) : Prop :=
  ∀ cs, Leads (Holds s cs) x (fun a => Holds s (classes a ++ cs)) (Consistent s)

theorem elementBy_enters (h : ∀ n ∈ component.className?, Enters s (next n) fun c => [c]) :
    Enters s (elementBy next component) Option.toList := by
  intro cs
  unfold elementBy
  split
  · next n hn => exact (h n hn cs).map fun _ _ hl => hl
  · exact .pure _ fun _ hl => hl

theorem superclassBy_enters (h : ∀ n ∈ file.superClass, Enters s (next n) fun c => [c]) :
    Enters s (superclassBy next file) Option.toList := by
  intro cs
  unfold superclassBy
  split
  · next n hn =>
    refine .bind (h n hn cs) fun c => .map (.liftExcept (checkSuperclass file.name c) (Q := fun d =>
      Holds s (d :: cs)) ?_ fun _ => Holds.toConsistent) fun _ _ hl => hl
    intro d l hd hl
    unfold checkSuperclass at hd
    split at hd <;> cases hd
    exact hl
  · split
    · exact .pure _ fun _ hl => hl
    · exact .throw _ fun _ => Holds.toConsistent

theorem interfacesBy_enters (h : ∀ n ∈ file.interfaces, Enters s (next n) fun c => [c]) :
    Enters s (interfacesBy next file) id := by
  unfold interfacesBy
  generalize file.interfaces = ns at h
  induction ns with
  | nil =>
    intro cs
    rw [List.mapM_nil]
    exact .pure _ fun _ hl => hl
  | cons n ns ih =>
    intro cs
    rw [List.mapM_cons]
    obtain ⟨hn, hns⟩ := List.forall_mem_cons.1 h
    have first : Leads (Holds s cs) (do
        let c ← next n
        checkInterface file.name c : LoadM Class) (fun c => Holds s (c :: cs)) (Consistent s) := by
      refine .bind (hn cs) fun c => .liftExcept _ (fun d l hd hl => ?_) fun _ => Holds.toConsistent
      unfold checkInterface at hd
      split at hd <;> cases hd
      exact hl
    refine .bind first fun c => .bind (ih hns (c :: cs)) fun ds => .pure _ fun l hl => hl.mono ?_
    simp only [List.subset_def, List.mem_append, List.mem_cons, id]
    tauto

/-- The definition of a class leaves loaded what the class is built on, if getting the classes it
    needs leaves these loaded. -/
theorem define_enters (next : String → LoadM Class)
    (h : ∀ n, s.Needs name n → Enters s (next n) fun c => [c]) :
    Leads (Consistent s) (define next s name) (fun c => Holds s c.parts) (Consistent s) := by
  refine .weaken (P := Holds s []) ?_ (fun _ hl => hl.holds_nil) (fun _ _ hl => hl) fun _ hl => hl
  unfold define
  split
  · split
    · next component ht =>
      refine .bind (elementBy_enters (fun n hn => h n (.element ht hn)) []) fun element => ?_
      refine .bind (h ClassName.object (.array ht (by simp)) _) fun object => ?_
      refine .bind (h ClassName.cloneable (.array ht (by simp)) _) fun cloneable => ?_
      refine .bind (h ClassName.serializable (.array ht (by simp)) _) fun serializable => ?_
      refine .pure _ fun l hl => hl.mono ?_
      simp +contextual [Class.parts, List.subset_def]
    · exact .throw _ fun _ => Holds.toConsistent
  · next hp =>
    have hp : isArrayName name = false := by simpa using hp
    split
    · exact .throw _ fun _ => Holds.toConsistent
    · next file hf =>
      split
      · exact .throw _ fun _ => Holds.toConsistent
      · refine .bind (superclassBy_enters (fun n hn => h n (.superClass hp hf hn)) [])
          fun superClass => ?_
        refine .bind (interfacesBy_enters (fun n hn => h n (.interface hp hf hn)) _)
          fun interfaces => .liftExcept _ (fun c l hc hl => ?_) fun _ => Holds.toConsistent
        obtain ⟨declared, -, -, rfl⟩ := linkClass_ok hc
        refine hl.mono ?_
        simp [Class.parts, List.subset_def, or_comm]

end Define

/-- What comes of loading a name when nothing is loaded under it. -/
theorem outcome_load_fresh {path : List String} {l : Loaded} (hl : l.get? name = none)
    (hp : name ∉ path) : outcome (load s path name) l =
      match outcome (define (load s (name :: path)) s name) l with
      | (.ok c, l') => (.ok c, l'.put name c)
      | (.error e, l') => (.error e, l') := by
  rw [outcome_load_of_none hl, if_neg hp, outcome_bind]
  rcases outcome (define (load s (name :: path)) s name) l with ⟨_ | _, _⟩ <;> rfl

/-- Loading a name leaves its class loaded, with what it is built on. -/
theorem load_enters (s : Sources) (path : List String) (name : String) :
    Enters s (load s path name) fun c => [c] := by
  -- it is enough to look at the class and at what has to be true of all
  suffices consistent : ∀ l, Consistent s l → Consistent s (outcome (load s path name) l).2 by
    intro cs l hl
    have grows := load_grows s path name l
    have comes := load_comes s path name l l rfl
    have hl' := consistent l hl.toConsistent
    split at comes
    · next c l' h =>
      rw [h] at grows hl'
      refine ⟨hl', List.forall_mem_cons.2 ⟨?_, fun d hd => grows.kept _ _ (hl.entered d hd)⟩⟩
      rw [(hl'.sound name c comes.2).name_eq]
      exact comes.2
    · next h =>
      rw [h] at hl'
      exact hl'
  intro l hl
  cases hn : l.get? name with
  | some c =>
    rw [load_eq, outcome_bind_ok (outcome_getLoaded l), hn]
    exact hl
  | none =>
    by_cases hp : name ∈ path
    · rw [outcome_load_of_none hn, if_pos hp, outcome_throw]
      exact hl
    have defined := define_enters (load s (name :: path)) (fun n (_ : s.Needs name n) =>
      load_enters s (name :: path) n) l hl
    have comes := load_comes s path name l l rfl
    rw [outcome_load_fresh hn hp] at comes ⊢
    rcases hd : outcome (define (load s (name :: path)) s name) l with ⟨e | c, l'⟩
    · rw [hd] at defined
      exact defined
    · rw [hd] at defined comes
      exact defined.put (comes.1.sound hl.sound name c comes.2)
termination_by s.remaining path name
decreasing_by exact Sources.Needs.remaining_lt ‹_› hp

/-! ## What may have been loaded -/

theorem load_consistent {path : List String} {l : Loaded} (h : Consistent s l) :
    Consistent s (outcome (load s path name) l).2 := by
  have entered := load_enters s path name [] l h.holds_nil
  split at entered
  · next hr =>
    rw [hr]
    exact entered.toConsistent
  · next hr =>
    rw [hr]
    exact entered

end Loader

namespace Loaded

/-- What may have been loaded when the sources are those given. -/
inductive Arises : Sources → Loaded → Prop
  | empty (s : Sources) : Arises s .empty
  | load {s : Sources} {l : Loaded} (name : String) (h : Arises s l) :
    Arises s (outcome (Loader.load s [] name) l).2
  | extend {s s' : Sources} {l : Loaded} (hs : s.Extends s') (h : Arises s l) : Arises s' l

namespace Arises

variable {s : Sources} {l : Loaded}

/-- Whatever has been loaded is in order. -/
theorem consistent (h : Arises s l) : Consistent s l := by
  induction h with
  | empty s => exact ⟨Loader.sound_empty s, fun _ _ h => by cases h⟩
  | load _ _ ih => exact Loader.load_consistent ih
  | extend hs _ ih => exact ⟨fun n c hc => hs.defines (ih.sound n c hc), ih.closed⟩

theorem after : ∀ (names : List String) {l : Loaded}, Arises s l → Arises s (Loader.after s l names)
  | [], _, h => h
  | name :: names, _, h => after names (h.load name)

end Arises

end Loaded

end GreenVm
