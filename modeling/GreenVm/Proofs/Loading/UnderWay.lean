/-
  Loading with one list of the names under way.

  * `Loader.resolve`: loading as it is done with a registry that everybody shares: a cell for each name
    that was ever asked for, and one list of the names under way, which is put right again however a
    definition ends.  Nothing bounds it but a depth, beyond which there is no outcome at all.
  * `Loader.resolve_follows`: to a depth that the sources give it does what `Loader.load` does with the
    names under way handed down, and the list is what it was before.
  * `Loader.load_concludes`: what loading a name comes to, whatever may have been loaded.
-/
import GreenVm.Proofs.Loading.Closure

namespace GreenVm

/-- What a loader keeps: a cell for each name that was asked for, empty until its class is defined, and
    the names whose definition is under way, the latest first. -/
structure ClassRegistry where
  cells : Table String (Option Class)
  underWay : List String

namespace ClassRegistry

/-- The class in the cell of a name. -/
def class? (g : ClassRegistry) (name : String) : Option Class := (g.cells.get? name).join

/-- Puts a name under way.  It gets a cell if it has none. -/
def begin (g : ClassRegistry) (name : String) : ClassRegistry where
  cells := if g.cells.contains name then g.cells else g.cells.put name none
  underWay := name :: g.underWay

/-- Fills the cell of a name with the class that its definition came to, if it did. -/
def fill (g : ClassRegistry) (name : String) (r : Except Fault Class) : ClassRegistry :=
  { g with
    cells := match r with
      | .ok c => g.cells.put name (some c)
      | .error _ => g.cells }

/-- Takes a name off those that are under way. -/
def leave (g : ClassRegistry) (name : String) : ClassRegistry :=
  { g with underWay := g.underWay.filter (· ≠ name) }

/-- The registry holds the loaded classes, and these names are under way. -/
structure Shows (g : ClassRegistry) (path : List String) (l : Loaded) : Prop where
  underWay_eq : g.underWay = path
  class?_eq : ∀ name, g.class? name = l.get? name

namespace Shows

variable {g : ClassRegistry} {path : List String} {name : String} {l : Loaded} {c : Class}

theorem begin (h : g.Shows path l) (name : String) : (g.begin name).Shows (name :: path) l where
  underWay_eq := congrArg (name :: ·) h.underWay_eq
  class?_eq k := by
    rw [← h.class?_eq]
    unfold ClassRegistry.begin class?
    split
    · rfl
    · next hn =>
      rw [Table.get?_put]
      split
      · next e =>
        have : g.cells.get? name = none := by simpa [Table.contains] using hn
        rw [← e, this]
        rfl
      · rfl

theorem fill_ok (h : g.Shows path l) (name : String) (c : Class) :
    (g.fill name (.ok c)).Shows path (l.put name c) where
  underWay_eq := h.underWay_eq
  class?_eq k := by
    unfold fill class?
    rw [Table.get?_put, Table.get?_put]
    split
    · rfl
    · exact h.class?_eq k

theorem leave (h : g.Shows (name :: path) l) (hp : name ∉ path) :
    (g.leave name).Shows path l where
  underWay_eq := by
    unfold ClassRegistry.leave
    simp only [h.underWay_eq]
    rw [List.filter_cons_of_neg (by simp), List.filter_eq_self]
    intro k hk
    simpa using fun e : k = name => hp (e ▸ hk)
  class?_eq := h.class?_eq

end Shows

end ClassRegistry

/-- Work on a registry, which may go too deep. -/
abbrev RegistryM := ExceptT Fault (StateT ClassRegistry Option)

namespace Loader

/-- The class of a name.  The cell is filled if the definition succeeds, and the name is taken off the
    list in any case. -/
def resolve (s : Sources) : Nat → String → RegistryM Class
  | 0, _ => fun _ => none
  | depth + 1, name => do
    let g ← getThe ClassRegistry
    match g.class? name with
    | some c => return c
    | none =>
      if name ∈ g.underWay then throw (.classCircularity name)
      else do
        modifyThe ClassRegistry (·.begin name)
        let r ← observing (define (resolve s depth) s name)
        modifyThe ClassRegistry (·.fill name r)
        modifyThe ClassRegistry (·.leave name)
        liftM r

/-- Work on a registry does what some work on the loaded classes does, and leaves the list of names as
    it is. -/
def Follows (path : List String) {α : Type} (x : RegistryM α) (y : LoadM α) : Prop :=
  ∀ g l, g.Shows path l →
    ∃ g', x.run.run g = some ((outcome y l).1, g') ∧ g'.Shows path (outcome y l).2

namespace Follows

variable {path : List String} {α β : Type} {x : RegistryM α} {y : LoadM α}

theorem bind {f : α → RegistryM β} {f' : α → LoadM β} (hx : Follows path x y)
    (hf : ∀ a, Follows path (f a) (f' a)) : Follows path (x >>= f) (y >>= f') := by
  intro g l h
  obtain ⟨g₁, hr, h₁⟩ := hx g l h
  rcases outcome_bind_cases y f' l with ⟨e, l₁, hy, hb⟩ | ⟨a, l₁, hy, hb⟩
  · rw [hy] at hr h₁
    rw [hb]
    exact ⟨g₁, by rw [ExceptT.run_bind, StateT.run_bind, hr]; rfl, h₁⟩
  · rw [hy] at hr h₁
    rw [hb]
    obtain ⟨g₂, hr₂, h₂⟩ := hf a g₁ l₁ h₁
    exact ⟨g₂, by rw [ExceptT.run_bind, StateT.run_bind, hr]; exact hr₂, h₂⟩

theorem compositional (path : List String) : Compositional fun α => Follows path (α := α) where
  pure a g l h := ⟨g, rfl, by rwa [outcome_pure]⟩
  throw e g l h := ⟨g, rfl, by rwa [outcome_throw]⟩
  liftExcept r g l h := ⟨g, by cases r <;> rfl, by rwa [outcome_liftExcept]⟩
  map f h := by
    rw [map_eq_pure_bind, map_eq_pure_bind]
    exact h.bind fun a g l hg => ⟨g, rfl, by rwa [outcome_pure]⟩
  bind := bind

end Follows

variable {s : Sources} {name : String}

/-- Work that is observed never fails. -/
theorem run_observing_bind {α β : Type} (x : RegistryM α) (f : Except Fault α → RegistryM β)
    (g : ClassRegistry) :
    (observing x >>= f).run.run g = (x.run.run g).bind fun (r, g') => (f r).run.run g' := by
  simp only [observing, tryCatch, tryCatchThe, MonadExceptOf.tryCatch, ExceptT.tryCatch, ExceptT.run,
    ExceptT.mk, StateT.run, bind, StateT.bind, ExceptT.bind]
  rcases x g with _ | ⟨_ | _, _⟩ <;> rfl

/-- One level of loading. -/
theorem resolve_run (s : Sources) (depth : Nat) (name : String) (g : ClassRegistry) :
    (resolve s (depth + 1) name).run.run g =
      match g.class? name with
      | some c => some (.ok c, g)
      | none =>
        if name ∈ g.underWay then some (.error (.classCircularity name), g)
        else ((define (resolve s depth) s name).run.run (g.begin name)).map fun (r, g') =>
          (r, (g'.fill name r).leave name) := by
  change (ExceptT.run (match g.class? name with
    | some c => _
    | none => _) : StateT ClassRegistry Option (Except Fault Class)).run g = _
  cases g.class? name with
  | some c => rfl
  | none =>
    dsimp only
    split
    · rfl
    · refine (run_observing_bind (define (resolve s depth) s name) _ (g.begin name)).trans ?_
      rcases (define (resolve s depth) s name).run.run (g.begin name) with _ | ⟨_ | _, _⟩ <;> rfl

/-- Loading with one list of names does what loading does, to a depth that suffices. -/
theorem resolve_follows (s : Sources) : ∀ (depth : Nat) (path : List String) (name : String),
    s.remaining path name < depth → Follows path (resolve s depth name) (load s path name)
  | 0, _, _, hd => absurd hd (Nat.not_lt_zero _)
  | depth + 1, path, name, hd => by
    intro g l h
    rw [resolve_run, h.class?_eq, h.underWay_eq]
    cases hn : l.get? name with
    | some c =>
      rw [load_eq, outcome_bind_ok (outcome_getLoaded l), hn]
      exact ⟨g, rfl, h⟩
    | none =>
      by_cases hp : name ∈ path
      · rw [outcome_load_of_none hn]
        simp only [if_pos hp, outcome_throw]
        exact ⟨g, rfl, h⟩
      · have defined : Follows (name :: path) (define (resolve s depth) s name)
            (define (load s (name :: path)) s name) :=
          (Follows.compositional _).define _ _ fun n hn => resolve_follows s depth (name :: path) n
            (Nat.lt_of_lt_of_le (hn.remaining_lt hp) (Nat.le_of_lt_succ hd))
        obtain ⟨g', hr, h'⟩ := defined _ l (h.begin name)
        rw [outcome_load_fresh hn hp]
        refine ⟨(g'.fill name (outcome (define (load s (name :: path)) s name) l).1).leave name, ?_, ?_⟩
        · dsimp only
          rw [if_neg hp, hr]
          rcases outcome (define (load s (name :: path)) s name) l with ⟨_ | _, _⟩ <;> rfl
        · rcases hd : outcome (define (load s (name :: path)) s name) l with ⟨e | c, l'⟩
          · rw [hd] at h'
            exact h'.leave hp
          · rw [hd] at h'
            exact (h'.fill_ok name c).leave hp

end Loader

/-! ## What loading comes to -/

/-- The class of the name needs, maybe in turn, a class that needs itself. -/
def Sources.Cyclic (s : Sources) (name : String) : Prop :=
  ∃ k, Relation.ReflTransGen s.Needs name k ∧ Relation.TransGen s.Needs k k

/-- A name on a cycle, or from which one is reached, means no class. -/
theorem Sources.Cyclic.not_defines {s : Sources} {name : String} {c : Class} (h : s.Cyclic name) :
    ¬ s.Defines name c := by
  intro hc
  obtain ⟨k, hk, cycle⟩ := h
  exact hc.acyclic hk cycle

namespace Loader

/-- Loading a name, when no other is under way, came to a result and left classes loaded. -/
structure Concludes (s : Sources) (l : Loaded) (name : String) (r : Except Fault Class)
    (l' : Loaded) : Prop where
  /-- It comes to an end, and no name is under way any more. -/
  ends : ∀ g : ClassRegistry, g.Shows [] l → ∀ depth, s.remaining [] name < depth →
    ∃ g', (resolve s depth name).run.run g = some (r, g') ∧ g'.Shows [] l'
  /-- No class is taken back. -/
  kept : ∀ n c, l.get? n = some c → l'.get? n = some c
  /-- The class is loaded, or there is none of the name. -/
  entered : ∀ c, r = .ok c → l'.get? name = some c
  absent : ∀ e, r = .error e → l'.get? name = none
  /-- What a class is built on is loaded, and all that the sources say it needs. -/
  closed : l'.Closed
  needed : ∀ n c, l'.get? n = some c → ∀ k, s.Needs n k → ∃ d ∈ c.parts, l'.get? k = some d
  /-- A class that needs itself is not to be had, nor one that needs it. -/
  refused : s.Cyclic name → ∃ e, r = .error e
  never : ∀ n, s.Cyclic n → ∀ later, (after s l' later).get? n = none

/-- **Whatever may have been loaded, loading a name comes to an end with no name under way; it takes no
    class back, defines none of that name if it fails, leaves every class with all it is built on, and
    never defines a class on a cycle or from which one is reached.** -/
theorem load_concludes {s : Sources} {l : Loaded} (h : Loaded.Arises s l) (name : String) :
    Concludes s l name (outcome (load s [] name) l).1 (outcome (load s [] name) l).2 where
  ends g hg depth hd := resolve_follows s depth [] name hd g l hg
  kept := (load_grows s [] name l).kept
  entered c hr := by
    have := load_comes s [] name l l rfl
    split at this
    · next d l' hd =>
      rw [hd] at hr ⊢
      cases hr
      exact this.2
    · next e l' he =>
      rw [he] at hr
      cases hr
  absent e hr := by
    refine Option.eq_none_iff_forall_ne_some.2 fun c hc => ?_
    -- what it left under the name would have been its result
    have := (load_iff h.consistent.sound).2 ((h.load name).consistent.sound name c hc)
    rw [hr] at this
    cases this
  closed := (h.load name).consistent.closed
  needed _ _ hc _ hk := (h.load name).consistent.needed hc hk
  refused hn := by
    cases hr : (outcome (load s [] name) l).1 with
    | error e => exact ⟨e, rfl⟩
    | ok c => exact absurd ((load_iff h.consistent.sound).1 hr) hn.not_defines
  never n hn later := by
    refine Option.eq_none_iff_forall_ne_some.2 ?_
    intro c hc
    have sound := ((h.load name).after later).consistent.sound
    exact hn.not_defines (sound n c hc)

/-- The class `A` is below `B`, and this below `A`; `C` is below them. -/
def circular : Sources where
  classPath := .ofList [("A", (ClassFile.ofClass "A").extending "B"),
    ("B", (ClassFile.ofClass "B").extending "A"), ("C", (ClassFile.ofClass "C").extending "A")]
  natives := { table := .empty }
  eager := false

theorem circular_cyclic : circular.Cyclic "C" := by
  have above {name n : String} (hp : isArrayName name = false)
      (hf : circular.find? name = some ((ClassFile.ofClass name).extending n)) :
      circular.Needs name n := .superClass hp hf rfl
  have first : circular.Needs "A" "B" := above (by decide) (by decide)
  have second : circular.Needs "B" "A" := above (by decide) (by decide)
  exact ⟨"A", .single (above (by decide) (by decide)), .tail (.single first) second⟩

theorem load_concludes_circular :
    Loaded.Arises circular (after circular .empty [ClassName.object, "C"]) ∧ circular.Cyclic "C" ∧
      Concludes circular (after circular .empty [ClassName.object, "C"]) "C"
        (outcome (load circular [] "C") (after circular .empty [ClassName.object, "C"])).1
        (outcome (load circular [] "C") (after circular .empty [ClassName.object, "C"])).2 :=
  have arises := (Loaded.Arises.empty circular).after [ClassName.object, "C"]
  ⟨arises, circular_cyclic, load_concludes arises "C"⟩

example : ((resolve circular 4 "C").run.run ⟨.empty, []⟩).map
    (fun p => (p.1.map Class.name, p.2.underWay)) = some (.error (.classCircularity "A"), []) := by
  rfl

end Loader

end GreenVm
