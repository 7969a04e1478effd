/-
  Loading a class does not depend on what has been loaded before.

  * `Loader.Steady P x`: wherever `P` holds, the work has the same result, and leaves `P` as it is.
  * `Loader.load_steady`: so it is with loading a name, from all classes that are what their names mean,
    as long as whatever is under way needs the name.  A name with a class comes to this class; and of a
    name without one none of these classes has the name, so all of them begin to define it.
  * `Loader.load_after`: what loading a name comes to, whatever names have been loaded before.
  * `Sources.class?`: so the class that a name means can be computed.
-/
import GreenVm.Proofs.Loading.Needs

namespace GreenVm

namespace Loader

/-! ## Steady work -/

/-- All states in which something holds lead to the same result, and it goes on to hold. -/
structure Steady {α : Type} (P : Loaded → Prop) (x : LoadM α) : Prop where
  fixed : ∃ r, ∀ l, P l → (outcome x l).1 = r
  keeps : ∀ l, P l → P (outcome x l).2

namespace Steady

variable {α β : Type} {P : Loaded → Prop} {x : LoadM α} {f : α → LoadM β}

theorem pure (a : α) : Steady P (pure a : LoadM α) where
  fixed := ⟨.ok a, fun l _ => by rw [outcome_pure]⟩
  keeps l hl := by rwa [outcome_pure]

theorem throw (e : Fault) : Steady P (throw e : LoadM α) where
  fixed := ⟨.error e, fun l _ => by rw [outcome_throw]⟩
  keeps l hl := by rwa [outcome_throw]

theorem liftExcept (r : Except Fault α) : Steady P (liftM r : LoadM α) where
  fixed := ⟨r, fun l _ => by rw [outcome_liftExcept]⟩
  keeps l hl := by rwa [outcome_liftExcept]

/-- What follows steady work has a single result if it has so for every answer. -/
theorem fixed_bind (hx : Steady P x) (hf : ∀ a, ∃ r, ∀ l, P l → (outcome (f a) l).1 = r) :
    ∃ r, ∀ l, P l → (outcome (x >>= f) l).1 = r := by
  obtain ⟨r, hr⟩ := hx.fixed
  cases r with
  | error e =>
    refine ⟨.error e, fun l hl => ?_⟩
    rw [outcome_bind_error (Prod.ext (hr l hl) rfl)]
  | ok a =>
    obtain ⟨r, hf⟩ := hf a
    refine ⟨r, fun l hl => ?_⟩
    rw [outcome_bind_ok (Prod.ext (hr l hl) rfl)]
    exact hf _ (hx.keeps l hl)

theorem bind (hx : Steady P x) (hf : ∀ a, Steady P (f a)) : Steady P (x >>= f) where
  fixed := hx.fixed_bind fun a => (hf a).fixed
  keeps l hl := by
    rcases outcome_bind_cases x f l with ⟨e, l', hx', h⟩ | ⟨a, l', hx', h⟩
    · have := hx.keeps l hl
      rw [hx'] at this
      rwa [h]
    · have := hx.keeps l hl
      rw [hx'] at this
      rw [h]
      exact (hf a).keeps l' this

theorem map (hx : Steady P x) (g : α → β) : Steady P (g <$> x) where
  fixed := by
    obtain ⟨r, hr⟩ := hx.fixed
    exact ⟨r.map g, fun l hl => by rw [outcome_map, hr l hl]⟩
  keeps l hl := by
    rw [outcome_map]
    exact hx.keeps l hl

theorem compositional (P : Loaded → Prop) :
    Compositional fun α (x : LoadM α) (_ : LoadM α) => Steady P x where
  pure := .pure
  throw := .throw
  liftExcept := .liftExcept
  map f h := h.map f
  bind := .bind

end Steady

/-! ## Loading -/

/-- Everything that is loaded is what its name means, and no name under way is loaded. -/
structure Apt (s : Sources) (path : List String) (l : Loaded) : Prop where
  sound : l.Sound s
  spared : ∀ n ∈ path, l.get? n = none

variable {s : Sources} {path : List String} {name : String} {l l' : Loaded} {c : Class}

theorem Apt.grows (h : Apt s path l) (hl : Loaded.Grows s path l l') : Apt s path l' :=
  ⟨hl.sound h.sound, fun n hn => (hl.spared n hn).trans (h.spared n hn)⟩

theorem load_grows (s : Sources) (path : List String) (name : String) (l : Loaded) :
    Loaded.Grows s path l (outcome (load s path name) l).2 := by
  have := load_comes s path name l l rfl
  split at this
  · next h => exact h ▸ this.1
  · next h => exact h ▸ this

/-- Looking up a name that nothing is loaded under. -/
theorem outcome_load_of_none (hl : l.get? name = none) : outcome (load s path name) l =
    outcome (if name ∈ path then throw (.classCircularity name)
      else do enter name (← define (load s (name :: path)) s name) : LoadM Class) l := by
  rw [load_eq, outcome_bind_ok (outcome_getLoaded l), hl]

/-- Loading a name that is needed by all that is under way. -/
theorem load_steady (s : Sources) (path : List String) (name : String)
    (hpath : ∀ k ∈ path, Relation.TransGen s.Needs k name) :
    Steady (Apt s path) (load s path name) := by
  refine ⟨?_, fun l hl => hl.grows (load_grows s path name l)⟩
  by_cases hc : ∃ c, s.Defines name c
  · obtain ⟨c, hc⟩ := hc
    refine ⟨.ok c, fun l hl => ?_⟩
    have := load_defined hc path (hc.clear hpath) l hl.sound
    split at this
    · next d l' h => rw [h, this.1]
    · exact this.elim
  -- nothing sound has the name
  have absent {l : Loaded} (hl : Apt s path l) : l.get? name = none :=
    Option.eq_none_iff_forall_ne_some.2 fun c h => hc ⟨c, hl.sound name c h⟩
  by_cases hp : name ∈ path
  · refine ⟨.error (.classCircularity name), fun l hl => ?_⟩
    rw [outcome_load_of_none (absent hl), if_pos hp, outcome_throw]
  · have defined : Steady (Apt s (name :: path)) (define (load s (name :: path)) s name) :=
      (Steady.compositional _).define _ (load s (name :: path)) fun n hn =>
        load_steady s (name :: path) n
          (List.forall_mem_cons.2 ⟨.single hn, fun k hk => (hpath k hk).tail hn⟩)
    obtain ⟨r, hr⟩ := defined.fixed_bind fun c => ⟨.ok c, fun l _ => by rw [outcome_enter name c]⟩
    refine ⟨r, fun l hl => ?_⟩
    rw [outcome_load_of_none (absent hl), if_neg hp]
    exact hr l ⟨hl.sound, List.forall_mem_cons.2 ⟨absent hl, hl.spared⟩⟩
termination_by s.remaining path name
decreasing_by exact hn.remaining_lt hp

/-! ## Histories -/

/-- What is loaded after some names have been loaded one after another, whatever came of it. -/
def after (s : Sources) (l : Loaded) (names : List String) : Loaded :=
  names.foldl (fun l name => (outcome (load s [] name) l).2) l

theorem grows_after (s : Sources) : ∀ (names : List String) (l : Loaded),
    Loaded.Grows s [] l (after s l names)
  | [], l => refl_of (Loaded.Grows s []) l
  | name :: names, l =>
    trans_of (Loaded.Grows s []) (load_grows s [] name l) (grows_after s names _)

theorem sound_empty (s : Sources) : Loaded.Sound s .empty := fun _ _ h => by cases h

/-- **What loading a name comes to, class or fault, is what it comes to when nothing has been loaded
    before; and once a name has been loaded, loading it again gives that class and defines nothing.** -/
theorem load_after (s : Sources) (names : List String) (name : String) :
    (outcome (load s [] name) (after s .empty names)).1 = (outcome (load s [] name) .empty).1 ∧
      ∀ c l, outcome (load s [] name) (after s .empty names) = (.ok c, l) →
        ∀ later, outcome (load s [] name) (after s l later) = (.ok c, after s l later) := by
  have fresh : Apt s [] .empty := ⟨sound_empty s, by simp⟩
  constructor
  · obtain ⟨r, hr⟩ := (load_steady s [] name (by simp)).fixed
    rw [hr _ (fresh.grows (grows_after s names .empty)), hr _ fresh]
  · intro c l h later
    have entered := load_comes s [] name (after s .empty names) _ rfl
    rw [h] at entered
    rw [load, outcome_bind_ok (outcome_getLoaded _), (grows_after s later l).kept name c entered.2]
    exact outcome_pure _ _

end Loader

/-! ## Computing a class -/

namespace Sources

variable {s : Sources} {name : String} {c : Class}

/-- A class path of some class files, and nothing else. -/
def ofFiles (files : List ClassFile) : Sources where
  classPath := .ofList (files.map fun file => (file.name, file))
  natives := {}
  eager := false

/-- The class that a name means, if it means one. -/
def class? (s : Sources) (name : String) : Option Class :=
  (outcome (Loader.load s [] name) .empty).1.toOption

theorem class?_eq_some : s.class? name = some c ↔ s.Defines name c := by
  rw [← Loader.load_iff (Loader.sound_empty s), class?]
  cases (outcome (Loader.load s [] name) .empty).1 <;> simp [Except.toOption]

/-- The class is defined under its own name. -/
theorem defines_of_class? (h : s.class? name = some c) : s.Defines c.name c := by
  have hc := class?_eq_some.1 h
  exact hc.name_eq.symm ▸ hc

end Sources

end GreenVm
