/-
  Making throwables, and looking for their handlers.

  * `Exec.initializerFailure_wraps`: what leaves a class initializer that failed can always be made.
  * `Frame.Handles`, `Frame.Unhandled`: the first entry of the exception table that covers the
    position of a frame and accepts a class, or that there is none.
  * `Exec.findHandler?_spec`: the search finds it, and does nothing but load classes.
-/
import GreenVm.Proofs.Builtins
import GreenVm.Proofs.Steps

namespace GreenVm

open Exec

/-! ## The wrapper -/

/-- What a class of throwables needs so that one with a cause can be made. -/
def Class.takesCause (c : Class) : Bool :=
  !c.isInterface && !c.isAbstract && (c.slot? causeKey).any (· < c.layout.length)

theorem Library.wrapper_defined :
    ((sources.class? ClassName.exceptionInInitializer).any fun c =>
      c.takesCause && c.isBelow ClassName.error) = true := by
  decide +kernel

/-- The class of what leaves a failed initializer is there, and an error. -/
theorem Machine.Equipped.wrapper {m : Machine} (h : m.Equipped) :
    ∃ c, (sources m).Defines ClassName.exceptionInInitializer c ∧ c.takesCause = true ∧
      c.isBelow ClassName.error = true := by
  obtain ⟨c, hc, hfacts⟩ := h.defines Library.wrapper_defined
  exact ⟨c, hc, Bool.and_eq_true_iff.1 hfacts⟩

/-! ## Objects that stay -/

/-- All definitions are retained, names mean what they meant, and objects keep their classes and
    contents. -/
structure KeepsObjects (m m' : Machine) : Prop where
  retains : Retains m m'
  sources_eq : sources m' = sources m
  get? : ∀ r o, m.heap.get? r = some o →
    ∃ o', m'.heap.get? r = some o' ∧ o'.type = o.type ∧ o'.body = o.body

namespace KeepsObjects

variable {m m' m'' : Machine}

theorem of_heap (hr : Retains m m') (hs : sources m' = sources m) (h : m'.heap = m.heap) :
    KeepsObjects m m' := ⟨hr, hs, fun _ o ho => ⟨o, h.symm ▸ ho, rfl, rfl⟩⟩

theorem refl (m : Machine) : KeepsObjects m m := of_heap (.refl m) rfl rfl

theorem trans (h : KeepsObjects m m') (h' : KeepsObjects m' m'') : KeepsObjects m m'' := by
  refine ⟨h.retains.trans h'.retains, h'.sources_eq.trans h.sources_eq, fun r o ho => ?_⟩
  obtain ⟨o', ho', ht, hb⟩ := h.get? r o ho
  obtain ⟨o'', ho'', ht', hb'⟩ := h'.get? r o' ho'
  exact ⟨o'', ho'', ht'.trans ht, hb'.trans hb⟩

/-- What is not there has not been there before. -/
theorem get?_eq_none {r : Ref} (h : KeepsObjects m m') (hn : m'.heap.get? r = none) :
    m.heap.get? r = none := by
  cases ho : m.heap.get? r with
  | none => rfl
  | some o =>
    obtain ⟨o', ho', -⟩ := h.get? r o ho
    cases hn.symm.trans ho'

theorem released (m : Machine) (id : ThreadId) (rs : List Ref) :
    KeepsObjects m (m.released id rs) := by
  induction rs generalizing m with
  | nil => exact refl m
  | cons r rs ih =>
    suffices first : KeepsObjects m (outcome (release id r) m).2 from first.trans (ih _)
    have retained : Retains m (outcome (release id r) m).2 := release_lively m
    rcases release_cases r id m with e | e
    · rw [e]
      exact refl m
    · have hmonitor := withMonitor_cases r (·.exit id) m
      rcases hmonitor with ⟨e', he'⟩ | ⟨o, a, monitor, ho, -, he'⟩
      · rw [e, leaveMonitor, outcome_bind_error he']
        exact refl m
      · rw [e, leaveMonitor, outcome_bind_ok he'] at retained ⊢
        refine ⟨retained, rfl, fun r' o' ho' => ?_⟩
        by_cases hr : r = r'
        · subst hr
          cases ho.symm.trans ho'
          exact ⟨_, Heap.get?_update_self ho, rfl, rfl⟩
        · exact ⟨o', (Heap.get?_update_of_ne hr).trans ho', rfl, rfl⟩

end KeepsObjects

/-! ## What leaves a failed initializer -/

namespace Exec

variable {m m' : Machine} {r : Ref} {o : Object} {c : Class}

/-- Loading a class that is defined. -/
theorem outcome_loadClass {name : String} (hg : m.Grounded) (hd : (sources m).Defines name c) :
    ∃ loaded, outcome (loadClass name) m = (.ok c, { m with loaded }) := by
  refine ⟨(outcome (Loader.load (sources m) [] name) m.loaded).2, ?_⟩
  exact Prod.ext ((Loader.load_iff hg.loaded).2 hd) rfl

/-- The cause of a new object whose class takes one. -/
theorem putField_cause (h : c.takesCause = true) (v : Value) :
    ∃ o, (Object.ofClass c {}).putField causeKey v = .ok o ∧ o.type = c ∧
      o.getField causeKey = .ok v := by
  obtain ⟨slot, hslot, hlt⟩ := (Option.any_eq_true _ _).1 (Bool.and_eq_true_iff.1 h).2
  have hlt : slot < c.layout.length := of_decide_eq_true hlt
  have hfield : (Object.ofClass c {}).fieldSlot causeKey = .ok slot := by
    simp only [Object.fieldSlot, Object.ofClass, hslot]
  refine ⟨{ Object.ofClass c {} with
    body := .fields ((c.layout.map fun s => Value.default s.field.type).toArray.setIfInBounds
      slot v) }, ?_, rfl, ?_⟩
  · refine except_bind_eq_ok.2 ⟨slot, hfield, liftM_eq_ok.2 ?_⟩
    simp [Object.putSlot, Object.ofClass, hlt]
  · refine except_bind_eq_ok.2 ⟨slot, ?_, liftM_eq_ok.2 ?_⟩
    · simp only [Object.fieldSlot, Object.ofClass, hslot]
    · simp [Object.getSlot, hlt]

/-- An error leaves a failed initializer as it is. -/
theorem initializerFailure_error (ho : m.heap.get? r = some o)
    (he : o.type.isBelow ClassName.error = true) :
    outcome (initializerFailure r) m = (.ok r, m) := by
  rw [initializerFailure, outcome_bind_ok (outcome_typeOf ho), if_pos he, outcome_pure]

/-- Anything else becomes the cause of a new error. -/
theorem initializerFailure_wraps (hg : m.Grounded) (heq : m.Equipped)
    (ho : m.heap.get? r = some o) (he : o.type.isBelow ClassName.error = false) :
    ∃ loaded o', outcome (initializerFailure r) m =
        (.ok ⟨m.heap.objects.size⟩, { m with loaded, heap := (m.heap.allocate o').2 }) ∧
      o'.type.name = ClassName.exceptionInInitializer ∧
      o'.type.isBelow ClassName.error = true ∧
      o'.getField causeKey = .ok (.reference (some r)) := by
  obtain ⟨c, hc, htakes, hbelow⟩ := heq.wrapper
  obtain ⟨loaded, hload⟩ := outcome_loadClass hg hc
  obtain ⟨o', hput, htype', hcause⟩ := putField_cause htakes (.reference (some r))
  have hconcrete : (c.isInterface || c.isAbstract) = false := by
    simp only [Class.takesCause, Bool.and_eq_true, Bool.not_eq_true'] at htakes
    rw [htakes.1.1, htakes.1.2]
    rfl
  have hnew : outcome (newObject ClassName.exceptionInInitializer) m =
      (.ok ⟨m.heap.objects.size⟩,
        { m with loaded, heap := (m.heap.allocate (.ofClass c {})).2 }) := by
    rw [newObject, outcome_bind_ok hload, instantiate, if_neg (by simp [hconcrete])]
    rfl
  have hfield : outcome (putField ⟨m.heap.objects.size⟩ causeKey (.reference (some r)))
      { m with loaded, heap := (m.heap.allocate (.ofClass c {})).2 } =
        (.ok (), { m with loaded, heap := (m.heap.allocate o').2 }) := by
    have hobject : (m.heap.allocate (.ofClass c {})).2.get? ⟨m.heap.objects.size⟩ =
        some (.ofClass c {}) := by
      rw [Heap.get?_allocate, if_pos rfl]
    rw [putField, outcome_bind_ok (outcome_object hobject), hput,
      outcome_bind_ok (outcome_liftExcept _ _), outcome_setObject, Heap.update_allocate]
  refine ⟨loaded, o', ?_, ?_, htype' ▸ hbelow, hcause⟩
  · rw [initializerFailure, outcome_bind_ok (outcome_typeOf ho), if_neg (by simp [he]), outcome_raiseNew,
      newThrowable, outcome_bind_ok hnew]
    dsimp only
    rw [outcome_bind_ok hfield, outcome_pure]
  · rw [htype']
    exact hc.name_eq

end Exec

/-! ## Handlers -/

/-- An entry of an exception table accepts objects of a class: it has no catch type, or one that
    means a class which they can be assigned to. -/
def Handler.Accepts (h : Handler) (m : Machine) (owner thrown : Class) : Prop :=
  ∀ index ∈ h.catchType, ∃ c, (outcome (classAt owner index) m).1 = .ok c ∧
    thrown.isAssignableTo c = true

/-- The first of some entries that accepts objects of a class leads to a place, or none does. -/
def Selects (m : Machine) (owner thrown : Class) (hs : List Handler) : Option Nat → Prop
  | some handler => ∃ before h after, hs = before ++ h :: after ∧ h.Accepts m owner thrown ∧
      (∀ h' ∈ before, ¬ h'.Accepts m owner thrown) ∧ h.handler = handler
  | none => ∀ h ∈ hs, ¬ h.Accepts m owner thrown

/-- A frame handles objects of a class: of the entries that cover its position, the first that
    accepts them leads to a place. -/
def Frame.Handles (f : Frame) (m : Machine) (thrown : Class) (handler : Nat) : Prop :=
  Selects m f.owner thrown f.coveringHandlers (some handler)

/-- No entry that covers the position of a frame accepts objects of a class. -/
def Frame.Unhandled (f : Frame) (m : Machine) (thrown : Class) : Prop :=
  Selects m f.owner thrown f.coveringHandlers none

namespace Selects

variable {m : Machine} {owner thrown : Class} {h : Handler} {hs : List Handler}

theorem here (ha : h.Accepts m owner thrown) : Selects m owner thrown (h :: hs) (some h.handler) :=
  ⟨[], h, hs, rfl, ha, nofun, rfl⟩

theorem later (ha : ¬ h.Accepts m owner thrown) {found : Option Nat}
    (hl : Selects m owner thrown hs found) : Selects m owner thrown (h :: hs) found := by
  cases found with
  | none => exact List.forall_mem_cons.2 ⟨ha, hl⟩
  | some handler =>
    obtain ⟨before, k, after, rfl, hk, hbefore, rfl⟩ := hl
    exact ⟨h :: before, k, after, rfl, hk, List.forall_mem_cons.2 ⟨ha, hbefore⟩, rfl⟩

end Selects

/-- Nothing but classes may have been loaded. -/
structure Loads (m m' : Machine) : Prop where
  retains : Retains m m'
  loaded : ∃ loaded, m' = { m with loaded }

namespace Loads

variable {m m' m'' : Machine}

theorem refl (m : Machine) : Loads m m := ⟨.refl m, m.loaded, rfl⟩

theorem trans (h : Loads m m') (h' : Loads m' m'') : Loads m m'' := by
  refine ⟨h.retains.trans h'.retains, ?_⟩
  obtain ⟨-, loaded, rfl⟩ := h
  obtain ⟨-, loaded', rfl⟩ := h'
  exact ⟨loaded', rfl⟩

theorem keepsObjects (h : Loads m m') : KeepsObjects m m' := by
  obtain ⟨hr, loaded, rfl⟩ := h
  exact .of_heap hr rfl rfl

end Loads

namespace Exec

variable {m m' : Machine} {owner thrown : Class} {index : Nat} {hs : List Handler}

theorem classAt_loads (owner : Class) (index : Nat) (m : Machine) :
    Loads m (outcome (classAt owner index) m).2 := by
  refine ⟨classAt_within m, ?_⟩
  unfold classAt
  cases owner.constant index with
  | error e => exact ⟨m.loaded, rfl⟩
  | ok k =>
    cases k with
    | classRef name =>
      show ∃ loaded, (outcome (mentioned owner name) m).2 = { m with loaded }
      unfold mentioned
      split
      · exact ⟨m.loaded, rfl⟩
      · exact ⟨_, rfl⟩
    | _ => exact ⟨m.loaded, rfl⟩

/-- What a pool entry refers to is a matter of the class files and natives. -/
theorem classAt_congr (hg : m.Grounded) (h : KeepsObjects m m') {c : Class} :
    (outcome (classAt owner index) m').1 = .ok c ↔ (outcome (classAt owner index) m).1 = .ok c := by
  have load (name : String) : (outcome (loadClass name) m').1 = .ok c ↔
      (outcome (loadClass name) m).1 = .ok c := by
    have h₁ : (outcome (Loader.load (sources m) [] name) m.loaded).1 = .ok c ↔ _ :=
      Loader.load_iff hg.loaded
    have h₂ : (outcome (Loader.load (sources m') [] name) m'.loaded).1 = .ok c ↔ _ :=
      Loader.load_iff (h.retains.grounded hg).loaded
    rw [h.sources_eq] at h₂
    refine Iff.trans ?_ h₁.symm
    rw [← h₂, ← h.sources_eq]
    rfl
  have constant {x : Constant → Exec Class}
      (hx : ∀ k, (outcome (x k) m').1 = .ok c ↔ (outcome (x k) m).1 = .ok c) :
      (outcome ((liftM (owner.constant index) : Exec Constant) >>= x) m').1 = .ok c ↔
        (outcome ((liftM (owner.constant index) : Exec Constant) >>= x) m).1 = .ok c := by
    cases owner.constant index with
    | error e => exact Iff.rfl
    | ok k => exact hx k
  refine constant fun k => ?_
  split
  · unfold mentioned
    split
    · exact Iff.rfl
    · exact load _
  · exact Iff.rfl

/-- What an entry accepts is, too. -/
theorem accepts_congr (hg : m.Grounded) (h : KeepsObjects m m') {e : Handler} :
    e.Accepts m' owner thrown ↔ e.Accepts m owner thrown :=
  forall_congr' fun _ => imp_congr_right fun _ => exists_congr fun _ =>
    and_congr_left' (classAt_congr hg h)

theorem selects_congr (hg : m.Grounded) (h : KeepsObjects m m') {found : Option Nat} :
    Selects m' owner thrown hs found ↔ Selects m owner thrown hs found := by
  cases found <;> simp only [Selects, accepts_congr hg h]

/-- The first of some entries that accepts a class is found. -/
theorem acceptingHandler?_spec (hg : m.Grounded) :
    ∃ found m', outcome (acceptingHandler? owner thrown hs) m = (.ok found, m') ∧ Loads m m' ∧
      Selects m owner thrown hs found := by
  induction hs generalizing m with
  | nil => exact ⟨none, m, rfl, .refl m, nofun⟩
  | cons e hs ih =>
    -- the entry does not accept the class, and the search goes on
    have goesOn {m₁ : Machine} (hl : Loads m m₁) (hn : ¬ e.Accepts m owner thrown) :
        ∃ found m', outcome (acceptingHandler? owner thrown hs) m₁ = (.ok found, m') ∧
          Loads m m' ∧ Selects m owner thrown (e :: hs) found := by
      obtain ⟨found, m', hx, hl', hfound⟩ := ih (hl.retains.grounded hg)
      exact ⟨found, m', hx, hl.trans hl', .later hn ((selects_congr hg hl.keepsObjects).1 hfound)⟩
    rw [acceptingHandler?]
    cases hc : e.catchType with
    | none =>
      refine ⟨some e.handler, m, rfl, .refl m, .here fun index hi => ?_⟩
      rw [hc] at hi
      cases hi
    | some index =>
      dsimp only
      rw [outcome_bind_ok (outcome_attempt _ _)]
      have hl : Loads m (outcome (classAt owner index) m).2 := classAt_loads owner index m
      have accepts : e.Accepts m owner thrown ↔ ∃ c,
          (outcome (classAt owner index) m).1 = .ok c ∧ thrown.isAssignableTo c = true := by
        simp [Handler.Accepts, hc]
      generalize outcome (classAt owner index) m = x at hl accepts ⊢
      obtain ⟨fault | c, m₁⟩ := x
      · refine goesOn hl fun ha => ?_
        obtain ⟨c, hc', -⟩ := accepts.1 ha
        cases hc'
      · dsimp only
        split
        · next hassign =>
          exact ⟨some e.handler, m₁, rfl, hl, .here (accepts.2 ⟨c, rfl, hassign⟩)⟩
        · next hassign =>
          refine goesOn hl fun ha => ?_
          obtain ⟨d, hd, hassign'⟩ := accepts.1 ha
          cases hd
          exact hassign hassign'

/-- The handler of an object is found, and nothing but classes loaded. -/
theorem findHandler?_spec (hg : m.Grounded) {f : Frame} {r : Ref} {o : Object}
    (ho : m.heap.get? r = some o) :
    ∃ found m', outcome (findHandler? f r) m = (.ok found, m') ∧ Loads m m' ∧
      Selects m f.owner o.type f.coveringHandlers found := by
  rw [findHandler?, outcome_bind_ok (outcome_typeOf ho)]
  exact acceptingHandler?_spec hg

end Exec

end GreenVm
