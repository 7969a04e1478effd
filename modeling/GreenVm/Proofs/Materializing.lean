/-
  Objects of the throwables that the machine itself raises.

  * `Class.IsThrowable`: a concrete class below `Throwable`, with no field but message and cause.
    Every built-in class of throwables is one.
  * `Machine.Complete`: the built-in classes can be loaded, whatever else has been loaded or could
    not be.
  * `Exec.materialize_builtIn`: then the object of a throwable of a built-in class can be made, and
    reports the throwable.
-/
import GreenVm.Proofs.Faults
import GreenVm.Proofs.Throwing

namespace GreenVm

open Exec

/-! ## Built-in classes of throwables -/

/-- A concrete class below `Throwable`, with no field but message and cause. -/
structure Class.IsThrowable (c : Class) : Prop where
  concrete : (c.isInterface || c.isAbstract) = false
  below : c.isBelow ClassName.throwable = true
  message : c.slot? detailMessageKey = some 0
  cause : c.slot? causeKey = some 1
  defaults : c.layout.map (fun s => Value.default s.field.type) = [.null, .null]

instance (c : Class) : Decidable c.IsThrowable :=
  decidable_of_iff ((c.isInterface || c.isAbstract) = false ∧
      c.isBelow ClassName.throwable = true ∧ c.slot? detailMessageKey = some 0 ∧
      c.slot? causeKey = some 1 ∧
      c.layout.map (fun s => Value.default s.field.type) = [.null, .null])
    ⟨fun ⟨h₁, h₂, h₃, h₄, h₅⟩ => ⟨h₁, h₂, h₃, h₄, h₅⟩, fun ⟨h₁, h₂, h₃, h₄, h₅⟩ =>
      ⟨h₁, h₂, h₃, h₄, h₅⟩⟩

theorem Library.throwable_defined : ∀ name ∈ ClassName.builtInThrowables,
    ((sources.class? name).any fun c => decide c.IsThrowable) = true := by
  decide +kernel

theorem Library.string_defined : ((sources.class? ClassName.string).any fun _ => true) = true := by
  decide +kernel

/-- The classes in the machine are what their names mean, and it has the natives of the built-in
    classes. -/
structure Machine.Complete (m : Machine) : Prop where
  grounded : m.Grounded
  equipped : m.Equipped

namespace Machine.Complete

variable {m m' : Machine} {name : String}

theorem retains (h : m.Complete) (hr : Retains m m') : m'.Complete :=
  ⟨hr.grounded h.grounded, hr.equipped h.equipped⟩

/-- A built-in class of throwables is there when it is needed. -/
theorem throwable (h : m.Complete) (hn : name ∈ ClassName.builtInThrowables) :
    ∃ c loaded, outcome (loadClass name) m = (.ok c, { m with loaded }) ∧ c.name = name ∧
      c.IsThrowable := by
  obtain ⟨c, hc, hthrowable⟩ := h.equipped.defines (Library.throwable_defined name hn)
  obtain ⟨loaded, hload⟩ := outcome_loadClass h.grounded hc
  exact ⟨c, loaded, hload, hc.name_eq, of_decide_eq_true hthrowable⟩

/-- A string can always be made. -/
theorem string (h : m.Complete) (text : String) :
    ∃ c loaded, outcome (newString text) m = (.ok ⟨m.heap.objects.size⟩, { m with
      loaded, heap := (m.heap.allocate (.ofClass c { text := some text })).2 }) := by
  obtain ⟨c, hc, -⟩ := h.equipped.defines Library.string_defined
  obtain ⟨loaded, hload⟩ := outcome_loadClass h.grounded hc
  exact ⟨c, loaded, by rw [newString, outcome_bind_ok hload]; rfl⟩

end Machine.Complete

/-! ## Their objects -/

/-- A new object of a class of throwables, with its message and its cause. -/
def Object.ofThrowable (c : Class) (message cause : Value) : Object :=
  { Object.ofClass c {} with body := .fields #[message, cause] }

namespace Object

variable {c : Class} {message cause v : Value}

theorem ofClass_eq_ofThrowable (hc : c.IsThrowable) :
    Object.ofClass c {} = ofThrowable c .null .null := by
  have hbody : (c.layout.map fun s => Value.default s.field.type).toArray = #[.null, .null] := by
    rw [hc.defaults]
  simp only [ofThrowable, Object.ofClass, hbody]

theorem putField_message (hc : c.IsThrowable) :
    (ofThrowable c message cause).putField detailMessageKey v = .ok (ofThrowable c v cause) :=
  except_bind_eq_ok.2 ⟨0, by simp only [fieldSlot, ofThrowable, ofClass, hc.message], rfl⟩

theorem putField_causeOf (hc : c.IsThrowable) :
    (ofThrowable c message cause).putField causeKey v = .ok (ofThrowable c message v) :=
  except_bind_eq_ok.2 ⟨1, by simp only [fieldSlot, ofThrowable, ofClass, hc.cause], rfl⟩

theorem getField_message (hc : c.IsThrowable) :
    (ofThrowable c message cause).getField detailMessageKey = .ok message :=
  except_bind_eq_ok.2 ⟨0, by simp only [fieldSlot, ofThrowable, ofClass, hc.message], rfl⟩

theorem getField_causeOf (hc : c.IsThrowable) :
    (ofThrowable c message cause).getField causeKey = .ok cause :=
  except_bind_eq_ok.2 ⟨1, by simp only [fieldSlot, ofThrowable, ofClass, hc.cause], rfl⟩

end Object

/-- A throwable without a cause reports itself. -/
theorem Heap.thrownChain_ofThrowable {h : Heap} {r : Ref} {c : Class} (hc : c.IsThrowable)
    (message : Option Ref)
    (ho : h.get? r = some (.ofThrowable c (.reference message) .null)) :
    h.thrownChain r = [{
      className := c.name
      message := message.bind fun s => (h.get? s).bind (·.payload.text) }] := by
  have field {key : String} {x : Option Ref}
      (hx : (Object.ofThrowable c (.reference message) .null).getField key = .ok (.reference x)) :
      (Object.ofThrowable c (.reference message) .null).throwableField? key = x := by
    rw [Object.throwableField?, show (Object.ofThrowable c (.reference message) .null).type = c
      from rfl, if_pos hc.below, hx]
  have chain : h.causeChain r = [r] := by
    rw [causeChain, chainFrom]
    split
    · next hn => cases ho.symm.trans hn
    · next o ho' =>
      cases ho.symm.trans ho'
      rw [dif_neg List.not_mem_nil, field (Object.getField_causeOf hc)]
  have told : h.messageOf? (.ofThrowable c (.reference message) .null) =
      message.bind fun s => (h.get? s).bind (·.payload.text) := by
    rw [messageOf?, field (Object.getField_message hc)]
  simp only [thrownChain, chain, List.filterMap_cons, List.filterMap_nil, thrownLink?, ho,
    Option.map_some, told]
  rfl

namespace Exec

variable {m : Machine} {r : Ref} {name : String}

theorem outcome_putField {o o' : Object} {key : String} {v : Value}
    (ho : m.heap.get? r = some o) (hp : o.putField key v = .ok o') :
    outcome (putField r key v) m = (.ok (), { m with heap := m.heap.update r fun _ => o' }) := by
  rw [putField, outcome_bind_ok (outcome_object ho), hp, outcome_bind_ok (outcome_liftExcept _ _),
    outcome_setObject]

/-- A throwable of a built-in class, before it has been given its message. -/
theorem newObject_throwable (h : m.Complete) (hn : name ∈ ClassName.builtInThrowables) :
    ∃ c loaded, c.name = name ∧ c.IsThrowable ∧
      outcome (newObject name) m = (.ok ⟨m.heap.objects.size⟩, { m with
        loaded, heap := (m.heap.allocate (.ofThrowable c .null .null)).2 }) := by
  obtain ⟨c, loaded, hload, hname, hc⟩ := h.throwable hn
  refine ⟨c, loaded, hname, hc, ?_⟩
  rw [newObject, outcome_bind_ok hload, instantiate, if_neg (by simp [hc.concrete]),
    Object.ofClass_eq_ofThrowable hc]
  rfl

/-- A throwable of a built-in class can be made. -/
theorem newThrowable_builtIn (h : m.Complete) (hn : name ∈ ClassName.builtInThrowables)
    (message : Option String) :
    ∃ r m', outcome (newThrowable name message none) m = (.ok r, m') ∧
      m'.heap.thrownChain r = [{ className := name, message }] := by
  obtain ⟨c, loaded, rfl, hc, hnew⟩ := newObject_throwable h hn
  have retained : Retains m (outcome (newObject c.name) m).2 := newObject_within m
  rw [hnew] at retained
  have fresh : (m.heap.allocate (.ofThrowable c .null .null)).2.get? ⟨m.heap.objects.size⟩ =
      some (.ofThrowable c .null .null) := by
    rw [Heap.get?_allocate, if_pos rfl]
  rw [newThrowable, outcome_bind_ok hnew]
  cases message with
  | none =>
    dsimp only
    rw [outcome_bind_ok (outcome_putField fresh (Object.putField_causeOf hc)), outcome_pure]
    exact ⟨_, _, rfl, Heap.thrownChain_ofThrowable hc none (Heap.get?_update_self fresh)⟩
  | some text =>
    obtain ⟨k, loaded', hstring⟩ := (h.retains retained).string text
    dsimp only
    rw [outcome_bind_ok hstring]
    -- the string comes after the throwable, and the throwable is changed twice
    set heap := ((m.heap.allocate (.ofThrowable c .null .null)).2.allocate
      (.ofClass k { text := some text })).2 with hheap
    set s : Ref := ⟨(m.heap.allocate (.ofThrowable c .null .null)).2.objects.size⟩ with hs
    have there : heap.get? ⟨m.heap.objects.size⟩ = some (.ofThrowable c .null .null) :=
      Heap.get?_allocate_of_get? fresh
    have told := Heap.get?_update_self (f := fun _ => .ofThrowable c (.ofRef s) .null) there
    rw [outcome_bind_ok (outcome_putField there (Object.putField_message hc)),
      outcome_bind_ok (outcome_putField told (Object.putField_causeOf hc)), outcome_pure]
    refine ⟨_, _, rfl, (Heap.thrownChain_ofThrowable hc s (Heap.get?_update_self told)).trans ?_⟩
    have hne : (⟨m.heap.objects.size⟩ : Ref) ≠ s := by
      intro e
      simp [hs, Heap.allocate] at e
    have stays : heap.get? s = some (.ofClass k { text := some text }) :=
      Heap.get?_allocate.trans (if_pos rfl)
    rw [Option.bind_some, Heap.get?_update_of_ne hne, Heap.get?_update_of_ne hne, stays]
    rfl

/-- **The object of a throwable of a built-in class can always be made**, and reports the
    throwable. -/
theorem materialize_builtIn (h : m.Complete) (hn : name ∈ ClassName.builtInThrowables)
    (message : Option String) :
    ∃ r m', outcome (materialize (.symbolic name message)) m = (.ok r, m') ∧
      m'.heap.thrownChain r = [{ className := name, message }] := by
  obtain ⟨r, m', hx, hr⟩ := newThrowable_builtIn h hn message
  refine ⟨r, m', ?_, hr⟩
  rw [materialize, outcome_raiseNew, hx]

/-- Only of a throwable whose class is not built in there may be no object. -/
theorem materialize_error (h : m.Complete) {e : Throwable} {f : Fault} {m' : Machine}
    (hm : outcome (materialize e) m = (.error f, m')) :
    ∃ name message reason, e = .symbolic name message ∧ name ∉ ClassName.builtInThrowables ∧
      f = .fatal (.materialize name reason) := by
  cases e with
  | object r => cases (outcome_pure _ _).symm.trans hm
  | symbolic name message =>
    refine ⟨name, message, ?_⟩
    by_cases hn : name ∈ ClassName.builtInThrowables
    · obtain ⟨r, m₁, hx, -⟩ := materialize_builtIn h hn message
      cases hx.symm.trans hm
    · rw [materialize, outcome_raiseNew] at hm
      split at hm
      · cases hm
      · cases hm
        exact ⟨_, rfl, hn, rfl⟩

/-- There is an object of every throwable, unless its class is not built in. -/
theorem exists_materialize (h : m.Complete) (e : Throwable) :
    (∃ r m', outcome (materialize e) m = (.ok r, m')) ∨
      ∃ name message, e = .symbolic name message ∧ name ∉ ClassName.builtInThrowables := by
  rcases hx : outcome (materialize e) m with ⟨f | r, m'⟩
  · obtain ⟨name, message, -, he, hn, -⟩ := materialize_error h hx
    exact .inr ⟨name, message, he, hn⟩
  · exact .inl ⟨r, m', rfl⟩

/-- There is an object of every throwable that the machine raises itself. -/
theorem materialize_own (h : m.Complete) {e : Throwable} (he : (Fault.thrown e).IsOwn) :
    ∃ r m', outcome (materialize e) m = (.ok r, m') := by
  rcases exists_materialize h e with hm | ⟨name, message, rfl, hn⟩
  · exact hm
  · cases he with
    | symbolic h => exact absurd h hn

/-- What leaves a failed initializer can always be made. -/
theorem initializerFailure_error_plain (h : m.Complete) {f : Fault} {m' : Machine}
    (hf : outcome (initializerFailure r) m = (.error f, m')) : f.IsPlain := by
  rcases object_cases r m with ⟨-, e⟩ | ⟨o, ho, -⟩
  · rw [initializerFailure, typeOf, outcome_bind_error (outcome_bind_error e)] at hf
    cases hf
    exact .fatal fun _ _ h => by cases h
  · cases hb : o.type.isBelow ClassName.error with
    | true => cases (initializerFailure_error ho hb).symm.trans hf
    | false =>
      obtain ⟨loaded, o', hx, -⟩ := initializerFailure_wraps h.grounded h.equipped ho hb
      cases hx.symm.trans hf

end Exec

end GreenVm
