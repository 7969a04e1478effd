/-
  The heap under its operations, and what comes of the operations on a single object.
-/
import GreenVm.Proofs.Work

namespace GreenVm

namespace Heap

variable {h : Heap} {r r' : Ref} {o : Object} {f : Object → Object}

theorem get?_eq_some_iff : h.get? r = some o ↔ ∃ hr : r.index < h.objects.size, h.objects[r.index] = o :=
  Array.getElem?_eq_some_iff

theorem lt_size_of_get? (ho : h.get? r = some o) : r.index < h.objects.size :=
  (get?_eq_some_iff.1 ho).1

@[simp] theorem size_update : (h.update r f).objects.size = h.objects.size := Array.size_modify ..

theorem get?_update : (h.update r f).get? r' = if r = r' then (h.get? r').map f else h.get? r' := by
  simp only [get?, update, Array.getElem?_modify]
  obtain ⟨i⟩ := r; obtain ⟨j⟩ := r'
  simp only [Ref.mk.injEq]

theorem get?_update_self (ho : h.get? r = some o) : (h.update r f).get? r = some (f o) := by
  simp [get?_update, ho]

theorem get?_update_of_ne (hr : r ≠ r') : (h.update r f).get? r' = h.get? r' := by
  simp [get?_update, hr]

@[simp] theorem fst_allocate : (h.allocate o).1 = ⟨h.objects.size⟩ := rfl

theorem get?_allocate :
    (h.allocate o).2.get? r = if r.index = h.objects.size then some o else h.get? r := by
  simp only [get?, allocate, Array.getElem?_push]

theorem get?_allocate_of_get? (ho : h.get? r = some o) {o' : Object} :
    (h.allocate o').2.get? r = some o := by
  rw [get?_allocate, if_neg (by have := lt_size_of_get? ho; omega), ho]

/-- Changing an object twice. -/
theorem update_update (h : Heap) (r : Ref) (f g : Object → Object) :
    (h.update r f).update r g = h.update r (g ∘ f) := by
  simp only [Heap.update, Heap.mk.injEq]
  refine Array.ext_getElem? fun i => ?_
  simp only [Array.getElem?_modify]
  split
  · rw [Option.map_map]
  · rfl

/-- Changing an object that was just added. -/
theorem update_allocate (h : Heap) (o : Object) (f : Object → Object) :
    (h.allocate o).2.update ⟨h.objects.size⟩ f = (h.allocate (f o)).2 := by
  simp only [Heap.update, Heap.allocate, Heap.mk.injEq]
  refine Array.ext_getElem? fun i => ?_
  rw [Array.getElem?_modify, Array.getElem?_push, Array.getElem?_push]
  by_cases hi : i = h.objects.size
  · simp [hi]
  · rw [if_neg hi, if_neg hi, if_neg fun e => hi e.symm]

end Heap

namespace Exec

variable {r : Ref} {m : Machine} {o : Object}

theorem outcome_object (h : m.heap.get? r = some o) : outcome (object r) m = (.ok o, m) := by
  rw [object, outcome_bind_ok (outcome_get m)]
  simp only [h, outcome_pure]

theorem outcome_object_dangling (h : m.heap.get? r = none) :
    outcome (object r) m = (.error (.fatal (.danglingReference r)), m) := by
  rw [object, outcome_bind_ok (outcome_get m)]
  simp only [h, outcome_throw]

theorem object_cases (r : Ref) (m : Machine) :
    (m.heap.get? r = none ∧ outcome (object r) m = (.error (.fatal (.danglingReference r)), m)) ∨
      ∃ o, m.heap.get? r = some o ∧ outcome (object r) m = (.ok o, m) := by
  cases h : m.heap.get? r with
  | none => exact .inl ⟨rfl, outcome_object_dangling h⟩
  | some o => exact .inr ⟨o, rfl, outcome_object h⟩

/-- An object is found without any change. -/
theorem object_ok {m' : Machine} (h : outcome (object r) m = (.ok o, m')) :
    m.heap.get? r = some o ∧ m' = m := by
  rcases object_cases r m with ⟨-, e⟩ | ⟨o', ho, e⟩
  · cases e.symm.trans h
  · cases e.symm.trans h
    exact ⟨ho, rfl⟩

/-- The class of an object is found without any change. -/
theorem outcome_typeOf (h : m.heap.get? r = some o) : outcome (typeOf r) m = (.ok o.type, m) := by
  rw [typeOf, outcome_bind_ok (outcome_object h), outcome_pure]

theorem typeOf_ok {c : Class} {m' : Machine} (h : outcome (typeOf r) m = (.ok c, m')) :
    ∃ o, m.heap.get? r = some o ∧ o.type = c ∧ m' = m := by
  obtain ⟨o, m₁, ho, hc⟩ := outcome_bind_eq_ok h
  obtain ⟨ho, rfl⟩ := object_ok ho
  cases (outcome_pure _ _).symm.trans hc
  exact ⟨o, ho, rfl, rfl⟩

@[simp] theorem outcome_updateObject (r : Ref) (f : Object → Object) (m : Machine) :
    outcome (updateObject r f) m = (.ok (), { m with heap := m.heap.update r f }) := rfl

@[simp] theorem outcome_setObject (r : Ref) (o : Object) (m : Machine) :
    outcome (setObject r o) m = (.ok (), { m with heap := m.heap.update r fun _ => o }) := rfl

/-- The machine with another monitor on an object. -/
def withNewMonitor (m : Machine) (r : Ref) (o : Object) (monitor : Monitor) : Machine :=
  { m with heap := m.heap.update r fun _ => { o with monitor } }

/-- An operation on a monitor is refused, and changes nothing at all, or it changes the monitor. -/
theorem withMonitor_cases {α : Type} (r : Ref) (f : Monitor → Except Fault (α × Monitor))
    (m : Machine) :
    (∃ e, outcome (withMonitor r f) m = (.error e, m)) ∨
      ∃ o a monitor, m.heap.get? r = some o ∧ f o.monitor = .ok (a, monitor) ∧
        outcome (withMonitor r f) m = (.ok a, withNewMonitor m r o monitor) := by
  unfold withMonitor
  rcases object_cases r m with ⟨-, h⟩ | ⟨o, ho, h⟩
  · exact .inl ⟨_, outcome_bind_error h⟩
  · rw [outcome_bind_ok h]
    rcases hf : f o.monitor with e | ⟨a, monitor⟩
    · exact .inl ⟨e, outcome_bind_error (outcome_liftExcept _ _)⟩
    · refine .inr ⟨o, a, monitor, ho, hf, ?_⟩
      rw [outcome_bind_ok (outcome_liftExcept _ _)]
      rfl

end Exec

end GreenVm
