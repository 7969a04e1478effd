/-
  Properties of objects that last.

  * `Lasting P`: every new object has the property, and nothing that is done to an object takes it
    away.
  * `Vm.each_after`: in every state that a virtual machine can reach, all objects have the property.
-/
import GreenVm.Proofs.Arrays

namespace GreenVm

open Exec

variable {m m' : Machine} {r : Ref} {o : Object} {host : Host} {P : Object → Prop}

/-- Objects have the property if those that are there do, and it is one of the class and the contents
    which the setting of an element does not touch. -/
class Lasting (P : Object → Prop) : Prop where
  of_fills : ∀ {m : Machine} {o : Object}, m.Fills o → m.Each P → P o
  of_same : ∀ {o o' : Object}, o'.type = o.type → o'.body = o.body → P o → P o'
  setElement : ∀ {o : Object} (place : Nat) (v : Value), P o → P (o.setElement place v)

namespace Machine.Each

theorem of_same (h : m.Each P) (hs : sources m' = sources m) (hl : m'.loaded = m.loaded)
    (hh : m'.heap = m.heap) : m'.Each P := by
  refine ⟨?_, ?_⟩
  · rw [hs, hl]
    exact h.loaded
  · rw [hh]
    exact h.objects

theorem update {f : Object → Object} (h : m.Each P)
    (hf : ∀ o, m.heap.get? r = some o → P o → P (f o)) :
    Machine.Each P { m with heap := m.heap.update r f } := by
  refine ⟨h.loaded, fun r' o' ho' => ?_⟩
  rw [Heap.get?_update] at ho'
  split at ho'
  · next hr =>
    obtain ⟨o, ho, rfl⟩ := Option.map_eq_some_iff.1 ho'
    exact hf o (hr ▸ ho) (h.objects r' o ho)
  · exact h.objects r' o' ho'

theorem allocate (h : m.Each P) (ho : P o) :
    Machine.Each P { m with heap := (m.heap.allocate o).2 } := by
  refine ⟨h.loaded, fun r' o' ho' => ?_⟩
  rw [Heap.get?_allocate] at ho'
  split at ho'
  · cases ho'
    exact ho
  · exact h.objects r' o' ho'

end Machine.Each

/-- If all objects have the property, they keep it, and new ones have it. -/
def KeepsEach (P : Object → Prop) (m m' : Machine) : Prop := m.Each P → m'.Each P

namespace KeepsEach

variable [Lasting P]

instance : Quiet (KeepsEach P) where
  refl _ h := h
  trans _ _ _ h h' hs := h' (h hs)
  load m name h := ⟨(loadClass_grows m name).sound h.loaded, h.objects⟩
  setStatics _ _ _ h := h.of_same rfl rfl rfl
  create _ _ _ hf h := h.allocate (Lasting.of_fills hf h)
  update _ _ _ _ hf h := h.update fun o ho _ => Lasting.of_fills (hf o ho) h
  intern _ _ _ _ _ hf _ _ h := (h.allocate (Lasting.of_fills hf h)).of_same rfl rfl rfl
  classObject _ _ _ _ _ hf _ _ h := (h.allocate (Lasting.of_fills hf h)).of_same rfl rfl rfl
  print _ _ _ h := h.of_same rfl rfl rfl

instance : Lively (KeepsEach P) where
  change _ _ _ hf h := h.update fun o ho => Lasting.of_same (hf o ho).type_eq (hf o ho).body_eq
  request _ _ _ h := h.of_same rfl rfl rfl
  bind _ _ _ h := h.of_same rfl rfl rfl
  start _ _ _ _ _ _ _ _ _ h := h.of_same rfl rfl rfl

instance : Initializes (KeepsEach P) where
  setInit _ _ _ h := h.of_same rfl rfl rfl

instance : StoresBytes (KeepsEach P) where
  storeByte _ _ _ place _ _ _ h := h.update fun _ _ => Lasting.setElement place _

omit [Lasting P] in
theorem register (m : Machine) (className name descriptor : String) (native : Native) :
    KeepsEach P m { m with natives := m.natives.register className name descriptor native } := by
  intro h
  have more := (KeepsInit.register m className name descriptor native).sources_extends
  exact ⟨fun n c hc => more.defines (h.loaded n c hc), h.objects⟩

end KeepsEach

namespace Vm

/-- In every state that a virtual machine can reach, all objects have a property that lasts. -/
theorem each_after [Lasting P] (hh : host.Within (KeepsEach P)) (config : Config)
    (classPath : Table String ClassFile) (wallClock : Nat) (as : List Action) :
    ((boot config classPath wallClock).after host as).machine.Each P := by
  have kept : ∀ vm : Vm, KeepsEach P vm.machine (vm.after host as).machine := by
    induction as with
    | nil => exact fun vm => refl_of (KeepsEach P) vm.machine
    | cons a as ih =>
      refine fun vm => trans_of (KeepsEach P) ?_ (ih (vm.act host a))
      exact act_lively (.of_lively hh) (fun m _ _ _ _ => .register m _ _ _ _)
        (fun _ h => h.of_same rfl rfl rfl) fun _ t _ _ =>
          t.executesWithin (.of_lively hh t.id) fun _ _ _ _ _ => inferInstance
  exact kept _ ⟨nofun, fun _ _ h => by simp [Vm.boot, Machine.boot, Heap.get?] at h⟩

end Vm

end GreenVm
