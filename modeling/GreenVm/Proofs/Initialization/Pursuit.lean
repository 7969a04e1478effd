/-
  Whoever begins to initialize a class goes on with it.

  * `Vm.Pursues vm id name`: a thread that has not ended runs the initializer of a class.
  * `Vm.Strands vm id name`: a thread was stopped by an engine error and has left a class in the
    middle of its initialization.
  * `Vm.pursues_after`: one of the two holds of every class whose initialization is under way, in
    every state of every run.
-/
import GreenVm.Proofs.Initialization.Runs
import GreenVm.Proofs.Waking

namespace GreenVm

namespace Vm

/-- A frame of a thread that has not ended runs the initializer of the class of a name. -/
def Pursues (vm : Vm) (id : ThreadId) (name : String) : Prop :=
  ∃ t ∈ vm.threads, t.id = id ∧ t.status ≠ .terminated ∧
    ∃ f ∈ t.frames, f.kind = .classInit ∧ f.owner.name = name

/-- A thread that could not run the initializer of the class of a name was stopped by it. -/
def Strands (vm : Vm) (id : ThreadId) (name : String) : Prop :=
  ∃ t ∈ vm.threads, Stranded (name, id) t vm.machine

variable {vm : Vm} {host : Host} {lost : List (String × ThreadId)}

theorem Initializing.pursues (h : Initializing lost vm) {name : String} {id : ThreadId}
    (hp : vm.machine.progress name = .inProgress id) :
    vm.Pursues id name ∨ vm.Strands id name := by
  rcases List.mem_append.1 ((h.underway.iff name id).1 hp) with hmem | hmem
  · obtain ⟨t, ht, hi⟩ := List.mem_flatMap.1 hmem
    obtain ⟨f, hf, e⟩ := List.mem_map.1 hi
    obtain ⟨rfl, rfl⟩ := Prod.mk.inj e
    obtain ⟨hf, hk⟩ := List.mem_filter.1 hf
    have ht : t ∈ vm.threads := Array.mem_toList_iff.1 ht
    refine .inl ⟨t, ht, rfl, fun hs => ?_, f, hf, of_decide_eq_true hk, rfl⟩
    rw [((h.threads t ht).2.ended hs).1] at hf
    cases hf
  · exact .inr (h.stranded _ hmem)

/-- **A class whose initialization is under way has a thread that goes on with it**: the thread has
    not ended and runs the initializer of the class.  Else the class has an initializer that is
    native or has no code, and the thread was stopped by an engine error when it was to run it.  So
    no thread is left waiting for the initialization of any other class. -/
theorem pursues_after (hh : host.Within KeepsInit) (config : Config)
    (classPath : Table String ClassFile) (wallClock : Nat) (as : List Action) :
    let vm := (boot config classPath wallClock).after host as
    (∀ name id, vm.machine.progress name = .inProgress id →
      vm.Pursues id name ∨ vm.Strands id name) ∧
    ∀ t ∈ vm.choose.2.threads, t.status = .waiting → ∀ c, t.blocker = some (.classInit c) →
      ∃ id, vm.choose.2.Pursues id c.name ∨ vm.choose.2.Strands id c.name := by
  intro vm
  obtain ⟨lost, h⟩ := (Initializing.boot config classPath wallClock).after hh as
  refine ⟨fun name id => h.pursues, fun t ht hs c hb => ?_⟩
  obtain ⟨heased, hk⟩ := choose_eased wakesWithin_keepsInit vm
  have chosen : Initializing lost vm.choose.2 := h.eased heased hk
  obtain ⟨vm', e⟩ := vm.choose_woken
  rw [e] at ht chosen ⊢
  obtain ⟨id, hi⟩ := vm'.wakeDue_wakes.inProgress (Array.mem_toList_iff.2 ht) hs hb
  rw [Machine.stateOf_init] at hi
  exact ⟨id, chosen.pursues hi⟩

/-- An initializer that does not end. -/
theorem pursues_after_loop :
    let vm := (ofInitializer [] (some (.ofList 1 0 [.goto 0]))).after .idle
      [.spawn "A" "main" "()V" [], .turn, .turn]
    Host.idle.Within KeepsInit ∧ vm.machine.progress "A" = .inProgress ⟨0⟩ ∧
      (vm.Pursues ⟨0⟩ "A" ∨ vm.Strands ⟨0⟩ "A") := by
  intro vm
  have h : vm.machine.progress "A" = .inProgress ⟨0⟩ := by decide +kernel
  exact ⟨Host.idle_within, h, (pursues_after Host.idle_within _ _ _ _).1 "A" ⟨0⟩ h⟩

/-- A thread that is to run an initializer without code leaves its class in the middle of the
    initialization. -/
theorem not_pursues_abstract :
    let vm := (ofInitializer [.abstract] none).after .idle [.spawn "A" "main" "()V" [], .turn]
    vm.machine.progress "A" = .inProgress ⟨0⟩ ∧ ¬ vm.Pursues ⟨0⟩ "A" := by
  intro vm
  have h : vm.machine.progress "A" = .inProgress ⟨0⟩ ∧
      vm.threads.all fun t => t.status == .terminated := by decide +kernel
  refine ⟨h.1, ?_⟩
  rintro ⟨t, ht, -, hs, -⟩
  exact hs (by simpa using Array.all_eq_true'.1 h.2 t ht)

end Vm

end GreenVm
