/-
  Arrays hold only what they may hold.

  * `KeepsFilled`: a relation between machines, of work that leaves rightly filled arrays rightly
    filled.  Work that has nothing to do with arrays is of that kind (`LeavesArrays`).
  * `Vm.storesFlags`: over a run, the instruction that stores bytes puts nothing but 0 and 1 into arrays
    of booleans.
  * `Vm.filled_after`: in every state that a virtual machine can reach, all arrays are rightly filled,
    where booleans are bytes, or 0 and 1 if no others were stored.
-/
import GreenVm.Proofs.Initialization.Runs

namespace GreenVm

open Exec

/-! ## Booleans -/

/-- The number fits into a byte. -/
def IsByte (i : Int32) : Prop := -128 ≤ i.toInt ∧ i.toInt ≤ 127

/-- The number is one that stands for a truth value. -/
def IsFlag (i : Int32) : Prop := i = 0 ∨ i = 1

/-! ## Changes of the heap -/

variable {bools : Int32 → Prop} {m m' : Machine} {r : Ref} {o : Object} {host : Host}

namespace Machine.Filled

theorem of_same (h : m.Filled bools) (hs : sources m' = sources m) (hl : m'.loaded = m.loaded)
    (hh : m'.heap = m.heap) : m'.Filled bools := by
  refine ⟨?_, ?_⟩
  · rw [hs, hl]
    exact h.loaded
  · rw [hh]
    exact h.arrays

theorem update {f : Object → Object} (h : m.Filled bools)
    (ht : ∀ o, m.heap.get? r = some o → (f o).type = o.type)
    (hf : ∀ o, m.heap.get? r = some o → (f o).Filled bools m.heap) :
    Machine.Filled bools { m with heap := m.heap.update r f } := by
  refine ⟨h.loaded, fun r' o' ho' => ?_⟩
  refine Object.Filled.mono (h := m.heap) ?_ (KeepsTypes.update ht)
  rw [Heap.get?_update] at ho'
  split at ho'
  · next hr =>
    obtain ⟨o, ho, rfl⟩ := Option.map_eq_some_iff.1 ho'
    exact hf o (hr ▸ ho)
  · exact h.arrays r' o' ho'

theorem allocate (h : m.Filled bools) (ho : o.Filled bools m.heap) :
    Machine.Filled bools { m with heap := (m.heap.allocate o).2 } := by
  refine ⟨h.loaded, fun r' o' ho' => ?_⟩
  refine Object.Filled.mono (h := m.heap) ?_ (KeepsTypes.allocate m o)
  rw [Heap.get?_allocate] at ho'
  split at ho'
  · cases ho'
    exact ho
  · exact h.arrays r' o' ho'

end Machine.Filled

/-! ## What keeps arrays filled -/

/-- Rightly filled arrays stay so, if 0 and 1 are booleans. -/
def KeepsFilled (bools : Int32 → Prop) (m m' : Machine) : Prop :=
  bools 0 → bools 1 → m.Filled bools → m'.Filled bools

namespace KeepsFilled

instance : Quiet (KeepsFilled bools) where
  refl _ _ _ h := h
  trans _ _ _ h h' h0 h1 hf := h' h0 h1 (h h0 h1 hf)
  load m name _ _ h := ⟨(loadClass_grows m name).sound h.loaded, h.arrays⟩
  setStatics _ _ _ _ _ h := h.of_same rfl rfl rfl
  create _ _ _ hf h0 h1 h := h.allocate (hf.filled _ h0 h1 h)
  update _ _ _ ha hf h0 h1 h :=
    h.update (fun o ho => (ha o ho).type_eq) fun o ho => (hf o ho).filled _ h0 h1 h
  intern _ _ _ _ _ hf _ _ h0 h1 h := (h.allocate (hf.filled _ h0 h1 h)).of_same rfl rfl rfl
  classObject _ _ _ _ _ hf _ _ h0 h1 h := (h.allocate (hf.filled _ h0 h1 h)).of_same rfl rfl rfl
  print _ _ _ _ _ h := h.of_same rfl rfl rfl

instance : Lively (KeepsFilled bools) where
  change _ r _ hf _ _ h := h.update (fun o ho => (hf o ho).type_eq) fun o ho =>
    (h.arrays r o ho).of_same (hf o ho).type_eq (hf o ho).body_eq
  request _ _ _ _ _ h := h.of_same rfl rfl rfl
  bind _ _ _ _ _ h := h.of_same rfl rfl rfl
  start _ _ _ _ _ _ _ _ _ _ _ h := h.of_same rfl rfl rfl

instance : Initializes (KeepsFilled bools) where
  setInit _ _ _ _ _ h := h.of_same rfl rfl rfl

/-- If every byte is taken for a boolean, the instruction for bytes may be used for booleans. -/
theorem storesBytes (hb : ∀ i, IsByte i → bools i) : StoresBytes (KeepsFilled bools) where
  storeByte m r o place v ho hk h0 h1 h := by
    refine h.update (fun _ _ => rfl) fun o' ho' => ?_
    cases ho.symm.trans ho'
    refine (h.arrays r o ho).setElement (fun _ => ⟨fun t ht => ?_, fun _ hr => by cases hr⟩) place
    have accepted : ArrayKind.byte.accepts t = true := ArrayKind.accepts_of_check hk ht
    exact ArrayKind.narrowed_admitted h0 h1 accepted rfl v fun _ _ => hb _ (NarrowKind.apply_byte_range v)

theorem register (m : Machine) (className name descriptor : String) (native : Native) :
    KeepsFilled bools m
      { m with natives := m.natives.register className name descriptor native } := by
  intro _ _ h
  have more := (KeepsInit.register m className name descriptor native).sources_extends
  exact ⟨fun n c hc => more.defines (h.loaded n c hc), h.arrays⟩

end KeepsFilled

/-- No array is changed, new ones hold nothing but defaults, and no class comes to be another. -/
structure LeavesArrays (m m' : Machine) : Prop where
  loaded : m.loaded.Sound (sources m) → m'.loaded.Sound (sources m')
  types : KeepsTypes m m'
  arrays : ∀ r o values, m'.heap.get? r = some o → o.body = .elements values →
    (∃ o₀, m.heap.get? r = some o₀ ∧ o₀.type = o.type ∧ o₀.body = o.body) ∨
      o.type.IsOfArrays ∧ ∃ n, o.body = (Object.ofArrayClass o.type n).body

instance : Std.Refl LeavesArrays :=
  ⟨fun _ => ⟨id, fun _ o h => ⟨o, h, rfl⟩, fun _ o _ h _ => .inl ⟨o, h, rfl, rfl⟩⟩⟩

theorem LeavesArrays.keepsFilled (h : LeavesArrays m m') : KeepsFilled bools m m' := by
  intro h0 _ hf
  refine ⟨h.loaded hf.loaded, fun r o ho values hb => ?_⟩
  rcases h.arrays r o values ho hb with ⟨o₀, ho₀, ht, hbody⟩ | ⟨hc, n, hbody⟩
  · exact (((hf.arrays r o₀ ho₀).of_same ht.symm hbody.symm).mono h.types) values hb
  · have hnew : o.Filled bools m'.heap := (Object.Filled.ofArrayClass h0 hc n).of_same rfl hbody
    exact hnew values hb

/-! ## Steps -/

theorem stepsWithin_keepsFilled (hh : host.Within LeavesArrays) (id : ThreadId) :
    StepsWithin (KeepsFilled bools) host id :=
  .of_lively (hh.mono fun _ _ h => h.keepsFilled) id

/-- Whether the instruction that the thread executes next, if it stores a byte in an array of booleans,
    stores 0 or 1. -/
def Thread.storesFlag (t : Thread) (m : Machine) : Bool :=
  match t.reacquire, t.frames with
  | none, f :: _ =>
    match f.code.instructions[f.pc]?, f.stack.peek 0, f.stack.peek 2 with
    | some (.arrayStore .byte), .ok (.int i), .ok (.reference (some r)) =>
      (m.heap.get? r).all fun o => o.type.declared.component != some .boolean ||
        NarrowKind.byte.apply i == 0 || NarrowKind.byte.apply i == 1
    | _, _, _ => true
  | _, _ => true

theorem Thread.storesFlag_eq {t : Thread} {f : Frame} {rest : List Frame} {i : Int32}
    (h : t.storesFlag m = true) (hr : t.reacquire = none) (hf : t.frames = f :: rest)
    (hi : f.code.instructions[f.pc]? = some (.arrayStore .byte))
    (hv : f.stack.peek 0 = .ok (.int i)) (ha : f.stack.peek 2 = .ok (.ofRef r))
    (ho : m.heap.get? r = some o) (hb : o.type.declared.component = some .boolean) :
    IsFlag (NarrowKind.byte.apply i) := by
  rw [Value.ofRef] at ha
  simp only [storesFlag, hr, hf, hi, hv, ha, ho, hb, Option.all_some, bne_self_eq_false,
    Bool.false_or, Bool.or_eq_true, beq_iff_eq] at h
  exact h

/-- The instruction that a thread executes keeps arrays filled, if it stores no byte in an array of
    booleans but 0 and 1. -/
theorem Thread.executesWithin_keepsFilled {t : Thread} (hh : host.Within LeavesArrays)
    (h : t.storesFlag m = true) : t.ExecutesWithin (KeepsFilled IsFlag) host m := by
  intro hr f rest hf
  by_cases hi : f.code.instructions[f.pc]? = some (.arrayStore .byte)
  · rw [Frame.execute, outcome_bind_ok (outcome_getFrame _)]
    simp only [hi]
    refine (Within.bind_at (FrameM.arrayStore_of ?_) fun _ s _ => Within.pure _ s).2
    intro r o v w place hv ha ho hk hs h0 h1 hfilled
    refine hfilled.update (fun _ _ => rfl) fun o' ho' => ?_
    cases ho.symm.trans ho'
    refine (hfilled.arrays r o ho).setElement (fun hof => ?_) place
    refine storable_holds h0 h1 hof hk hs fun _ hb i hvalue => ?_
    subst hvalue
    exact t.storesFlag_eq h hr hf hi hv ha ho hb
  · refine t.executesWithin (stepsWithin_keepsFilled hh t.id) (fun f' rest' _ hf' hi' => ?_) hr f rest hf
    cases hf.symm.trans hf'
    exact absurd hi' hi

/-! ## Runs -/

namespace Vm

variable {vm : Vm}

/-- Whether the next turn, if it stores a byte in an array of booleans, stores 0 or 1. -/
def storesFlag (vm : Vm) : Bool := vm.next?.all fun (t, m) => t.storesFlag m

/-- Whether all turns of a run that store a byte in an array of booleans store 0 or 1. -/
def storesFlags (host : Host) : Vm → List Action → Bool
  | _, [] => true
  | vm, a :: as => (a != .turn || vm.storesFlag) && storesFlags host (vm.act host a) as

/-- Every action keeps arrays filled, if the instruction does that is executed in a turn. -/
theorem act_keepsFilled (hh : host.Within LeavesArrays) {a : Action}
    (hx : a = .turn → ∀ t m, vm.next? = some (t, m) →
      t.ExecutesWithin (KeepsFilled bools) host m) :
    KeepsFilled bools vm.machine (vm.act host a).machine :=
  act_lively (stepsWithin_keepsFilled hh) (fun m _ _ _ _ => .register m _ _ _ _)
    (fun _ _ _ h => h.of_same rfl rfl rfl) hx

theorem after_keepsFilled (hh : host.Within LeavesArrays) (hb : ∀ i, IsByte i → bools i)
    (vm : Vm) (as : List Action) : KeepsFilled bools vm.machine (vm.after host as).machine := by
  induction as generalizing vm with
  | nil => exact refl_of (KeepsFilled bools) _
  | cons a as ih =>
    refine trans_of (KeepsFilled bools) (act_keepsFilled hh fun _ t _ _ => ?_) (ih _)
    exact t.executesWithin (stepsWithin_keepsFilled hh t.id) fun _ _ _ _ _ =>
      KeepsFilled.storesBytes hb

theorem after_keepsFlags (hh : host.Within LeavesArrays) :
    ∀ {as : List Action} {vm : Vm}, vm.storesFlags host as →
      KeepsFilled IsFlag vm.machine (vm.after host as).machine
  | [], _, _ => refl_of (KeepsFilled IsFlag) _
  | a :: as, vm, hs => by
    rw [storesFlags, Bool.and_eq_true] at hs
    refine trans_of (KeepsFilled IsFlag) (act_keepsFilled hh fun ha t m hnext => ?_)
      (after_keepsFlags hh hs.2)
    have hstores : vm.storesFlag = true := by simpa [ha] using hs.1
    rw [storesFlag, hnext] at hstores
    exact t.executesWithin_keepsFilled hh hstores

theorem filled_boot (config : Config) (classPath : Table String ClassFile) (wallClock : Nat) :
    (boot config classPath wallClock).machine.Filled bools :=
  ⟨nofun, fun _ _ h => by simp [Vm.boot, Machine.boot, Heap.get?] at h⟩

/-- **Arrays hold only what they may hold.**  In every state that a virtual machine can reach, every
    element of an array is of the kind of the component type and in its range, and every object in an
    array is of a class that is assignable to that of the elements.  The elements of an array of
    booleans are bytes, and they are 0 or 1 as long as the instruction that stores bytes puts nothing
    else there. -/
theorem filled_after (hh : host.Within LeavesArrays) (config : Config)
    (classPath : Table String ClassFile) (wallClock : Nat) (as : List Action) :
    ((boot config classPath wallClock).after host as).machine.Filled IsByte ∧
      ((boot config classPath wallClock).storesFlags host as →
        ((boot config classPath wallClock).after host as).machine.Filled IsFlag) := by
  have booted {bools : Int32 → Prop} : (boot config classPath wallClock).machine.Filled bools :=
    filled_boot config classPath wallClock
  refine ⟨?_, fun hs => ?_⟩
  · exact after_keepsFilled hh (fun _ h => h) _ as ⟨by decide, by decide⟩ ⟨by decide, by decide⟩ booted
  · exact after_keepsFlags hh hs (.inl rfl) (.inr rfl) booted

/-! ## A program -/

/-- A virtual machine with a main method that stores a number in an array of booleans by the
    instruction for bytes, and returns what is in the array. -/
def ofFlagger (value : Int32) : Vm :=
  .boot {} (.ofList [("A", { ClassFile.ofClass "A" with
    methods := [
      { flags := .ofList [.staticMember], name := "main", descriptor := "()I"
        code := some (.ofList 4 0 [.literal (.int 1), .newArray .boolean, .dup 1 0,
          .literal (.int 0), .literal (.int value), .arrayStore .byte, .literal (.int 0),
          .arrayLoad .byte, .leave (some .int)]) }] })]) 0

/-- What runs the main method. -/
def flagging : List Action := .spawn "A" "main" "()I" [] :: List.replicate 10 .turn

/-- A truth value comes out of the array as it went in. -/
theorem filled_after_flag :
    ((ofFlagger 1).after .idle flagging).machine.Filled IsByte ∧
      ((ofFlagger 1).after .idle flagging).machine.Filled IsFlag ∧
      ((ofFlagger 1).after .idle flagging).threads[0]?.map Thread.completion =
        some (some (.returned (some (.int 1)))) := by
  have h : (ofFlagger 1).storesFlags .idle flagging = true ∧
      ((ofFlagger 1).after .idle flagging).threads[0]?.map Thread.completion =
        some (some (.returned (some (.int 1)))) := by
    decide +kernel
  obtain ⟨hbytes, hflags⟩ := filled_after Host.idle_within _ _ _ flagging
  exact ⟨hbytes, hflags h.1, h.2⟩

/-- Another number does so, too: the instruction for bytes does not make a truth value of it. -/
theorem not_filled_after_two :
    ¬ ((ofFlagger 2).after .idle flagging).machine.Filled IsFlag ∧
      ((ofFlagger 2).after .idle flagging).threads[0]?.map Thread.completion =
        some (some (.returned (some (.int 2)))) := by
  generalize hvm : (ofFlagger 2).after .idle flagging = vm
  have h : (vm.machine.heap.get? ⟨2⟩).any (fun o => o.elements.toOption.any fun values =>
      Value.int 2 ∈ values.toList ∧ o.type.declared.component = some .boolean) ∧
      vm.threads[0]?.map Thread.completion = some (some (.returned (some (.int 2)))) := by
    rw [← hvm]
    decide +kernel
  refine ⟨fun hf => ?_, h.2⟩
  obtain ⟨o, ho, hany⟩ := (Option.any_eq_true _ _).1 h.1
  obtain ⟨values, hvalues, hany⟩ := (Option.any_eq_true _ _).1 hany
  obtain ⟨htwo, hboolean⟩ := of_decide_eq_true hany
  have hbody : o.elements = .ok values := by
    cases he : o.elements with
    | error e => rw [he] at hvalues; cases hvalues
    | ok _ => rw [he] at hvalues; cases hvalues; rfl
  have held := (hf.arrays _ o ho values (Object.elements_ok hbody)).2 _ (Array.mem_def.2 htwo)
  rcases held.admitted _ hboolean with e | e <;> cases e

end Vm

end GreenVm
