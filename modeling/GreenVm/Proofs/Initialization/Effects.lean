/-
  What class initialization does to a machine.

  * `Prepares host id P m m'`: on the way from `m` to `m'` a thread has worked on the initialization
    of classes that `P` holds of, and spared everything else.
  * `ComesToRun`: the native initializer of a class has come to run on such a way.
  * `Frame.Triggers`: the instruction at the position of a frame has its thread initialize a class.
  * `Frame.execute_throws`: what an instruction that throws has changed is the work of the
    initializations that it triggered.
-/
import GreenVm.Proofs.Initialization.Use
import GreenVm.Proofs.Runs
import GreenVm.Proofs.Sparing

namespace GreenVm

open Exec

variable {host : Host} {id : ThreadId} {P : Class → Prop} {c d k : Class} {m m' m₁ m₂ : Machine}
  {i : Nat}

/-! ## Initializing classes -/

/-- A static field starts with the constant at an index of the pool. -/
def Class.Constant (c : Class) (i index : Nat) : Prop :=
  ∃ field, c.declared.staticFields[i]? = some field ∧ field.constantValue = some index

/-- A class declares an initializer that a native stands in for. -/
structure Class.NativeInit (c : Class) (m : Machine) (native : Native) : Prop where
  declares : (c.declaredMethod? "<clinit>" "()V").isSome
  lookup_eq : m.natives.lookup? c.name "<clinit>" "()V" = some native

/-- What a thread makes of a machine that works on the initialization of certain classes. -/
inductive Prepares (host : Host) (id : ThreadId) (P : Class → Prop) : Machine → Machine → Prop
  | spares {m m' : Machine} (h : Spares ∅ m m') : Prepares host id P m m'
  | marks {m : Machine} {c : Class} {init : InitState} (hc : P c) :
    Prepares host id P m (m.withInit c init)
  | assigns {m m' : Machine} {c : Class} {i index : Nat} {v : Value} (hc : P c)
      (hi : c.Constant i index) (hv : outcome (constantValue c index) m = (.ok v, m')) :
    Prepares host id P m (outcome (setStatic c i v) m').2
  | runs {m : Machine} {c : Class} {native : Native} (hc : P c) (hn : c.NativeInit m native) :
    Prepares host id P m (outcome (native.run host (.initializer c id)) m).2
  | trans {m m' m'' : Machine} (h : Prepares host id P m m') (h' : Prepares host id P m' m'') :
    Prepares host id P m m''

instance : Std.Refl (Prepares host id P) := ⟨fun m => .spares (refl_of (Spares ∅) m)⟩

instance : IsTrans Machine (Prepares host id P) := ⟨fun _ _ _ => .trans⟩

/-- On the way from a machine the native initializer of a class comes to run. -/
structure ComesToRun (host : Host) (id : ThreadId) (P : Class → Prop) (m : Machine) (c : Class)
    (native : Native) (m₁ : Machine) : Prop where
  applies : P c
  prepared : Prepares host id P m m₁
  nativeInit : c.NativeInit m₁ native

theorem ComesToRun.after {native : Native} (h : Prepares host id P m m')
    (hr : ComesToRun host id P m' c native m₁) : ComesToRun host id P m c native m₁ :=
  ⟨hr.applies, h.trans hr.prepared, hr.nativeInit⟩

namespace Exec

theorem prepares_of_spares {α : Type} {x : Exec α} (h : Within (Spares ∅) x) :
    Within (Prepares host id P) x := h.mono fun _ _ => .spares

theorem setInit_prepares {init : InitState} (hc : P c) :
    Within (Prepares host id P) (setInit c init) := fun _ => .marks hc

theorem assignConstants_prepares (hc : P c) :
    Within (Prepares host id P) (assignConstants c) := by
  refine .forM fun (field, i) hf m => ?_
  dsimp only
  split
  · exact Within.pure _ m
  · next index hi =>
    rcases outcome_bind_cases (constantValue c index) (setStatic c i) m with
      ⟨e, m', hv, h⟩ | ⟨v, m', hv, h⟩ <;> rw [h]
    · exact .spares (constantValue_within.of_eq hv)
    · exact .assigns hc ⟨field, List.mk_mem_zipIdx_iff_getElem?.1 hf, hi⟩ hv

/-- The initialization of a class itself. -/
theorem beginClass_prepares (hc : P c) : Within (Prepares host id P) (beginClass host id c) := by
  refine .bind (setInit_prepares hc) fun _ =>
    .bind (attempt_within (assignConstants_prepares hc)) fun assigned => ?_
  cases assigned with
  | error e => exact .bind (setInit_prepares hc) fun _ => .throw _
  | ok _ =>
    intro m
    dsimp only
    rw [outcome_bind_ok (outcome_get m)]
    cases hd : c.declaredMethod? "<clinit>" "()V" with
    | none => exact Within.bind (setInit_prepares hc) (fun _ => .pure _) m
    | some clinit =>
      cases hn : m.natives.lookup? c.name "<clinit>" "()V" with
      | none => exact Within.pure _ m
      | some native =>
        refine Within.bind_at (.runs hc ⟨by rw [hd]; rfl, hn⟩) fun ran m₁ _ => ?_
        split
        · exact Within.bind (setInit_prepares hc) (fun _ => .pure _) m₁
        · refine Within.bind (setInit_prepares hc) (fun _ => ?_) m₁
          exact .bind (prepares_of_spares materialize_spares) fun _ =>
            .bind (prepares_of_spares initializerFailure_spares) fun _ => .throw _
        · exact Within.throw _ m₁

/-- A class is initialized after the one above it, if nobody has begun yet. -/
theorem readyAfter_prepares {above : Exec Readiness}
    (hc : m.progress c.name = .uninitialized → P c)
    (ha : Prepares host id P m (outcome above m).2) :
    Prepares host id P m (outcome (readyAfter host id c above) m).2 := by
  unfold readyAfter
  rw [outcome_bind_ok (outcome_classState c m), Machine.stateOf_init]
  cases hp : m.progress c.name with
  | done => exact Within.pure _ m
  | inProgress owner => exact Within.pure _ m
  | failed => exact Within.throw _ m
  | uninitialized =>
    refine Within.bind_at ha fun readiness m₁ _ => ?_
    split
    · exact beginClass_prepares (hc hp) m₁
    · exact Within.pure _ m₁

/-- Making a class ready works on it and on those above it that nobody has begun. -/
theorem readyClass_prepares : ∀ {c : Class},
    (∀ d ∈ c.lineage, m.progress d.name = .uninitialized → P d) →
      Prepares host id P m (outcome (readyClass host id c) m).2
  | ⟨_, none, _, _⟩, h => by
    rw [readyClass]
    exact readyAfter_prepares (h _ (Class.mem_lineage_self _)) (Within.pure _ m)
  | ⟨_, some s, _, _⟩, h => by
    rw [readyClass]
    exact readyAfter_prepares (h _ (Class.mem_lineage_self _))
      (readyClass_prepares fun d hd => h d (Class.lineage_superClass rfl hd))

end Exec

/-! ## What it changes -/

namespace Machine

theorem stateOf_put (s : ClassState) :
    stateOf { m with classStates := m.classStates.put c.name s } k =
      if c.name = k.name then s else stateOf m k := by
  rw [stateOf, Table.get?_put]
  split <;> rfl

/-- Beginning or ending an initialization leaves the static fields alone. -/
theorem statics_withInit {init : InitState} (hk : c.name = k.name → c = k) :
    (stateOf (m.withInit c init) k).statics = (stateOf m k).statics := by
  rw [withInit, stateOf_put]
  split
  · next hn => rw [hk hn]
  · rfl

/-- Setting a static field changes no other. -/
theorem statics_setStatic {j : Nat} {v : Value} (hk : c.name = k.name → c = k) :
    (stateOf (outcome (setStatic c j v) m).2 k).statics[i]? = (stateOf m k).statics[i]? ∨
      c = k ∧ j = i ∧ (stateOf (outcome (setStatic c j v) m).2 k).statics[i]? = some v := by
  have hset : (outcome (setStatic c j v) m).2 = { m with
      classStates := m.classStates.put c.name
        { stateOf m c with statics := (stateOf m c).statics.setIfInBounds j v } } := rfl
  rw [hset, stateOf_put]
  split
  · next hn =>
    obtain rfl := hk hn
    dsimp only
    rw [Array.getElem?_setIfInBounds]
    by_cases hj : j = i
    · subst hj
      rw [if_pos rfl]
      by_cases hlt : j < (stateOf m c).statics.size
      · exact .inr ⟨rfl, rfl, if_pos hlt⟩
      · exact .inl (by rw [if_neg hlt, Array.getElem?_eq_none (Nat.le_of_not_lt hlt)])
    · exact .inl (if_neg hj)
  · exact .inl rfl

end Machine

namespace Prepares

/-- Without a class to initialize everything is spared. -/
theorem spares_of_forall_not (h : Prepares host id P m m') (hp : ∀ c, ¬ P c) : Spares ∅ m m' := by
  induction h with
  | spares h => exact h
  | marks hc => exact absurd hc (hp _)
  | assigns hc => exact absurd hc (hp _)
  | runs hc => exact absurd hc (hp _)
  | trans _ _ ih ih' => exact trans_of (Spares ∅) ih ih'

/-- An object stays the very same, unless a native initializer of the embedder changes it. -/
theorem object (h : Prepares host id P m m') {r : Ref} {o : Object}
    (ho : m.heap.get? r = some o) :
    m'.heap.get? r = some o ∨ ∃ c name m₁, ComesToRun host id P m c (.host name) m₁ ∧
      m₁.heap.get? r = some o ∧
      (outcome (host name (.initializer c id)) m₁).2.heap.get? r ≠ some o := by
  induction h with
  | spares h => exact .inl (h.leaves.get? ho)
  | marks => exact .inl ho
  | assigns _ _ hv =>
    exact .inl (Spares.leaves (constantValue_within.of_eq hv) |>.get? ho)
  | @runs m c native hc hn =>
    cases native with
    | builtin op => exact .inl ((op.run_initializer c id m).get? ho)
    | host name =>
      by_cases hsame : (outcome (host name (.initializer c id)) m).2.heap.get? r = some o
      · exact .inl hsame
      · exact .inr ⟨c, name, m, ⟨hc, refl_of (Prepares host id P) m, hn⟩, ho, hsame⟩
  | trans h _ ih ih' =>
    rcases ih ho with ho' | changed
    · rcases ih' ho' with same | ⟨c, name, m₁, hr, hbefore, hafter⟩
      · exact .inl same
      · exact .inr ⟨c, name, m₁, .after h hr, hbefore, hafter⟩
    · exact .inr changed

/-- A static field keeps its value, unless it starts with a constant, or a native initializer
    changes it. -/
theorem static (h : Prepares host id P m m') (hk : ∀ c, P c → c.name = k.name → c = k) :
    (stateOf m' k).statics[i]? = (stateOf m k).statics[i]? ∨
      (P k ∧ ∃ index v m₁ m₂, k.Constant i index ∧ Prepares host id P m m₁ ∧
        outcome (constantValue k index) m₁ = (.ok v, m₂) ∧ (stateOf m' k).statics[i]? = some v) ∨
      ∃ c native m₁, ComesToRun host id P m c native m₁ ∧
        (stateOf (outcome (native.run host (.initializer c id)) m₁).2 k).statics[i]? ≠
          (stateOf m₁ k).statics[i]? := by
  induction h with
  | spares h => exact .inl (by rw [stateOf, stateOf, h.classStates_eq])
  | marks hc => exact .inl (by rw [Machine.statics_withInit (hk _ hc)])
  | @assigns m m' c j index v hc hi hv =>
    have hstates : (stateOf m' k).statics = (stateOf m k).statics := by
      have hs : Spares ∅ m m' := constantValue_within.of_eq hv
      rw [stateOf, stateOf, hs.classStates_eq]
    rcases Machine.statics_setStatic (m := m') (i := i) (j := j) (v := v) (hk c hc) with same | ⟨rfl, rfl, hset⟩
    · exact .inl (same.trans (by rw [hstates]))
    · exact .inr (.inl ⟨hc, index, v, m, m', hi, refl_of (Prepares host id P) m, hv, hset⟩)
  | @runs m c native hc hn =>
    by_cases hsame : (stateOf (outcome (native.run host (.initializer c id)) m).2 k).statics[i]? =
        (stateOf m k).statics[i]?
    · exact .inl hsame
    · exact .inr (.inr ⟨c, native, m, ⟨hc, refl_of (Prepares host id P) m, hn⟩, hsame⟩)
  | trans h _ ih ih' =>
    rcases ih' with same | ⟨hp, index, v, m₁, m₂, hi, hprep, hv, hset⟩ | ⟨c, native, m₁, hr, hdiffer⟩
    · rw [same]
      exact ih
    · exact .inr (.inl ⟨hp, index, v, m₁, m₂, hi, h.trans hprep, hv, hset⟩)
    · exact .inr (.inr ⟨c, native, m₁, .after h hr, hdiffer⟩)

end Prepares

/-! ## Instructions that throw -/

/-- The instruction at the position of a frame has its thread initialize a class: it needs the class
    or one below it, and nobody has begun. -/
def Frame.Triggers (f : Frame) (m : Machine) (d : Class) : Prop :=
  ∃ c m₁, f.Uses m c m₁ ∧ d ∈ c.lineage ∧ m.progress d.name = .uninitialized

namespace Frame

variable {f f' : Frame} {t : Throwable} {index : Nat}

/-- Going on with a class throws only what its initialization throws. -/
theorem Uses.whenReady_throws {use : FrameM Next} (hc : f.Uses m c m₁) (hm : Spares ∅ m m₁)
    (hu : OnlyAborts use)
    (h : outcome (FrameM.whenReady host id c use) (f, m₁) = (.error (.thrown t), f', m')) :
    Prepares host id (f.Triggers m) m m' := by
  rw [FrameM.outcome_whenReady] at h
  split at h
  · obtain ⟨e, he⟩ := hu _ _ _ h
    cases he
  · cases h
  · cases h
  · next e m₂ hr =>
    cases h
    have prepared : Prepares host id (f.Triggers m) m₁ (outcome (readyClass host id c) m₁).2 :=
      readyClass_prepares fun d hd hp =>
        ⟨c, m₁, hc, hd, (Machine.progress_of_classStates hm.classStates_eq _).symm.trans hp⟩
    rw [hr] at prepared
    exact .trans (.spares hm) prepared

/-- Going on with the static field that a reference means, or not finding it. -/
theorem staticSite_throws {g : Class × Nat → FrameM Next}
    (hg : ∀ c slot m₁, Spares ∅ m m₁ →
      outcome (resolveField f.owner index) m = (.ok (.staticSlot c slot), m₁) →
      outcome (g (c, slot)) (f, m₁) = (.error (.thrown t), f', m') →
      Prepares host id (f.Triggers m) m m')
    (h : outcome (FrameM.staticSite index >>= g) (f, m) = (.error (.thrown t), f', m')) :
    Prepares host id (f.Triggers m) m m' := by
  have hs : Spares ∅ m (outcome (resolveField f.owner index) m).2 := resolveField_within m
  have ho := FrameM.outcome_staticSite index f m
  rcases hr : outcome (resolveField f.owner index) m with ⟨e | site, m₁⟩ <;> rw [hr] at hs ho
  · rw [outcome_bind_error ho] at h
    cases h
    exact .spares hs
  · cases site with
    | instanceSlot c slot =>
      rw [outcome_bind_error ho] at h
      cases h
      exact .spares hs
    | staticSlot c slot =>
      rw [outcome_bind_ok ho] at h
      exact hg c slot m₁ hs hr h

theorem getStatic_throws (hi : f.code.instructions[f.pc]? = some (.getStatic index))
    (h : outcome (FrameM.getStatic host id index) (f, m) = (.error (.thrown t), f', m')) :
    Prepares host id (f.Triggers m) m m' := by
  refine staticSite_throws (fun c slot m₁ hs hr h => ?_) h
  exact (Uses.field (.inl hi) hr).whenReady_throws hs
    (.bind (FrameM.lift_failsWith fun _ => getStatic_failsWith) fun _ =>
      FrameM.push_fatal.bind fun _ => .pure _) h

theorem putStatic_throws (hi : f.code.instructions[f.pc]? = some (.putStatic index))
    (h : outcome (FrameM.putStatic host id index) (f, m) = (.error (.thrown t), f', m')) :
    Prepares host id (f.Triggers m) m m' := by
  refine staticSite_throws (fun c slot m₁ hs hr h => ?_) h
  exact (Uses.field (.inr hi) hr).whenReady_throws hs
    (FrameM.pop_fatal.bind fun _ => .bind (FrameM.lift_failsWith fun _ => setStatic_failsWith) fun _ =>
      .pure _) h

theorem invokeStatic_throws (hi : f.code.instructions[f.pc]? = some (.invokeStatic index))
    (h : outcome (FrameM.invokeStatic host id index) (f, m) = (.error (.thrown t), f', m')) :
    Prepares host id (f.Triggers m) m m' := by
  have hs : Spares ∅ m (outcome (resolveMethod f.owner index) m).2 := resolveMethod_within m
  rw [FrameM.invokeStatic, outcome_bind_ok (FrameM.outcome_owner _)] at h
  rcases hr : outcome (resolveMethod f.owner index) m with ⟨e | r, m₁⟩ <;> rw [hr] at hs
  · rw [outcome_frame_bind_error hr] at h
    cases h
    exact .spares hs
  · rw [outcome_frame_bind_ok hr] at h
    cases hstatic : r.method.isStatic with
    | false =>
      rw [if_pos (by rw [hstatic]; rfl), outcome_bind_error (outcome_throw _ _)] at h
      cases h
      exact .spares hs
    | true =>
      rw [if_neg (by rw [hstatic]; simp)] at h
      exact (Uses.method hi hr hstatic rfl).whenReady_throws hs (.pure _) h

theorem new_throws (hi : f.code.instructions[f.pc]? = some (.new index))
    (h : outcome (FrameM.new host id index) (f, m) = (.error (.thrown t), f', m')) :
    Prepares host id (f.Triggers m) m m' := by
  have hs : Spares ∅ m (outcome (classAt f.owner index) m).2 := classAt_within m
  rw [FrameM.new, FrameM.classAt, outcome_bind, outcome_bind_ok (FrameM.outcome_owner _),
    outcome_liftFrame] at h
  rcases hr : outcome (classAt f.owner index) m with ⟨e | c, m₁⟩ <;> rw [hr] at hs h
  · cases h
    exact .spares hs
  · dsimp only [followedBy] at h
    split at h
    · next ha =>
      have refused : outcome (instantiate c) m₁ = (.error (.notInstantiable c.name), m₁) := by
        rw [instantiate, if_pos ha, outcome_throw]
      rw [outcome_frame_bind_error refused] at h
      cases h
      exact .spares hs
    · next ha =>
      refine (Uses.object hi hr (by simpa using ha)).whenReady_throws hs ?_ h
      refine .bind (FrameM.lift_failsWith fun _ => ?_) fun _ => FrameM.push_fatal.bind fun _ => .pure _
      rw [instantiate, if_neg ha]
      exact modifyGet_failsWith

/-- An instruction that throws has at most worked on the initializations that it triggers. -/
theorem prepares_of_throws
    (h : outcome (Frame.execute host id) (f, m) = (.error (.thrown t), f', m')) :
    Prepares host id (f.Triggers m) m m' := by
  cases hi : f.code.instructions[f.pc]? with
  | none =>
    rw [Frame.execute, outcome_bind_ok (outcome_getFrame _), hi] at h
    cases h
  | some i =>
    rw [Uses.outcome_execute hi] at h
    cases hn : i.needsClass with
    | false => exact .spares (FrameM.execute_spares hn _ _ _ h).2
    | true =>
      cases i with
      | getStatic => exact getStatic_throws hi h
      | putStatic => exact putStatic_throws hi h
      | invokeStatic => exact invokeStatic_throws hi h
      | new => exact new_throws hi h
      | _ => cases hn

/-- The class that an instruction uses is what its frame needs. -/
theorem Uses.needs (h : f.Uses m c m₁) : f.Needs m c m₁ := by
  cases h with
  | @field index slot _ hc =>
    have hl : LivelyChange m (outcome (resolveField f.owner index) m).2 := resolveField_within m
    rw [hc] at hl
    exact ⟨hl, fun hg hf => resolveField_defines hg hf hc⟩
  | @method index r _ hc _ ho =>
    have hl : LivelyChange m (outcome (resolveMethod f.owner index) m).2 := resolveMethod_within m
    rw [hc] at hl
    exact ⟨hl, fun hg hf => ho ▸ resolveMethod_defines hg hf hc⟩
  | @object index _ hc _ =>
    have hl : LivelyChange m (outcome (classAt f.owner index) m).2 := classAt_within m
    rw [hc] at hl
    exact ⟨hl, fun hg hf => classAt_defines hg hf hc⟩

/-- In a machine that has one class of a name only that class is initialized under it. -/
theorem Triggers.unique (h : f.Triggers m d) (hg : m.Grounded) (hf : m.Defines f.owner)
    (hk : m.Defines k) (hn : d.name = k.name) : d = k := by
  obtain ⟨c, m₁, hc, hd, -⟩ := h
  have hd : m₁.Defines d := m₁.ascends_defines.lineage (hc.needs.defines hg hf) d hd
  exact hd.unique ((hc.needs.change.within (R := Retains)).defines hk) hn

/-- Only an instruction that needs a class triggers anything. -/
theorem Triggers.needsClass (h : f.Triggers m d) :
    ∃ i, f.code.instructions[f.pc]? = some i ∧ i.needsClass = true := by
  obtain ⟨c, m₁, hc, -⟩ := h
  cases hc with
  | field hi => rcases hi with hi | hi <;> exact ⟨_, hi, rfl⟩
  | method hi => exact ⟨_, hi, rfl⟩
  | object hi => exact ⟨_, hi, rfl⟩

end Frame

/-! ## A program -/

namespace Vm

/-- A virtual machine with a main method that reads a static field of another class, which starts
    with a constant, and whose native initializer refuses. -/
def ofReader : Vm :=
  .boot {} (.ofList [
    ("A", { ClassFile.ofClass "A" with
      pool := [.int 7]
      fields := [{ flags := .ofList [.staticMember], name := "x", descriptor := "I"
                   constantValue := some 1 }]
      methods := [{ flags := .ofList [.staticMember, .native], name := "<clinit>"
                    descriptor := "()V" }] }),
    ("B", { ClassFile.ofClass "B" with
      pool := [.field ⟨"A", "x", "I"⟩]
      methods := [{ flags := .ofList [.staticMember], name := "main", descriptor := "()V"
                    code := some (.ofList 1 0 [.getStatic 1, .leave none]) }] })]) 0

/-- An embedder all of whose functions throw. -/
def refusing : Host := fun _ _ => throw .nullPointer

/-- What runs the main method until it comes to the field. -/
def reading : List Action :=
  [.register "A" "<clinit>" "()V" "refuse", .spawn "B" "main" "()V" [], .turn]

end Vm

end GreenVm
