/-
  How the initialization of classes progresses.

  * `Machine.progress m name`: how far that of the class of a name has come.
  * `KeepsInit`: a relation between machines, of work in which nothing is initialized.
  * `InitPath id m es m'`: between the machines, a thread has taken classes through the states of
    initialization that `es` lists, each when it may be entered, and else nothing was initialized.
  * `Underway w m`: just the initializations of `w` are under way.
  * `Exec.readyClass_readied`: what comes of making a class ready for use.
-/
import GreenVm.Proofs.Attempts
import GreenVm.Proofs.Performing

namespace GreenVm

open Exec

/-! ## Progress -/

namespace Machine

/-- How far the initialization of the class of a name has come.  There is nothing to initialize in an
    array class. -/
def progress (m : Machine) (name : String) : InitState :=
  match m.classStates.get? name with
  | some s => s.init
  | none => if isArrayName name then .done else .uninitialized

/-- A thread may use a class: its initialization is over, or it is that thread which does it. -/
def Ready (m : Machine) (id : ThreadId) (c : Class) : Prop :=
  m.progress c.name = .done ∨ m.progress c.name = .inProgress id

/-- A class has an initializer that may leave it as it is: it is native, or has no code. -/
def Unrunnable (m : Machine) (c : Class) : Prop :=
  ∃ r, c.declaredMethod? "<clinit>" "()V" = some r ∧
    (r.method.code = none ∨ (m.natives.lookup? c.name "<clinit>" "()V").isSome)

variable {m m' : Machine} {c : Class} {name : String}

theorem stateOf_init (m : Machine) (c : Class) : (stateOf m c).init = m.progress c.name := by
  unfold stateOf progress
  cases m.classStates.get? c.name <;> rfl

theorem progress_of_classStates (h : m'.classStates = m.classStates) (name : String) :
    m'.progress name = m.progress name := by
  rw [progress, progress, h]

theorem progress_put (m : Machine) (c : Class) (s : ClassState) (name : String) :
    ({ m with classStates := m.classStates.put c.name s } : Machine).progress name =
      if c.name = name then s.init else m.progress name := by
  unfold progress
  rw [Table.get?_put]
  by_cases h : c.name = name
  · rw [if_pos h, if_pos h]
  · rw [if_neg h, if_neg h]

theorem progress_withInit (m : Machine) (c : Class) (init : InitState) (name : String) :
    (m.withInit c init).progress name = if c.name = name then init else m.progress name :=
  progress_put m c _ name

@[simp] theorem progress_withInit_self (m : Machine) (c : Class) (init : InitState) :
    (m.withInit c init).progress c.name = init := by
  rw [progress_withInit, if_pos rfl]

end Machine

/-- All definitions are retained, and no initialization progresses. -/
structure KeepsInit (m m' : Machine) : Prop extends Retains m m' where
  progress_eq : ∀ name, m'.progress name = m.progress name

namespace KeepsInit

variable {m m' : Machine} {c : Class} {id : ThreadId}

theorem of_classStates (h : Retains m m') (hs : m'.classStates = m.classStates) :
    KeepsInit m m' := ⟨h, Machine.progress_of_classStates hs⟩

theorem ready_iff (h : KeepsInit m m') : m'.Ready id c ↔ m.Ready id c := by
  rw [Machine.Ready, Machine.Ready, h.progress_eq]

instance : Lively KeepsInit where
  refl m := ⟨.refl m, fun _ => rfl⟩
  trans _ _ _ h h' := ⟨h.toRetains.trans h'.toRetains, fun name =>
    (h'.progress_eq name).trans (h.progress_eq name)⟩
  load m name := .of_classStates (Creates.load m name) rfl
  setStatics m c statics := by
    refine ⟨Calm.setStatics m c statics, fun name => ?_⟩
    rw [Machine.progress_put]
    split
    · next h => exact h ▸ Machine.stateOf_init m c
    · rfl
  allocate m o hk ho hf := .of_classStates (Creates.allocate m o hk ho hf) rfl
  update m r f ha hf := .of_classStates (Calm.update m r f ha hf) rfl
  intern m o text hk ho hf ht hn :=
    .of_classStates (Creates.intern m o text hk ho hf ht hn) rfl
  classObject m o c hk ho hf hc hn :=
    .of_classStates (Creates.classObject m o c hk ho hf hc hn) rfl
  print m out err := .of_classStates (Calm.print m out err) rfl
  change m r f hf := .of_classStates (Lively.change m r f hf) rfl
  request m q hq := .of_classStates (Lively.request m q hq) rfl
  bind m next objects := .of_classStates (Lively.bind m next objects) rfl
  start m r o run id name args ho hr :=
    .of_classStates (Lively.start m r o run id name args ho hr) rfl

instance : StoresBytes KeepsInit where
  storeByte m r o place v ho hk :=
    .of_classStates (StoresBytes.storeByte m r o place v ho hk) rfl

end KeepsInit

theorem Retains.withInit (m : Machine) (c : Class) (init : InitState) :
    Retains m (m.withInit c init) := .of_same rfl rfl rfl rfl rfl rfl

instance : Initializes Retains := ⟨fun m c init => .withInit m c init⟩

/-- An initializer that may fail to run is no different later on. -/
theorem Machine.Unrunnable.mono {m m' : Machine} {c : Class} (h : m.Unrunnable c)
    (hr : Retains m m') : m'.Unrunnable c := by
  obtain ⟨r, hd, h⟩ := h
  exact ⟨r, hd, h.imp id (hr.natives _)⟩

/-! ## Paths of initialization -/

/-- A class enters a state of its initialization. -/
structure InitEvent where
  target : Class
  state : InitState

/-- Between the machines, a thread has taken classes through states of their initialization.  It
    begins one that nobody has begun, and when it may use the superclass; and it ends only what it
    has begun. -/
inductive InitPath (id : ThreadId) (m : Machine) : List InitEvent → Machine → Prop
  | keeps {m' : Machine} (h : KeepsInit m m') : InitPath id m [] m'
  | begins {es : List InitEvent} {m₁ m' : Machine} {c : Class} (h : InitPath id m es m₁)
      (hd : m₁.Defines c) (hu : m₁.progress c.name = .uninitialized)
      (hs : ∀ s, c.superClass = some s → m₁.Ready id s)
      (hk : KeepsInit (m₁.withInit c (.inProgress id)) m') :
    InitPath id m (es ++ [⟨c, .inProgress id⟩]) m'
  | ends {es : List InitEvent} {m₁ m' : Machine} {c : Class} {init : InitState}
      (h : InitPath id m es m₁) (hd : m₁.Defines c) (hp : m₁.progress c.name = .inProgress id)
      (hi : init = .done ∨ init = .failed) (hk : KeepsInit (m₁.withInit c init) m') :
    InitPath id m (es ++ [⟨c, init⟩]) m'

namespace InitPath

variable {id : ThreadId} {m m' m'' : Machine} {es es' : List InitEvent}

theorem retains (h : InitPath id m es m') : Retains m m' := by
  induction h with
  | keeps h => exact h.toRetains
  | begins _ _ _ _ hk ih => exact ih.trans ((Retains.withInit _ _ _).trans hk.toRetains)
  | ends _ _ _ _ hk ih => exact ih.trans ((Retains.withInit _ _ _).trans hk.toRetains)

theorem then_keeps (h : InitPath id m es m') (hk : KeepsInit m' m'') : InitPath id m es m'' := by
  cases h with
  | keeps h => exact .keeps (trans_of KeepsInit h hk)
  | begins h hd hu hs hk' => exact .begins h hd hu hs (trans_of KeepsInit hk' hk)
  | ends h hd hp hi hk' => exact .ends h hd hp hi (trans_of KeepsInit hk' hk)

theorem append (h : InitPath id m es m') (h' : InitPath id m' es' m'') :
    InitPath id m (es ++ es') m'' := by
  induction h' with
  | keeps hk => exact (List.append_nil es).symm ▸ h.then_keeps hk
  | begins _ hd hu hs hk ih => exact List.append_assoc .. ▸ .begins ih hd hu hs hk
  | ends _ hd hp hi hk ih => exact List.append_assoc .. ▸ .ends ih hd hp hi hk

/-- Nothing becomes uninitialized again. -/
theorem uninitialized {name : String} (h : InitPath id m es m')
    (hu : m'.progress name = .uninitialized) : m.progress name = .uninitialized := by
  have entered {m₁ m' : Machine} {c : Class} {init : InitState} (hi : init ≠ .uninitialized)
      (hk : KeepsInit (m₁.withInit c init) m') (hu : m'.progress name = .uninitialized) :
      m₁.progress name = .uninitialized := by
    rw [hk.progress_eq, Machine.progress_withInit] at hu
    split at hu
    · exact absurd hu hi
    · exact hu
  induction h with
  | keeps hk => exact (hk.progress_eq name).symm.trans hu
  | begins _ _ _ _ hk ih => exact ih (entered (show InitState.inProgress id ≠ .uninitialized by simp) hk hu)
  | ends _ _ _ hi hk ih => exact ih (entered (by rcases hi with rfl | rfl <;> simp) hk hu)

end InitPath

/-! ## What is under way -/

/-- Just these classes are being initialized, each by the thread beside it. -/
structure Underway (w : List (String × ThreadId)) (m : Machine) : Prop where
  nodup : (w.map Prod.fst).Nodup
  iff : ∀ name id, m.progress name = .inProgress id ↔ (name, id) ∈ w

namespace Underway

variable {w w' : List (String × ThreadId)} {m m' : Machine} {c : Class} {id : ThreadId}
  {init : InitState}

theorem keeps (h : Underway w m) (hk : KeepsInit m m') : Underway w m' :=
  ⟨h.nodup, fun name id => by rw [hk.progress_eq]; exact h.iff name id⟩

theorem perm (h : Underway w m) (hw : w.Perm w') : Underway w' m :=
  ⟨(hw.map Prod.fst).nodup_iff.1 h.nodup, fun name id => (h.iff name id).trans hw.mem_iff⟩

theorem begins (h : Underway w m) (hu : m.progress c.name = .uninitialized) :
    Underway ((c.name, id) :: w) (m.withInit c (.inProgress id)) := by
  have hnew : c.name ∉ w.map Prod.fst := by
    intro hm
    obtain ⟨⟨name, u⟩, hp, rfl⟩ := List.mem_map.1 hm
    rw [(h.iff _ u).2 hp] at hu
    cases hu
  refine ⟨List.nodup_cons.2 ⟨hnew, h.nodup⟩, fun name u => ?_⟩
  rw [Machine.progress_withInit, List.mem_cons]
  by_cases e : c.name = name
  · subst e
    have : (c.name, u) ∉ w := fun hm => hnew (List.mem_map.2 ⟨_, hm, rfl⟩)
    simp [this, eq_comm]
  · rw [if_neg e, h.iff]
    simp [Ne.symm e]

theorem ends (h : Underway ((c.name, id) :: w) m) (hi : init = .done ∨ init = .failed) :
    Underway w (m.withInit c init) := by
  obtain ⟨hnew, hw⟩ := List.nodup_cons.1 h.nodup
  refine ⟨hw, fun name u => ?_⟩
  rw [Machine.progress_withInit]
  by_cases e : c.name = name
  · subst e
    have : (c.name, u) ∉ w := fun hm => hnew (List.mem_map.2 ⟨_, hm, rfl⟩)
    rw [if_pos rfl]
    rcases hi with rfl | rfl <;> simp [this]
  · rw [if_neg e, h.iff]
    simp [Ne.symm e]

end Underway

/-- A thread has come from one machine to another on a path of initialization, on which only classes
    with certain names have progressed, and the initializations of `w` are under way. -/
structure Tracked (id : ThreadId) (touched : String → Prop) (m : Machine)
    (w : List (String × ThreadId)) (m' : Machine) : Prop where
  path : ∃ es, InitPath id m es m'
  spared : ∀ name, ¬ touched name → m'.progress name = m.progress name
  underway : Underway w m'

namespace Tracked

variable {id : ThreadId} {touched touched' : String → Prop} {w w' : List (String × ThreadId)}
  {m m' m'' : Machine} {c : Class} {init : InitState}

theorem refl (h : Underway w m) : Tracked id touched m w m :=
  ⟨⟨[], .keeps (refl_of KeepsInit m)⟩, fun _ _ => rfl, h⟩

theorem retains (h : Tracked id touched m w m') : Retains m m' :=
  h.path.elim fun _ h => h.retains

theorem uninitialized {name : String} (h : Tracked id touched m w m')
    (hu : m'.progress name = .uninitialized) : m.progress name = .uninitialized :=
  h.path.elim fun _ h => h.uninitialized hu

theorem mono (h : Tracked id touched m w m') (ht : ∀ name, touched name → touched' name) :
    Tracked id touched' m w m' :=
  ⟨h.path, fun name hn => h.spared name fun hn' => hn (ht name hn'), h.underway⟩

theorem perm (h : Tracked id touched m w m') (hw : w.Perm w') : Tracked id touched m w' m' :=
  ⟨h.path, h.spared, h.underway.perm hw⟩

theorem trans (h : Tracked id touched m w m') (h' : Tracked id touched m' w' m'') :
    Tracked id touched m w' m'' := by
  obtain ⟨⟨es, hp⟩, hs, -⟩ := h
  obtain ⟨⟨es', hp'⟩, hs', hu⟩ := h'
  exact ⟨⟨es ++ es', hp.append hp'⟩, fun name hn => (hs' name hn).trans (hs name hn), hu⟩

theorem keeps (h : Tracked id touched m w m') (hk : KeepsInit m' m'') :
    Tracked id touched m w m'' :=
  h.trans ⟨⟨[], .keeps hk⟩, fun name _ => hk.progress_eq name, h.underway.keeps hk⟩

theorem begins (h : Tracked id touched m w m') (hd : m'.Defines c)
    (hu : m'.progress c.name = .uninitialized) (hs : ∀ s, c.superClass = some s → m'.Ready id s)
    (ht : touched c.name) :
    Tracked id touched m ((c.name, id) :: w) (m'.withInit c (.inProgress id)) := by
  refine h.trans ⟨⟨_, .begins (.keeps (refl_of KeepsInit m')) hd hu hs (refl_of KeepsInit _)⟩,
    fun name hn => ?_, h.underway.begins hu⟩
  rw [Machine.progress_withInit]
  exact if_neg fun (e : c.name = name) => hn (e ▸ ht)

theorem ends (h : Tracked id touched m ((c.name, id) :: w) m') (hd : m'.Defines c)
    (hi : init = .done ∨ init = .failed) (ht : touched c.name) :
    Tracked id touched m w (m'.withInit c init) := by
  have hp : m'.progress c.name = .inProgress id := (h.underway.iff _ _).2 (by simp)
  refine h.trans ⟨⟨_, .ends (.keeps (refl_of KeepsInit m')) hd hp hi (refl_of KeepsInit _)⟩,
    fun name hn => ?_, h.underway.ends hi⟩
  rw [Machine.progress_withInit]
  exact if_neg fun (e : c.name = name) => hn (e ▸ ht)

end Tracked

/-! ## Making a class ready -/

/-- The names of a class and of those above it. -/
def Class.IsLineage (c : Class) (name : String) : Prop := ∃ k ∈ c.lineage, k.name = name

/-- What comes of making a class ready for use by a thread, when the initializations of `w` are under
    way.  The initializer that has to be run is under way, too; and so is one that was native and has
    ended with an engine error. -/
inductive Readied (id : ThreadId) (w : List (String × ThreadId)) (c : Class) (m : Machine) :
    Except Fault Readiness × Machine → Prop
  | ready {m' : Machine} (h : Tracked id c.IsLineage m w m') (hr : m'.Ready id c) :
    Readied id w c m (.ok .ready, m')
  | awaits {d : Class} {m' : Machine} (h : Tracked id c.IsLineage m w m') :
    Readied id w c m (.ok (.await d), m')
  | initializes {r : MethodRef} {m' : Machine}
      (h : Tracked id c.IsLineage m ((r.owner.name, id) :: w) m') (hd : m'.Defines r.owner)
      (hu : m.progress r.owner.name = .uninitialized)
      (hr : r.owner.declaredMethod? "<clinit>" "()V" = some r) :
    Readied id w c m (.ok (.runInitializer r), m')
  | fails {e : Fault} {m' : Machine} (h : Tracked id c.IsLineage m w m') :
    Readied id w c m (.error e, m')
  | leaves {k : Class} {e : EngineError} {m' : Machine}
      (h : Tracked id c.IsLineage m ((k.name, id) :: w) m') (hd : m'.Defines k)
      (hk : m'.Unrunnable k) : Readied id w c m (.error (.fatal e), m')

namespace Readied

variable {id : ThreadId} {w w' : List (String × ThreadId)} {c : Class} {m m₁ : Machine}
  {x : Except Fault Readiness × Machine}

/-- What comes of it after other initializations have gone on. -/
theorem after (h : Tracked id c.IsLineage m w' m₁) (hx : Readied id w c m₁ x) :
    Readied id w c m x := by
  cases hx with
  | ready h' hr => exact .ready (h.trans h') hr
  | awaits h' => exact .awaits (h.trans h')
  | initializes h' hd hu hr => exact .initializes (h.trans h') hd (h.uninitialized hu) hr
  | fails h' => exact .fails (h.trans h')
  | leaves h' hd hk => exact .leaves (h.trans h') hd hk

end Readied

/-- What is above a class in the tree of classes is smaller. -/
theorem Class.sizeOf_lineage : ∀ {c k : Class}, k ∈ c.lineage → sizeOf k ≤ sizeOf c
  | ⟨declared, some s, interfaces, element⟩, k, h => by
    rw [lineage] at h
    rcases List.mem_cons.1 h with rfl | h
    · exact Nat.le_refl _
    · have := sizeOf_lineage h
      simp only [Class.mk.sizeOf_spec, Option.some.sizeOf_spec]
      omega
  | ⟨declared, none, interfaces, element⟩, k, h => by
    rw [lineage] at h
    exact (List.mem_singleton.1 h).symm ▸ Nat.le_refl _

/-- No class has the name of one above it. -/
theorem Machine.Defines.not_above {m : Machine} {c s : Class} (hc : m.Defines c)
    (hs : c.superClass = some s) : ¬ s.IsLineage c.name := by
  rintro ⟨k, hk, e⟩
  have hk' : m.Defines k := m.ascends_defines.lineage (m.ascends_defines.superClass c s hc hs) k hk
  have hsize := Class.sizeOf_lineage hk
  rw [hk'.unique hc e] at hsize
  obtain ⟨declared, superClass, interfaces, element⟩ := c
  cases hs
  simp only [Class.mk.sizeOf_spec, Option.some.sizeOf_spec] at hsize
  omega

namespace Exec

variable {host : Host} {id : ThreadId} {w : List (String × ThreadId)} {c : Class} {m m₁ : Machine}

theorem isLineage_self (c : Class) : c.IsLineage c.name := by
  refine ⟨c, ?_, rfl⟩
  match c with
  | ⟨_, some s, _, _⟩ => simp [Class.lineage]
  | ⟨_, none, _, _⟩ => simp [Class.lineage]

/-- Telling the thread of an initializer that threw. -/
theorem initializerFailure_readied (h : Tracked id c.IsLineage m w m₁) (t : Throwable) :
    Readied id w c m (outcome (do
      let r ← initializerFailure (← materialize t)
      throw (.thrown (.object r)) : Exec Readiness) m₁) := by
  have hm := materialize_within (R := KeepsInit) (t := t) m₁
  rcases ho : outcome (materialize t) m₁ with ⟨e | r, m₂⟩ <;> rw [ho] at hm
  · rw [outcome_bind_error ho]
    exact .fails (h.keeps hm)
  · rw [outcome_bind_ok ho]
    have hf := initializerFailure_within (R := KeepsInit) (r := r) m₂
    rcases ho' : outcome (initializerFailure r) m₂ with ⟨e | r', m₃⟩ <;> rw [ho'] at hf
    · rw [outcome_bind_error ho']
      exact .fails ((h.keeps hm).keeps hf)
    · rw [outcome_bind_ok ho', outcome_throw]
      exact .fails ((h.keeps hm).keeps hf)

/-- The initialization of a class begins, and it may be over at once. -/
theorem beginClass_readied (hh : host.Within KeepsInit) (hd : m.Defines c)
    (hu : m.progress c.name = .uninitialized) (hs : ∀ s, c.superClass = some s → m.Ready id s)
    (hw : Underway w m) : Readied id w c m (outcome (beginClass host id c) m) := by
  have ht := isLineage_self c
  have begun : Tracked id c.IsLineage m ((c.name, id) :: w) (m.withInit c (.inProgress id)) :=
    (Tracked.refl hw).begins hd hu hs ht
  have hconst := assignConstants_within (R := KeepsInit) (c := c) (m.withInit c (.inProgress id))
  unfold beginClass
  rw [outcome_bind_ok (outcome_setInit _ _ _), outcome_bind_ok (outcome_attempt _ _)]
  rcases hx : outcome (assignConstants c) (m.withInit c (.inProgress id)) with ⟨e | _, m₁⟩ <;>
    rw [hx] at hconst
  · have assigned := begun.keeps hconst
    dsimp only
    rw [outcome_bind_ok (outcome_setInit _ _ _), outcome_throw]
    exact .fails (assigned.ends (assigned.retains.defines hd) (.inr rfl) ht)
  · have assigned : Tracked id c.IsLineage m ((c.name, id) :: w) m₁ := begun.keeps hconst
    have ended {m₂ : Machine} (hk : KeepsInit m₁ m₂) {init : InitState}
        (hi : init = .done ∨ init = .failed) :
        Tracked id c.IsLineage m w (m₂.withInit c init) :=
      (assigned.keeps hk).ends ((assigned.keeps hk).retains.defines hd) hi ht
    dsimp only
    rw [outcome_bind_ok (outcome_get _)]
    cases hm : c.declaredMethod? "<clinit>" "()V" with
    | none =>
      dsimp only
      rw [outcome_bind_ok (outcome_setInit _ _ _), outcome_pure]
      exact .ready (ended (refl_of KeepsInit m₁) (.inl rfl))
        (.inl (Machine.progress_withInit_self _ _ _))
    | some clinit =>
      have howner : clinit.owner = c := by
        obtain ⟨method, -, rfl⟩ := Option.map_eq_some_iff.1 hm
        rfl
      cases hn : m₁.natives.lookup? c.name "<clinit>" "()V" with
      | none =>
        dsimp only
        rw [outcome_pure]
        refine .initializes (howner.symm ▸ assigned) ?_ (howner.symm ▸ hu) (howner.symm ▸ hm)
        exact howner.symm ▸ assigned.retains.defines hd
      | some native =>
        dsimp only
        rw [outcome_bind_ok (outcome_attempt _ _)]
        have hrun : KeepsInit m₁ (outcome (native.run host
            { owner := c, receiver := none, args := [], thread := id }) m₁).2 :=
          Native.run_within hh m₁
        rcases hx : outcome (native.run host
          { owner := c, receiver := none, args := [], thread := id }) m₁ with ⟨e | value, m₂⟩ <;>
          rw [hx] at hrun
        · cases e with
          | fatal e =>
            dsimp only
            rw [outcome_throw]
            have tracked := assigned.keeps hrun
            refine .leaves tracked (tracked.retains.defines hd) ⟨clinit, hm, .inr ?_⟩
            refine hrun.natives _ ?_
            exact Option.isSome_iff_exists.2 ⟨native, hn⟩
          | thrown e =>
            have failed := ended hrun (.inr rfl)
            dsimp only
            rw [outcome_bind_ok (outcome_setInit _ _ _)]
            exact initializerFailure_readied failed e
        · dsimp only
          rw [outcome_bind_ok (outcome_setInit _ _ _), outcome_pure]
          exact .ready (ended hrun (.inl rfl)) (.inl (Machine.progress_withInit_self _ _ _))

/-- A class is made ready after the one above it. -/
theorem readyAfter_readied (hh : host.Within KeepsInit) (hd : m.Defines c)
    (hw : Underway w m) {above : Exec Readiness}
    (ha : ∀ s, c.superClass = some s → Readied id w s m (outcome above m))
    (hn : c.superClass = none → outcome above m = (.ok .ready, m)) :
    Readied id w c m (outcome (readyAfter host id c above) m) := by
  unfold readyAfter
  rw [outcome_bind_ok (outcome_classState c m), Machine.stateOf_init]
  cases hp : m.progress c.name with
  | done => exact .ready (.refl hw) (.inl hp)
  | failed => exact .fails (.refl hw)
  | inProgress owner =>
    dsimp only
    rw [outcome_pure]
    split
    · next h => exact .ready (.refl hw) (.inr (h ▸ hp))
    · exact .awaits (.refl hw)
  | uninitialized =>
    dsimp only
    cases hsuper : c.superClass with
    | none =>
      rw [outcome_bind_ok (hn hsuper)]
      exact beginClass_readied hh hd hp (fun s hs => by cases hsuper.symm.trans hs) hw
    | some s =>
      have lineage (name : String) (h : s.IsLineage name) : c.IsLineage name := by
        obtain ⟨k, hk, e⟩ := h
        refine ⟨k, ?_, e⟩
        obtain ⟨declared, superClass, interfaces, element⟩ := c
        cases hsuper
        rw [Class.lineage]
        exact List.mem_cons_of_mem _ hk
      have hs := ha s hsuper
      rcases ho : outcome above m with ⟨e | readiness, m₁⟩ <;> rw [ho] at hs
      · rw [outcome_bind_error ho]
        cases hs with
        | fails h => exact .fails (h.mono lineage)
        | leaves h hd hk => exact .leaves (h.mono lineage) hd hk
      · rw [outcome_bind_ok ho]
        cases hs with
        | awaits h => exact .awaits (h.mono lineage)
        | initializes h hd hu hr => exact .initializes (h.mono lineage) hd hu hr
        | ready h hr =>
          -- making the superclass ready has left the class itself alone
          have hu : m₁.progress c.name = .uninitialized :=
            (h.spared c.name (hd.not_above hsuper)).trans hp
          have begins := beginClass_readied hh (h.retains.defines hd) hu
            (fun s' hs' => by cases hsuper.symm.trans hs'; exact hr) h.underway
          exact begins.after (h.mono lineage)

/-- Making a class ready for use by a thread. -/
theorem readyClass_readied (hh : host.Within KeepsInit) (hw : Underway w m) :
    ∀ {c : Class}, m.Defines c → Readied id w c m (outcome (readyClass host id c) m)
  | ⟨_, none, _, _⟩, hd => by
    rw [readyClass]
    exact readyAfter_readied hh hd hw (fun _ h => by cases h) fun _ => outcome_pure _ _
  | ⟨_, some s, _, _⟩, hd => by
    rw [readyClass]
    refine readyAfter_readied hh hd hw (fun s' h => ?_) fun h => by cases h
    cases h
    exact readyClass_readied hh hw (m.ascends_defines.superClass _ s hd rfl)

end Exec

end GreenVm
