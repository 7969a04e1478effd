/-
  The order in which a class goes through the states of its initialization.

  * `statesOf es name`, `reached es name`: the states that a class has been in when some events have
    taken place, and the last of them.
  * `InOrder es`: each event takes a class from the state it has reached to the next one.
  * `Vm.Passes host vm as ess`: over a run, the actions take classes through these states.
  * `Vm.InitializesOnce`: a class is initialized at most once, by one thread, when its superclass may
    be used, and is used only by that thread until it is initialized.
-/
import GreenVm.Proofs.Initialization.Runs
import GreenVm.Proofs.Initialization.Use
import GreenVm.Proofs.Synchronized
import Mathlib.Data.List.Induction

namespace GreenVm

/-! ## Events -/

/-- The states in which the class of a name has been when the events have taken place. -/
def statesOf (es : List InitEvent) (name : String) : List InitState :=
  (if isArrayName name then .done else .uninitialized) ::
    (es.filter (·.target.name = name)).map InitEvent.state

/-- The state in which the class of a name is when the events have taken place. -/
def reached (es : List InitEvent) (name : String) : InitState :=
  (statesOf es name).getLast (List.cons_ne_nil _ _)

variable {es es' : List InitEvent} {e : InitEvent} {name : String} {id : ThreadId}

theorem statesOf_snoc (es : List InitEvent) (e : InitEvent) (name : String) :
    statesOf (es ++ [e]) name =
      if e.target.name = name then statesOf es name ++ [e.state] else statesOf es name := by
  unfold statesOf
  rw [List.filter_append, List.map_append, ← List.cons_append]
  by_cases h : e.target.name = name <;> simp [h]

theorem reached_snoc (es : List InitEvent) (e : InitEvent) (name : String) :
    reached (es ++ [e]) name = if e.target.name = name then e.state else reached es name := by
  have h := statesOf_snoc es e name
  unfold reached
  split
  · next he =>
    rw [if_pos he] at h
    simp [h]
  · next he =>
    rw [if_neg he] at h
    simp [h]

/-- The state of a class is where the events have brought it. -/
def Machine.Reaches (m : Machine) (es : List InitEvent) : Prop :=
  ∀ name, m.progress name = reached es name

theorem Machine.Reaches.keeps {m m' : Machine} (h : m.Reaches es) (hk : KeepsInit m m') :
    m'.Reaches es := fun name => (hk.progress_eq name).trans (h name)

theorem Machine.Reaches.enters {m : Machine} (h : m.Reaches es) (c : Class) (init : InitState) :
    (m.withInit c init).Reaches (es ++ [⟨c, init⟩]) := by
  intro name
  rw [Machine.progress_withInit, reached_snoc, h name]

/-- Events that follow one another as they should: an initialization is begun that nobody has begun,
    by a thread that may use the superclass, and it is ended when it is under way. -/
inductive InOrder : List InitEvent → Prop
  | nil : InOrder []
  | begins {es : List InitEvent} {c : Class} {id : ThreadId} (h : InOrder es)
      (hu : reached es c.name = .uninitialized)
      (hs : ∀ s, c.superClass = some s →
        reached es s.name = .done ∨ reached es s.name = .inProgress id) :
    InOrder (es ++ [⟨c, .inProgress id⟩])
  | ends {es : List InitEvent} {c : Class} {id : ThreadId} {init : InitState} (h : InOrder es)
      (hp : reached es c.name = .inProgress id) (hi : init = .done ∨ init = .failed) :
    InOrder (es ++ [⟨c, init⟩])

namespace InOrder

/-- An initialization takes place once. -/
theorem states (h : InOrder es) (hn : isArrayName name = false) :
    statesOf es name = [.uninitialized] ∨ (∃ id, statesOf es name = [.uninitialized, .inProgress id]) ∨
      ∃ id init, (init = .done ∨ init = .failed) ∧
        statesOf es name = [.uninitialized, .inProgress id, init] := by
  induction h with
  | nil => exact .inl (by simp [statesOf, hn])
  | @begins es c id _ hu _ ih =>
    rw [statesOf_snoc]
    split
    · next hc =>
      subst hc
      rcases ih with ih | ⟨id', ih⟩ | ⟨id', init, hi, ih⟩
      · exact .inr (.inl ⟨id, by rw [ih]; rfl⟩)
      · simp [reached, ih] at hu
      · rcases hi with rfl | rfl <;> simp [reached, ih] at hu
    · exact ih
  | @ends es c id init _ hp hi ih =>
    rw [statesOf_snoc]
    split
    · next hc =>
      subst hc
      rcases ih with ih | ⟨id', ih⟩ | ⟨id', init', hi', ih⟩
      · simp [reached, ih] at hp
      · exact .inr (.inr ⟨id', init, hi, by rw [ih]; rfl⟩)
      · rcases hi' with rfl | rfl <;> simp [reached, ih] at hp
    · exact ih

/-- So the states of a class are the first ones of such a sequence. -/
theorem states_prefix (h : InOrder es) (hn : isArrayName name = false) :
    ∃ id init, (init = .done ∨ init = .failed) ∧
      statesOf es name <+: [.uninitialized, .inProgress id, init] := by
  rcases h.states hn with h | ⟨id, h⟩ | ⟨id, init, hi, h⟩ <;> rw [h]
  · exact ⟨default, .done, .inl rfl, by simp⟩
  · exact ⟨id, .done, .inl rfl, by simp⟩
  · exact ⟨id, init, hi, List.prefix_rfl⟩

/-- The last event takes a class from one state to the next. -/
theorem last {c : Class} {init : InitState} (h : InOrder (es ++ [⟨c, init⟩])) :
    InOrder es ∧
      ((reached es c.name = .uninitialized ∧ ∃ id, init = .inProgress id ∧
          ∀ s, c.superClass = some s →
            reached es s.name = .done ∨ reached es s.name = .inProgress id) ∨
        ((∃ id, reached es c.name = .inProgress id) ∧ (init = .done ∨ init = .failed))) := by
  generalize hl : es ++ [⟨c, init⟩] = l at h
  cases h with
  | nil => simp at hl
  | begins h hu hs =>
    obtain ⟨rfl, e⟩ := List.append_inj' hl rfl
    obtain ⟨rfl, rfl⟩ := InitEvent.mk.inj (List.singleton_inj.1 e)
    exact ⟨h, .inl ⟨hu, _, rfl, hs⟩⟩
  | ends h hp hi =>
    obtain ⟨rfl, e⟩ := List.append_inj' hl rfl
    obtain ⟨rfl, rfl⟩ := InitEvent.mk.inj (List.singleton_inj.1 e)
    exact ⟨h, .inr ⟨⟨_, hp⟩, hi⟩⟩

/-- Whatever came before was in order, too. -/
theorem of_append (h : InOrder (es ++ es')) : InOrder es := by
  induction es' using List.reverseRecOn with
  | nil => rwa [List.append_nil] at h
  | append_singleton es' e ih =>
    rw [← List.append_assoc] at h
    exact ih h.last.1

/-- Whoever begins an initialization may use the superclass. -/
theorem above {c s : Class} (h : InOrder (es ++ ⟨c, .inProgress id⟩ :: es'))
    (hs : c.superClass = some s) :
    reached es s.name = .done ∨ reached es s.name = .inProgress id := by
  rw [List.append_cons] at h
  rcases h.of_append.last.2 with ⟨-, id', e, hs'⟩ | ⟨-, e | e⟩ <;> cases e
  exact hs' s hs

/-- What is over stays as it is. -/
theorem reached_append (h : InOrder (es ++ es'))
    (ho : reached es name = .done ∨ reached es name = .failed) :
    reached (es ++ es') name = reached es name := by
  induction es' using List.reverseRecOn with
  | nil => rw [List.append_nil]
  | append_singleton es' e ih =>
    rw [← List.append_assoc] at h
    have same := ih h.last.1
    rw [← List.append_assoc, reached_snoc, same]
    refine if_neg fun he => ?_
    subst he
    rw [← same] at ho
    rcases h.last.2 with ⟨hu, -⟩ | ⟨⟨id, hp⟩, -⟩
    · rcases ho with ho | ho <;> cases ho.symm.trans hu
    · rcases ho with ho | ho <;> cases ho.symm.trans hp

/-- A class below one that has failed is not initialized. -/
theorem stays {c s : Class} (h : InOrder (es ++ es')) (hs : c.superClass = some s)
    (hc : ∀ e ∈ es', e.target.name = c.name → e.target = c)
    (hf : reached es s.name = .failed) (hu : reached es c.name = .uninitialized) :
    reached (es ++ es') c.name = .uninitialized := by
  induction es' using List.reverseRecOn with
  | nil => rwa [List.append_nil]
  | append_singleton es' e ih =>
    rw [← List.append_assoc] at h
    have before := ih h.last.1 fun e he => hc e (List.mem_append_left _ he)
    rw [← List.append_assoc, reached_snoc]
    refine (if_neg fun he => ?_).trans before
    have hfailed : reached (es ++ es') s.name = .failed :=
      (h.last.1.reached_append (.inr hf)).trans hf
    obtain rfl : e.target = c := hc e (by simp) he
    rcases h.last.2 with ⟨-, id, -, hs'⟩ | ⟨⟨id, hp⟩, -⟩
    · rcases hs' s hs with h | h <;> cases hfailed.symm.trans h
    · cases before.symm.trans hp

end InOrder

namespace InitPath

variable {m m' : Machine}

/-- A path goes through states in order, and to where they bring the classes. -/
theorem inOrder (h : InitPath id m es' m') (ho : InOrder es) (hr : m.Reaches es) :
    InOrder (es ++ es') ∧ m'.Reaches (es ++ es') := by
  induction h with
  | keeps hk =>
    rw [List.append_nil]
    exact ⟨ho, hr.keeps hk⟩
  | begins _ _ hu hs hk ih =>
    obtain ⟨ho, hr⟩ := ih
    rw [← List.append_assoc]
    refine ⟨.begins ho ((hr _).symm.trans hu) fun s e => ?_, (hr.enters _ _).keeps hk⟩
    rw [← hr s.name]
    exact hs s e
  | ends _ _ hp hi hk ih =>
    obtain ⟨ho, hr⟩ := ih
    rw [← List.append_assoc]
    exact ⟨.ends ho ((hr _).symm.trans hp) hi, (hr.enters _ _).keeps hk⟩

/-- The classes that are initialized are defined. -/
theorem defines (h : InitPath id m es m') : ∀ e ∈ es, m'.Defines e.target := by
  have more {es : List InitEvent} {c : Class} {init : InitState} {m₁ m' : Machine}
      (ih : ∀ e ∈ es, m₁.Defines e.target) (hd : m₁.Defines c)
      (hk : KeepsInit (m₁.withInit c init) m') :
      ∀ e ∈ es ++ [(⟨c, init⟩ : InitEvent)], m'.Defines e.target := by
    have hr : Retains m₁ m' := (Retains.withInit m₁ c init).trans hk.toRetains
    intro e he
    rcases List.mem_append.1 he with he | he
    · exact hr.defines (ih e he)
    · rw [List.mem_singleton.1 he]
      exact hr.defines hd
  induction h with
  | keeps => nofun
  | begins _ hd _ _ hk ih => exact more ih hd hk
  | ends _ hd _ _ hk ih => exact more ih hd hk

end InitPath

/-! ## Runs -/

namespace Vm

variable {host : Host} {vm : Vm} {as bs : List Action} {ess : List (List InitEvent)}
  {lost : List (String × ThreadId)} {t : Thread} {f : Frame} {c : Class}

/-- Over a run, each action takes classes through states of their initialization, on behalf of one
    thread. -/
inductive Passes (host : Host) : Vm → List Action → List (List InitEvent) → Prop
  | nil {vm : Vm} : Passes host vm [] []
  | cons {vm : Vm} {a : Action} {as : List Action} {es : List InitEvent}
      {ess : List (List InitEvent)} {id : ThreadId}
      (h : InitPath id vm.machine es (vm.act host a).machine)
      (hs : Passes host (vm.act host a) as ess) : Passes host vm (a :: as) (es :: ess)

theorem Initializing.passes (hh : host.Within KeepsInit) (h : Initializing lost vm)
    (as : List Action) : ∃ ess, Passes host vm as ess := by
  induction as generalizing vm lost with
  | nil => exact ⟨[], .nil⟩
  | cons a as ih =>
    obtain ⟨_, id, es, h', hpath⟩ := h.act hh a
    obtain ⟨ess, hs⟩ := ih h'
    exact ⟨es :: ess, .cons hpath hs⟩

namespace Passes

/-- The events of a run are in order, and after each action the classes are where they have brought
    them. -/
theorem inOrder (h : Passes host vm as ess) (ho : InOrder es) (hr : vm.machine.Reaches es) :
    InOrder (es ++ ess.flatten) ∧
      ∀ n, (vm.after host (as.take n)).machine.Reaches (es ++ (ess.take n).flatten) := by
  induction h generalizing es with
  | nil =>
    refine ⟨by simpa using ho, fun n => ?_⟩
    simpa using hr
  | cons h _ ih =>
    obtain ⟨ho', hr'⟩ := h.inOrder ho hr
    obtain ⟨hin, hreach⟩ := ih ho' hr'
    rw [List.flatten_cons, ← List.append_assoc]
    refine ⟨hin, fun n => ?_⟩
    cases n with
    | zero => simpa using hr
    | succ n =>
      rw [List.take_succ_cons, List.take_succ_cons, after_cons, List.flatten_cons,
        ← List.append_assoc]
      exact hreach n

theorem retains (h : Passes host vm as ess) : Retains vm.machine (vm.after host as).machine := by
  induction h with
  | nil => exact .refl _
  | cons h _ ih => exact h.retains.trans ih

/-- The classes that are initialized are defined. -/
theorem defines (h : Passes host vm as ess) :
    ∀ e ∈ ess.flatten, (vm.after host as).machine.Defines e.target := by
  induction h with
  | nil => nofun
  | cons h hs ih =>
    intro e he
    rcases List.mem_append.1 (List.flatten_cons ▸ he) with he | he
    · exact hs.retains.defines (h.defines e he)
    · exact ih e he

/-- Nothing becomes uninitialized again. -/
theorem uninitialized (h : Passes host vm as ess)
    (hu : (vm.after host as).machine.progress name = .uninitialized) :
    vm.machine.progress name = .uninitialized := by
  induction h with
  | nil => exact hu
  | cons h _ ih => exact h.uninitialized (ih hu)

end Passes

/-! ### Frames of initializers -/

/-- In the next turn a thread pushes the frame of the initializer of a class. -/
def BeginsInit (host : Host) (vm : Vm) (t : Thread) (c : Class) : Prop :=
  ∃ f, vm.pushed? host = some (t, f) ∧ f.kind = .classInit ∧ f.owner = c

/-- The frame of an initializer is pushed in the turn in which the initialization is begun. -/
theorem Initializing.begins (hh : host.Within KeepsInit) (h : Initializing lost vm)
    (hb : vm.BeginsInit host t c) :
    vm.machine.progress c.name = .uninitialized ∧
      (vm.act host .turn).machine.progress c.name = .inProgress t.id := by
  obtain ⟨f, hp, hk, rfl⟩ := hb
  obtain ⟨m, rest, hnext, hf, hlen, -⟩ := pushed?_eq_some hp
  obtain ⟨heased, hkeeps⟩ := choose_eased wakesWithin_keepsInit vm
  rcases turn_cases host vm with ⟨hnone, -⟩ | ⟨index, u, hnext', hu, hr, hturn⟩
  · cases hnone.symm.trans hnext
  · cases hnext'.symm.trans hnext
    obtain ⟨lost', -, -, hfresh, hprogress⟩ := (h.eased heased hkeeps).runThread hh hu hr
    have hnew := hfresh f rest hf hlen hk
    rw [hkeeps.progress_eq] at hnew
    refine ⟨hnew, ?_⟩
    show (vm.turn host).2.machine.progress f.owner.name = .inProgress t.id
    rw [hturn]
    exact hprogress f (hf ▸ List.mem_cons_self) hk

/-! ### The whole run -/

/-- What happens to a class over a run in which the actions bring about the events `ess`. -/
structure InitializesOnce (host : Host) (vm : Vm) (as : List Action) (ess : List (List InitEvent))
    (c : Class) : Prop where
  /-- It is uninitialized, then a thread initializes it, and then it is initialized or has failed. -/
  states : c.isArray = false → ∃ id init, (init = .done ∨ init = .failed) ∧
    statesOf ess.flatten c.name <+: [.uninitialized, .inProgress id, init]
  /-- After each action it is where the events have brought it. -/
  current : ∀ n, (vm.after host (as.take n)).machine.progress c.name =
    reached (ess.take n).flatten c.name
  /-- Its initialization is begun by a thread that may use the superclass. -/
  above : ∀ es es' id, ess.flatten = es ++ ⟨c, .inProgress id⟩ :: es' →
    ∀ s, c.superClass = some s →
      reached es s.name = .done ∨ reached es s.name = .inProgress id
  /-- It is never begun if that of the superclass has failed. -/
  stays : ∀ es es' s, ess.flatten = es ++ es' → c.superClass = some s →
    reached es s.name = .failed → reached es c.name = .uninitialized →
    reached ess.flatten c.name = .uninitialized
  /-- The frame of its initializer is pushed by the thread that begins its initialization. -/
  begins : ∀ bs cs t, as = bs ++ .turn :: cs → (vm.after host bs).BeginsInit host t c →
    (vm.after host bs).machine.progress c.name = .uninitialized ∧
      (vm.after host (bs ++ [.turn])).machine.progress c.name = .inProgress t.id
  /-- While there is such a frame, its thread initializes the class. -/
  running : ∀ n, ∀ t ∈ (vm.after host (as.take n)).threads, ∀ f ∈ t.frames, f.kind = .classInit →
    f.owner = c → (vm.after host (as.take n)).machine.progress c.name = .inProgress t.id
  /-- It is pushed once. -/
  once : ∀ bs cs bs' cs' t t', as = bs ++ .turn :: cs → as = bs' ++ .turn :: cs' →
    (vm.after host bs).BeginsInit host t c → (vm.after host bs').BeginsInit host t' c → bs = bs'

/-- A frame of the initializer is not pushed again after it was pushed. -/
theorem Initializing.not_begins_again (hh : host.Within KeepsInit) (h : Initializing lost vm)
    {cs : List Action} {t' : Thread} (hb : (vm.after host bs).BeginsInit host t c)
    (hb' : (vm.after host (bs ++ .turn :: cs)).BeginsInit host t' c) : False := by
  obtain ⟨over₁, h₁⟩ := h.after hh bs
  obtain ⟨over₂, h₂⟩ := h.after hh (bs ++ .turn :: cs)
  have hbegun := (h₁.begins hh hb).2
  have hnew := (h₂.begins hh hb').1
  obtain ⟨over₃, h₃⟩ := h.after hh (bs ++ [.turn])
  rw [after_append, after_cons, after_nil] at h₃
  obtain ⟨ess, hpasses⟩ := h₃.passes hh cs
  rw [after_append, after_cons] at hnew
  cases (hpasses.uninitialized hnew).symm.trans hbegun

theorem Initializing.initializesOnce (hh : host.Within KeepsInit) (h : Initializing lost vm)
    (hr : vm.machine.Reaches []) (hp : Passes host vm as ess)
    (hc : (vm.after host as).machine.Defines c) : InitializesOnce host vm as ess c := by
  obtain ⟨hin, hreach⟩ := hp.inOrder .nil hr
  rw [List.nil_append] at hin
  constructor
  case states => exact fun hn => hin.states_prefix hn
  case current => exact fun n => hreach n c.name
  case above => exact fun es es' id e s hs => (e ▸ hin).above hs
  case stays =>
    intro es es' s e hs hf hu
    rw [e]
    refine InOrder.stays (e ▸ hin) hs (fun e' he' hn => ?_) hf hu
    have hd := hp.defines e' (e ▸ List.mem_append_right _ he')
    exact hd.unique hc hn
  case begins =>
    intro bs cs t e hb
    obtain ⟨lost', h'⟩ := h.after hh bs
    rw [after_append]
    exact h'.begins hh hb
  case running =>
    intro n t ht f hf hk e
    obtain ⟨lost', h'⟩ := h.after hh (as.take n)
    exact e ▸ h'.progress ht hf hk
  case once =>
    intro bs cs bs' cs' t t' e e' hb hb'
    rcases List.append_eq_append_iff.1 (e.symm.trans e') with ⟨ds, rfl, hds⟩ | ⟨ds, rfl, hds⟩
    · cases ds with
      | nil => rw [List.append_nil]
      | cons d ds =>
        obtain ⟨rfl, -⟩ := List.cons.inj hds
        exact (h.not_begins_again hh hb hb').elim
    · cases ds with
      | nil => rw [List.append_nil]
      | cons d ds =>
        obtain ⟨rfl, -⟩ := List.cons.inj hds
        exact (h.not_begins_again hh hb' hb).elim

/-- **Every class is initialized at most once**: over any run, the actions bring about events in
    which each class that is loaded goes through the states of its initialization in order, and a
    thread that executes an instruction on a class gets past the initialization only if the class is
    initialized or the thread itself initializes it. -/
theorem initializesOnce_after (hh : host.Within KeepsInit) (config : Config)
    (classPath : Table String ClassFile) (wallClock : Nat) (as : List Action) :
    ∃ ess, Passes host (boot config classPath wallClock) as ess ∧
      (∀ c, ((boot config classPath wallClock).after host as).machine.loaded.get? c.name = some c →
        InitializesOnce host (boot config classPath wallClock) as ess c) ∧
      ∀ t m f rest c m₁,
        ((boot config classPath wallClock).after host as).next? = some (t, m) →
        t.frames = f :: rest → f.Uses m c m₁ →
        (∀ m₂, outcome (Exec.readyClass host t.id c) m₁ = (.ok .ready, m₂) → m₂.Ready t.id c) ∧
          ∀ next f' m', outcome (Frame.execute host t.id) (f, m) = (.ok next, f', m') →
            next.isLocal ∨ (∃ r, next = .invoke r) → m'.Ready t.id c := by
  have booted := Initializing.boot config classPath wallClock
  obtain ⟨ess, hp⟩ := booted.passes hh as
  obtain ⟨lost, hafter⟩ := booted.after hh as
  refine ⟨ess, hp, fun c hc => ?_, fun t m f rest c m₁ _ _ hu => hu.ready host t.id⟩
  exact booted.initializesOnce hh (fun _ => rfl) hp (hafter.machine.of_loaded hc)

/-- A class with an initializer that ends at once, and a thread that runs its `main`. -/
theorem initializesOnce_after_main :
    let vm := ofInitializer [] (some (.ofList 1 0 [.leave none]))
    let as := [Action.spawn "A" "main" "()V" [], .turn, .turn, .turn]
    Host.idle.Within KeepsInit ∧ ∃ ess c, Passes .idle vm as ess ∧
      (vm.after .idle as).machine.loaded.get? c.name = some c ∧
      InitializesOnce .idle vm as ess c ∧ reached ess.flatten c.name = .done := by
  intro vm as
  have h : ((vm.after .idle as).machine.loaded.get? "A").any
      fun c => c.name = "A" ∧ (vm.after .idle as).machine.progress "A" = .done := by
    decide +kernel
  obtain ⟨c, hc, hd⟩ := (Option.any_eq_true _ _).1 h
  obtain ⟨hname, hdone⟩ := of_decide_eq_true hd
  obtain ⟨ess, hp, honce, -⟩ := initializesOnce_after Host.idle_within {} _ 0 as
  rw [← hname] at hc hdone
  have hclass := honce c hc
  refine ⟨Host.idle_within, ess, c, hp, hc, hclass, ?_⟩
  have hcurrent := hclass.current (as.length + ess.length)
  rw [List.take_of_length_le (Nat.le_add_right _ _),
    List.take_of_length_le (Nat.le_add_left _ _)] at hcurrent
  exact hcurrent.symm.trans hdone

end Vm

end GreenVm
