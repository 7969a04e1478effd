/-
  Handing an exception to its handler.

  * `Crosses m m' r fs r'`: what becomes of an object on its way across frames that do not handle it.
  * `Abandons id fs m m'`: what leaving these frames does to the locks and to the classes.
  * `Thread.Hands t m r x`: the object reaches the first frame that handles it, or the thread ends.
  * `Vm.handed_after`: so it goes with every exception that is raised over a run.
-/
import GreenVm.Proofs.Causes
import GreenVm.Proofs.Throwing
import GreenVm.Proofs.Initialization.Order
import GreenVm.Proofs.Ledger.States

namespace GreenVm

open Exec

/-! ## Across the frames -/

/-- What is thrown across some frames, none of which handles it: the object that was thrown, until it
    leaves a class initializer; if it is no error then, a new error that has it as its cause.  The
    machines are those before and after. -/
inductive Crosses (m m' : Machine) : Ref → List Frame → Ref → Prop
  | nil {r : Ref} : Crosses m m' r [] r
  | passes {r r' : Ref} {f : Frame} {rest : List Frame} {o : Object}
      (ho : m'.heap.get? r = some o) (hu : f.Unhandled m o.type)
      (hk : f.kind = .classInit → o.type.isBelow ClassName.error = true)
      (h : Crosses m m' r rest r') : Crosses m m' r (f :: rest) r'
  | wrapped {r e r' : Ref} {f : Frame} {rest : List Frame} {o w : Object}
      (ho : m'.heap.get? r = some o) (hu : f.Unhandled m o.type) (hk : f.kind = .classInit)
      (he : o.type.isBelow ClassName.error = false)
      (hnew : m.heap.get? e = none) (hlt : r.index < e.index) (hw : m'.heap.get? e = some w)
      (hn : w.type.name = ClassName.exceptionInInitializer)
      (hc : w.getField causeKey = .ok (.reference (some r)))
      (h : Crosses m m' e rest r') : Crosses m m' r (f :: rest) r'

/-- Leaving some frames for good releases all that they have recorded, and the classes that they were
    to initialize have failed. -/
structure Abandons (id : ThreadId) (fs : List Frame) (m m' : Machine) : Prop where
  keeps : KeepsObjects m m'
  holds_eq : ∀ u r, m'.holds u r = m.holds u r - if id = u then Thread.recordedIn fs r else 0
  progress_eq : ∀ name, m'.progress name =
    if ∃ f ∈ fs, f.kind = .classInit ∧ f.owner.name = name then .failed else m.progress name

/-- Handing an object on from the top frame of a thread: it gets to the first frame that handles it,
    and the thread goes on there; or the thread ends, for there is no such frame, or for the object
    has no room on its stack. -/
inductive Thread.Hands (t : Thread) (m : Machine) (r : Ref) :
    Except Fault Unit × Thread × Machine → Prop
  | caught {left rest : List Frame} {f : Frame} {r' : Ref} {o : Object} {handler : Nat} {m' : Machine}
      (hf : t.frames = left ++ f :: rest) (hc : Crosses m m' r left r')
      (ha : Abandons t.id left m m') (ho : m'.heap.get? r' = some o)
      (hh : f.Handles m o.type handler) (hs : 1 ≤ f.stack.max) :
    Hands t m r (.ok (), { t with
      frames := { f with
        stack := { values := [.reference (some r')], depth := 1, max := f.stack.max }
        pc := handler } :: rest
      depth := t.depth - left.length }, m')
  | uncaught {r' : Ref} {links : List ThrownLink} {m' : Machine} (hc : Crosses m m' r t.frames r')
      (ha : Abandons t.id t.frames m m') (hl : m'.heap.Reports r' links) :
    Hands t m r (.ok (), { t with
      frames := [], depth := t.depth - t.frames.length, entry := none
      status := .terminated, blocker := none, completion := some (.threw links) }, m')
  | cramped {left rest : List Frame} {f : Frame} {r' : Ref} {o : Object} {handler : Nat} {m' : Machine}
      (hf : t.frames = left ++ f :: rest) (hc : Crosses m m' r left r')
      (ha : Abandons t.id left m m') (ho : m'.heap.get? r' = some o)
      (hh : f.Handles m o.type handler) (hs : f.stack.max = 0) :
    Hands t m r (.error (.fatal (.stackOverflow 0)),
      { t with frames := f :: rest, depth := t.depth - left.length }, m')

/-! ## One frame -/

section Frames

variable {t : Thread} {m m₁ m' : Machine} {id : ThreadId} {f : Frame} {fs gs rest : List Frame}
  {r r' e : Ref} {o : Object} {x : Except Fault Unit × Thread × Machine}

theorem Machine.holds_released (m : Machine) (id : ThreadId) (rs : List Ref) (u : ThreadId)
    (r : Ref) : (m.released id rs).holds u r = m.holds u r - if id = u then rs.count r else 0 := by
  induction rs generalizing m with
  | nil => simp [released]
  | cons l rs ih =>
    obtain ⟨m', hm, -, hholds, -⟩ := release_spec l id m
    rw [released, ih, hm, hholds, List.count_cons]
    by_cases hu : id = u
    · simp only [hu, true_and, if_true, beq_iff_eq]
      omega
    · simp [hu]

namespace Abandons

/-- Work that neither touches locks nor initializes anything. -/
theorem of_same (hk : KeepsObjects m m') (hl : LeavesLocks m m') (hi : KeepsInit m m') :
    Abandons id [] m m' where
  keeps := hk
  holds_eq u r := by simp [hl.holds_eq]
  progress_eq name := by simp [hi.progress_eq]

theorem released (m : Machine) (hk : f.kind = .method) :
    Abandons id [f] m (m.released id f.monitors) where
  keeps := .released m id f.monitors
  holds_eq u r := by simp [Machine.holds_released]
  progress_eq name := by simp [hk, (m.released_keeps id f.monitors).progress_eq]

theorem failed (m : Machine) (hk : f.kind = .classInit) :
    Abandons id [f] m ((m.released id f.monitors).withInit f.owner .failed) where
  keeps := (KeepsObjects.released m id f.monitors).trans
    (.of_heap (Retains.withInit _ _ _) rfl rfl)
  holds_eq u r := by
    show (m.released id f.monitors).holds u r = _
    simp [Machine.holds_released]
  progress_eq name := by
    rw [Machine.progress_withInit, (m.released_keeps id f.monitors).progress_eq]
    simp [hk]

/-- Leaving some frames, and then others. -/
theorem append (h : Abandons id fs m m₁) (h' : Abandons id gs m₁ m') :
    Abandons id (fs ++ gs) m m' where
  keeps := h.keeps.trans h'.keeps
  holds_eq u r := by
    rw [h'.holds_eq, h.holds_eq, Thread.recordedIn_append]
    split <;> omega
  progress_eq name := by
    rw [h'.progress_eq, h.progress_eq]
    by_cases hr : ∃ f ∈ gs, f.kind = .classInit ∧ f.owner.name = name
    · rw [if_pos hr, if_pos (hr.imp fun _ => And.imp_left (List.mem_append_right fs))]
    · rw [if_neg hr]
      refine if_congr ⟨fun h => h.imp fun _ => And.imp_left (List.mem_append_left gs), ?_⟩ rfl rfl
      rintro ⟨f, hf, hp⟩
      rcases List.mem_append.1 hf with hf | hf
      · exact ⟨f, hf, hp⟩
      · exact absurd ⟨f, hf, hp⟩ hr

end Abandons

/-- What is thrown across frames is the same for a machine from before. -/
theorem Crosses.of_later (h : Crosses m₁ m' r fs r') (hg : m.Grounded) (hk : KeepsObjects m m₁) :
    Crosses m m' r fs r' := by
  induction h with
  | nil => exact .nil
  | passes ho hu hi _ ih => exact .passes ho ((selects_congr hg hk).1 hu) hi ih
  | wrapped ho hu hi he hnew hlt hw hn hc _ ih =>
    exact .wrapped ho ((selects_congr hg hk).1 hu) hi he (hk.get?_eq_none hnew) hlt hw hn hc ih

/-! ## All frames -/

/-- The first frame is crossed, and then the object is handed on. -/
theorem Thread.Hands.cross (h : (t.left rest).Hands m₁ e x) (hf : t.frames = f :: rest)
    (hg : m.Grounded) (ha : Abandons t.id [f] m m₁)
    (hc : ∀ {m' : Machine} {left : List Frame} {r' : Ref}, KeepsObjects m₁ m' →
      Crosses m m' e left r' → Crosses m m' r (f :: left) r') : t.Hands m r x := by
  have depth (n : Nat) : t.depth - 1 - n = t.depth - (n + 1) := by omega
  cases h with
  | caught hf' hc' ha' ho hh hs =>
    have hh' := (selects_congr hg ha.keeps).1 hh
    rw [show (t.left rest).depth = t.depth - 1 from rfl, depth]
    exact .caught (by rw [hf]; exact congrArg (f :: ·) hf')
      (hc ha'.keeps (hc'.of_later hg ha.keeps)) (ha.append ha') ho hh' hs
  | uncaught hc' ha' hl =>
    have h' : t.Hands m r (.ok (), { t with
        frames := [], depth := t.depth - t.frames.length, entry := none, status := .terminated
        blocker := none, completion := some (.threw _) }, _) :=
      .uncaught (by rw [hf]; exact hc ha'.keeps (hc'.of_later hg ha.keeps))
        (by rw [hf]; exact ha.append ha') hl
    rw [hf, List.length_cons, ← depth] at h'
    exact h'
  | cramped hf' hc' ha' ho hh hs =>
    have hh' := (selects_congr hg ha.keeps).1 hh
    rw [show (t.left rest).depth = t.depth - 1 from rfl, depth]
    exact .cramped (by rw [hf]; exact congrArg (f :: ·) hf')
      (hc ha'.keeps (hc'.of_later hg ha.keeps)) (ha.append ha') ho hh' hs

/-- What leaves a failed initializer is the object itself, if it is an error, or a new one. -/
theorem Exec.initializerFailure_spec (id : ThreadId) (hg : m.Grounded) (he : m.Equipped)
    (ho : m.heap.get? r = some o) :
    ∃ r' m', outcome (initializerFailure r) m = (.ok r', m') ∧ Abandons id [] m m' ∧
      (∃ o', m'.heap.get? r' = some o') ∧
      (r' = r ∧ o.type.isBelow ClassName.error = true ∨
        o.type.isBelow ClassName.error = false ∧ m.heap.get? r' = none ∧ r.index < r'.index ∧
          ∃ w, m'.heap.get? r' = some w ∧ w.type.name = ClassName.exceptionInInitializer ∧
            w.getField causeKey = .ok (.reference (some r))) := by
  cases herror : o.type.isBelow ClassName.error with
  | true =>
    refine ⟨r, m, initializerFailure_error ho herror, ?_, ⟨o, ho⟩, .inl ⟨rfl, rfl⟩⟩
    exact .of_same (.refl m) (.refl m) (refl_of KeepsInit m)
  | false =>
    obtain ⟨loaded, w, hx, hn, -, hc⟩ := initializerFailure_wraps hg he ho herror
    have hw : (m.heap.allocate w).2.get? ⟨m.heap.objects.size⟩ = some w := by
      rw [Heap.get?_allocate, if_pos rfl]
    have hfresh : m.heap.get? ⟨m.heap.objects.size⟩ = none := by
      simp [Heap.get?]
    have hk : KeepsInit m { m with loaded, heap := (m.heap.allocate w).2 } :=
      initializerFailure_within.of_eq hx
    refine ⟨_, _, hx, ?_, ⟨w, hw⟩, .inr ⟨rfl, hfresh, Heap.lt_size_of_get? ho, w, hw, hn, hc⟩⟩
    refine .of_same ⟨hk.toRetains, rfl, fun r' o' ho' => ?_⟩ (initializerFailure_within.of_eq hx) hk
    exact ⟨o', Heap.get?_allocate_of_get? ho', rfl, rfl⟩

/-- Pushing a reference on an empty stack. -/
theorem OperandStack.clear_push (s : OperandStack) (r : Ref) :
    s.clear.push (.ofRef r) = if 1 ≤ s.max then
      .ok { values := [.reference (some r)], depth := 1, max := s.max }
    else .error (.stackOverflow s.max) := rfl

theorem Loads.abandons (h : Loads m m') : Abandons id [] m m' := by
  have hk := h.keepsObjects
  obtain ⟨hr, loaded, rfl⟩ := h
  exact .of_same hk (.of_same (fun _ => rfl) rfl) (.of_classStates hr rfl)

/-- What comes of looking for the handler in a frame. -/
theorem Exec.findHandler?_abandons {found : Option Nat} (id : ThreadId) (hg : m.Grounded)
    (ho : m.heap.get? r = some o) (hh : outcome (findHandler? f r) m = (.ok found, m₁)) :
    Abandons id [] m m₁ ∧ Selects m f.owner o.type f.coveringHandlers found := by
  obtain ⟨found', m', hx, hl, hfound⟩ := findHandler?_spec hg ho (f := f)
  cases hx.symm.trans hh
  exact ⟨hl.abandons, hfound⟩

/-- Unwinding hands the object on. -/
theorem Thread.Unwinds.hands (hu : t.Unwinds m r fs x) (hf : t.frames = fs) (hg : m.Grounded)
    (he : m.Equipped) (ho : m.heap.get? r = some o) : t.Hands m r x := by
  induction hu generalizing o with
  | @unhandled t m r =>
    have same : { t with entry := none }.ended (.threw (m.heap.thrownChain r)) = { t with
        frames := [], depth := t.depth - t.frames.length, entry := none, status := .terminated
        blocker := none, completion := some (.threw (m.heap.thrownChain r)) } := by
      simp [Thread.ended, hf]
    rw [same]
    refine .uncaught ?_ ?_ (Heap.thrownChain_reports ho) <;> rw [hf]
    · exact .nil
    · exact .of_same (.refl m) (.refl m) (refl_of KeepsInit m)
  | lost hh =>
    obtain ⟨found, m', hx, -⟩ := findHandler?_spec hg ho
    cases hx.symm.trans hh
  | @caught t m m₁ r f rest handler stack hh hs =>
    obtain ⟨ha, hfound⟩ := findHandler?_abandons t.id hg ho hh
    obtain ⟨o', ho', ht, -⟩ := ha.keeps.get? r o ho
    rw [OperandStack.clear_push] at hs
    split at hs
    · next hmax =>
      cases hs
      have := Hands.caught (show t.frames = [] ++ f :: rest from hf) .nil ha ho' (ht ▸ hfound) hmax
      simpa [Thread.withTop, hf] using this
    · cases hs
  | @overflowed t m m₁ r f rest handler e hh hs =>
    obtain ⟨ha, hfound⟩ := findHandler?_abandons t.id hg ho hh
    obtain ⟨o', ho', ht, -⟩ := ha.keeps.get? r o ho
    rw [OperandStack.clear_push] at hs
    split at hs
    · cases hs
    · next hmax =>
      have hzero : f.stack.max = 0 := by omega
      have := Hands.cramped (show t.frames = [] ++ f :: rest from hf) .nil ha ho' (ht ▸ hfound) hzero
      cases hs
      rw [← hf] at this
      simpa [hzero] using this
  | @passes t m m₁ r f rest x hh hk _ ih =>
    obtain ⟨hsearch, hfound⟩ := findHandler?_abandons t.id hg ho hh
    have ha := hsearch.append (Abandons.released m₁ hk)
    obtain ⟨o₁, ho₁, -⟩ := ha.keeps.get? r o ho
    have hands := ih rfl (ha.keeps.retains.grounded hg) (ha.keeps.retains.equipped he) ho₁
    refine hands.cross hf hg ha fun hkeeps hc => ?_
    obtain ⟨o', ho', ht, -⟩ := (ha.keeps.trans hkeeps).get? r o ho
    exact .passes ho' (ht ▸ hfound) (by simp [hk]) hc
  | @fails t m m₁ m₂ r r' f rest x hh hk hr _ ih =>
    obtain ⟨hsearch, hfound⟩ := findHandler?_abandons t.id hg ho hh
    have hleft := hsearch.append (Abandons.failed m₁ hk)
    obtain ⟨o₁, ho₁, ht₁, -⟩ := hleft.keeps.get? r o ho
    have hg₁ := hleft.keeps.retains.grounded hg
    obtain ⟨_, _, hx, hmade, ⟨o₂, ho₂⟩, hwhich⟩ :=
      initializerFailure_spec t.id hg₁ (hleft.keeps.retains.equipped he) ho₁
    cases hx.symm.trans hr
    have ha := hleft.append hmade
    have hands := ih rfl (ha.keeps.retains.grounded hg) (ha.keeps.retains.equipped he) ho₂
    refine hands.cross hf hg ha fun hkeeps hc => ?_
    obtain ⟨o', ho', ht, -⟩ := (ha.keeps.trans hkeeps).get? r o ho
    rcases hwhich with ⟨rfl, herror⟩ | ⟨herror, hnew, hlt, w, hw, hn, hcause⟩
    · exact .passes ho' (ht ▸ hfound) (fun _ => by rw [ht, ← ht₁]; exact herror) hc
    · obtain ⟨w', hw', htw, hbody⟩ := hkeeps.get? r' w hw
      refine .wrapped ho' (ht ▸ hfound) hk (by rw [ht, ← ht₁]; exact herror)
        (hleft.keeps.get?_eq_none hnew) hlt hw' (htw ▸ hn) ?_ hc
      rw [← hcause]
      simp only [Object.getField, Object.fieldSlot, Object.getSlot, htw, hbody]
  | @unmade t m m₁ m₂ r f rest e hh hk hr =>
    obtain ⟨hsearch, -⟩ := findHandler?_abandons t.id hg ho hh
    have hleft := hsearch.append (Abandons.failed m₁ hk)
    obtain ⟨o₁, ho₁, -⟩ := hleft.keeps.get? r o ho
    obtain ⟨_, _, hx, -⟩ := initializerFailure_spec t.id
      (hleft.keeps.retains.grounded hg) (hleft.keeps.retains.equipped he) ho₁
    cases hx.symm.trans hr

end Frames

/-! ## Over a run -/

namespace Thread

/-- What comes of a step in which an exception is raised: it is handed on, and if there is no room for
    it on the stack where it is handled, that ends the thread. -/
def Handed (t : Thread) (m : Machine) (r : Ref) (s : Thread × Machine) : Prop :=
  t.Hands m r (.ok (), s) ∨ ∃ u m', t.Hands m r (.error (.fatal (.stackOverflow 0)), u, m') ∧
    s = (u.aborted (.stackOverflow 0), m'.abandoned u.id u.frames)

variable {host : Host} {t t₁ : Thread} {m m₁ m₂ : Machine} {e : Throwable} {r : Ref}

/-- Nothing else can become of an object that is handed on. -/
theorem Hands.cases {f : Except Fault Unit} {u : Thread} {m' : Machine}
    (h : t.Hands m r (f, u, m')) : f = .ok () ∨ f = .error (.fatal (.stackOverflow 0)) := by
  cases h with
  | caught => exact .inl rfl
  | uncaught => exact .inl rfl
  | cramped => exact .inr rfl

/-- A step in which an exception is raised. -/
theorem step_handed (hs : t.status = .runnable)
    (hx : outcome (ThreadM.tryStep host) (t, m) = (.error (.thrown e), t₁, m₁))
    (hm : outcome (materialize e) m₁ = (.ok r, m₂))
    (h : t₁.Hands m₂ r (outcome (ThreadM.unwindFrom r t₁.frames) (t₁, m₂))) :
    t₁.Handed m₂ r ((t.step host).run m) := by
  have hstep : (t.step host).run m = (outcome (ThreadM.stepThread host) (t, m)).2 := by
    unfold Thread.step
    simp only [hs, if_true]
    rfl
  have hunwind : outcome (ThreadM.unwind e) (t₁, m₁) =
      outcome (ThreadM.unwindFrom r t₁.frames) (t₁, m₂) := by
    rw [ThreadM.unwind, outcome_thread_bind_ok hm, outcome_bind_ok (outcome_getThread _)]
  rw [hstep, ThreadM.stepThread, outcome_tryCatch, outcome_tryCatch, hx]
  dsimp only
  rw [hunwind]
  generalize outcome (ThreadM.unwindFrom r t₁.frames) (t₁, m₂) = x at h ⊢
  obtain ⟨f, u, m'⟩ := x
  rcases h.cases with rfl | rfl
  · exact .inl h
  · dsimp only
    rw [ThreadM.outcome_abort]
    exact .inr ⟨u, m', h, rfl⟩

end Thread

namespace Vm

variable {host : Host}

/-- The natives of the built-in classes are there from the beginning. -/
theorem equipped_boot (config : Config) (classPath : Table String ClassFile) (wallClock : Nat) :
    (boot config classPath wallClock).machine.Equipped := fun _ h => h

/-- **An exception is handed to the first frame that handles it.**  On the way there, the frames that
    are left release what they have recorded and the classes whose initializers they run fail; an
    exception that is no error leaves such an initializer as the cause of a new error.  If no frame
    handles it, the thread ends with a report of it. -/
theorem handed_after (hh : host.Within KeepsInit) (config : Config)
    (classPath : Table String ClassFile) (wallClock : Nat) (as : List Action)
    {t t₁ : Thread} {m m₁ m₂ : Machine} {e : Throwable} {r : Ref} {o : Object}
    (hn : ((boot config classPath wallClock).after host as).next? = some (t, m))
    (hx : outcome (ThreadM.tryStep host) (t, m) = (.error (.thrown e), t₁, m₁))
    (hm : outcome (materialize e) m₁ = (.ok r, m₂)) (ho : m₂.heap.get? r = some o) :
    t₁.Handed m₂ r ((t.step host).run m) := by
  have begun := Initializing.boot config classPath wallClock
  obtain ⟨lost, h⟩ := begun.after hh as
  obtain ⟨_, passes⟩ := begun.passes hh as
  have equipped := passes.retains.equipped (equipped_boot config classPath wallClock)
  generalize (boot config classPath wallClock).after host as = vm at hn h equipped
  obtain ⟨heased, hk⟩ := choose_eased wakesWithin_keepsInit vm
  have chosen : Initializing lost vm.choose.2 := h.eased heased hk
  rcases turn_cases host vm with ⟨e, -⟩ | ⟨index, t', e, ht, hs, -⟩
  · cases e.symm.trans hn
  obtain ⟨rfl, rfl⟩ := Prod.mk.inj (Option.some.inj (e.symm.trans hn))
  obtain ⟨others, hw⟩ := chosen.share ht
  have ground := (chosen.threads t' (Array.mem_of_getElem? ht)).1
  -- the machine in which the exception is there as an object
  have attempts := ThreadM.tryStep_attempts host t' vm.choose.2.machine
  rw [hx] at attempts
  cases attempts.attempted hh chosen.machine ⟨rfl, .refl hw, ground⟩ with
  | fails raised =>
    have retains := raised.tracked.retains.trans (materialize_within.of_eq hm)
    refine Thread.step_handed hs hx hm ?_
    exact (ThreadM.unwindFrom_unwinds t₁.frames r t₁ m₂).hands rfl (retains.grounded chosen.machine)
      (retains.equipped (hk.toRetains.equipped equipped)) ho

/-- An initializer that throws, so that the thread ends. -/
theorem handed_after_null :
    ∃ t t₁ m m₁ m₂ e r o,
      ((ofInitializer [] (some (.ofList 1 0 [.literal .null, .throwTop]))).after .idle
        [.spawn "A" "main" "()V" [], .turn, .turn]).next? = some (t, m) ∧
      outcome (ThreadM.tryStep .idle) (t, m) = (.error (.thrown e), t₁, m₁) ∧
      outcome (materialize e) m₁ = (.ok r, m₂) ∧ m₂.heap.get? r = some o ∧
      t₁.frames.any (·.kind = .classInit) ∧ t₁.Handed m₂ r ((t.step .idle).run m) := by
  generalize hvm : (ofInitializer [] (some (.ofList 1 0 [.literal .null, .throwTop]))).after .idle
    [.spawn "A" "main" "()V" [], .turn, .turn] = vm
  let e : Throwable := .symbolic ClassName.nullPointer none
  have raises : vm.next?.any fun p =>
      let x := outcome (ThreadM.tryStep .idle) p
      let y := outcome (materialize e) x.2.2
      x.1 = .error (.thrown e) ∧ x.2.1.frames.any (·.kind = .classInit) ∧
        y.1.toOption.any fun r => (y.2.heap.get? r).isSome := by
    rw [← hvm]
    decide +kernel
  obtain ⟨⟨t, m⟩, hn, raises⟩ := (Option.any_eq_true _ _).1 raises
  obtain ⟨hx, hframes, raises⟩ := of_decide_eq_true raises
  obtain ⟨r, hm, raises⟩ := except_any_toOption.1 raises
  obtain ⟨o, ho⟩ := Option.isSome_iff_exists.1 raises
  have hx : outcome (ThreadM.tryStep .idle) (t, m) = (.error (.thrown e), _) := Prod.ext hx rfl
  have hm : outcome (materialize e) _ = (.ok r, _) := Prod.ext hm rfl
  refine ⟨t, _, m, _, _, e, r, o, hn, hx, hm, ho, hframes, ?_⟩
  exact handed_after Host.idle_within _ _ _ _ (hvm ▸ hn) hx hm ho

end Vm

end GreenVm
