/-
  Frames over a run: each has been entered, and has come by its local variables and its operand stack
  through instructions, calls, returns and handlers.

  * `Frame.Arises`: some values have been stored in a frame that was entered.
  * `Thread.Arisen.step`: if all frames of a thread arise, then so they do after a step of it.
  * `StartsThreads`: threads that are to be started have no frames.
  * `Vm.arises_after`: every frame of every thread in every state that a run comes to arises, so that
    its operand stack is sound (`Vm.stack_sound_after`).
  * `Vm.recalls_after`: what local variables hold, in every frame and over every run.
-/
import GreenVm.Proofs.Endings
import GreenVm.Proofs.Locals
import GreenVm.Proofs.Quiet.Natives

namespace GreenVm

/-- The frame was entered, and some values have been stored in it. -/
def Frame.Arises (f : Frame) : Prop := ∃ ws, f.Written ws

theorem OperandStack.pushResult_evolves {s s' : OperandStack} {value : Option Value}
    (h : s.pushResult value = .ok s') : s.Evolves s' := by
  cases value with
  | none =>
    cases h
    exact .refl s
  | some v => exact push_evolves h

namespace Frame

variable {f f' : Frame} {stack : OperandStack} {args : List Value} {kind : FrameKind} {r : MethodRef}

theorem Arises.operates (h : f.Arises) (ho : f.Operates f') : f'.Arises :=
  h.imp fun _ hw => hw.operates ho

theorem Arises.of_stack (h : f.Arises) (hs : f.stack.Evolves stack) (pc : Nat) :
    { f with stack, pc }.Arises := h.operates ⟨rfl, rfl, hs⟩

theorem arises_of_enter (h : Frame.enter r args kind = .ok f) : f.Arises := ⟨_, .enters h⟩

theorem Arises.execute {host : Host} {id : ThreadId} {m m' : Machine} {x : Except Fault Next}
    (h : f.Arises) (hx : outcome (Frame.execute host id) (f, m) = (x, f', m')) : f'.Arises := by
  obtain ⟨ws, hw⟩ := h
  have := hw.executes hx
  cases x with
  | error e => exact ⟨ws, (this.2 e rfl).1⟩
  | ok next => exact ⟨_, this.1 next rfl⟩

end Frame

/-! ## Steps -/

namespace Thread

/-- All frames of the thread arise. -/
def Arisen (t : Thread) : Prop := ∀ f ∈ t.frames, f.Arises

variable {t u : Thread} {m m' : Machine} {host : Host} {f : Frame} {rest : List Frame}
  {r : MethodRef} {x : Except Fault Unit × Thread × Machine}

theorem Arisen.of_frames (h : t.Arisen) (hf : u.frames = t.frames) : u.Arisen := fun f hu =>
  h f (hf ▸ hu)

theorem arisen_cons (hf : t.frames = f :: rest) : t.Arisen ↔ f.Arises ∧ ∀ g ∈ rest, g.Arises := by
  rw [Arisen, hf, List.forall_mem_cons]

theorem Arisen.withTop (h : t.Arisen) (hf : f.Arises) : (t.withTop f).Arisen :=
  (arisen_cons rfl).2 ⟨hf, fun g hg => h g (List.mem_of_mem_tail hg)⟩

theorem Arisen.pushed (h : t.Arisen) (hf : f.Arises) : (t.pushed f).Arisen :=
  (arisen_cons rfl).2 ⟨hf, h⟩

theorem arisen_aborted (t : Thread) (e : EngineError) : (t.aborted e).Arisen := nofun

theorem Calls.arisen {lock : Option Ref} (h : t.Arisen) (hf : f.Arises)
    (hc : t.Calls host f m r lock x) : x.2.1.Arisen := by
  have popped {n : Nat} {args : List Value} {stack : OperandStack}
      (ha : f.stack.popArgs n = .ok (args, stack)) : (t.withTop { f with stack }).Arisen :=
    h.withTop (hf.of_stack (OperandStack.popArgs_evolves ha) f.pc)
  cases hc with
  | starved => exact h
  | entered ha _ _ he => exact (popped ha).pushed ((Frame.arises_of_enter he).operates ⟨rfl, rfl, .refl _⟩)
  | returned ha _ _ _ hv =>
    exact h.withTop (hf.of_stack
      ((OperandStack.popArgs_evolves ha).trans (OperandStack.pushResult_evolves hv)) (f.pc + 1))
  | refused ha => exact popped ha
  | unentered ha => exact popped ha
  | unsplit ha => exact popped ha
  | failed ha => exact popped ha
  | overflowed ha => exact popped ha

theorem Invokes.arisen (h : t.Arisen) (hf : f.Arises) (hi : t.Invokes host f m r x) :
    x.2.1.Arisen := by
  cases hi with
  | unlocked => exact h
  | busy => exact h
  | unguarded _ hc => exact hc.arisen h hf
  | guarded _ hc => exact hc.arisen h hf

theorem Returns.arisen {value : Option Value} (h : ∀ g ∈ rest, g.Arises)
    (hr : t.Returns f m value rest x) : x.2.1.Arisen := by
  cases hr with
  | initialized => exact h
  | overflowed => exact h
  | @returned caller rest stack _ hv =>
    exact (arisen_cons rfl).2 ⟨(h caller List.mem_cons_self).of_stack
      (OperandStack.pushResult_evolves hv) (caller.pc + 1), fun g hg => h g (List.mem_cons_of_mem _ hg)⟩
  | started => exact nofun
  | ended => exact nofun

theorem BeginsInitializer.arisen (h : t.Arisen) (hb : t.BeginsInitializer m r x) :
    x.2.1.Arisen := by
  cases hb with
  | pushed he => exact h.pushed (Frame.arises_of_enter he)
  | unentered => exact h

theorem Starts.arisen (h : t.Arisen) (hs : t.Starts host m r x) : x.2.1.Arisen := by
  cases hs with
  | initializes _ _ hb => exact hb.arisen h
  | entered _ _ _ hg => exact Arisen.pushed (t := { t with entry := none }) h (Frame.arises_of_enter hg)
  | _ => exact h

theorem Executes.arisen (hf : f.Arises) (hrest : ∀ g ∈ rest, g.Arises)
    (hx : t.Executes host f m rest x) : x.2.1.Arisen := by
  have executed {f' : Frame} {m₁ : Machine} {y : Except Fault Next}
      (hx : outcome (Frame.execute host t.id) (f, m) = (y, f', m₁)) (next : Next) :
      Arisen { t with frames := f'.moved next :: rest } :=
    (arisen_cons rfl).2 ⟨(hf.execute hx).operates (.moved f' next), hrest⟩
  cases hx with
  | failed hx => exact (arisen_cons rfl).2 ⟨hf.execute hx, hrest⟩
  | advances hx => exact executed hx _
  | jumps hx => exact executed hx _
  | blocks hx => exact (arisen_cons rfl).2 ⟨hf.execute hx, hrest⟩
  | awaits hx => exact (arisen_cons rfl).2 ⟨hf.execute hx, hrest⟩
  | initializes hx hb => exact hb.arisen ((arisen_cons rfl).2 ⟨hf.execute hx, hrest⟩)
  | invokes hx hi => exact hi.arisen ((arisen_cons rfl).2 ⟨hf.execute hx, hrest⟩) (hf.execute hx)
  | returns hx hr => exact hr.arisen hrest

theorem Attempts.arisen (h : t.Arisen) (ha : t.Attempts host m x) : x.2.1.Arisen := by
  cases ha with
  | reacquires => exact h
  | blocksAgain => exact h
  | dangling => exact h
  | starts _ _ hs => exact hs.arisen h
  | executes _ hf hx =>
    obtain ⟨htop, hrest⟩ := (arisen_cons hf).1 h
    exact hx.arisen htop hrest

theorem Unwinds.arisen {o : Ref} {fs : List Frame} (hu : t.Unwinds m o fs x) (hfs : t.frames = fs)
    (h : t.Arisen) : x.2.1.Arisen := by
  induction hu with
  | unhandled => exact h
  | lost => exact h
  | overflowed => exact h
  | unmade => exact ((arisen_cons hfs).1 h).2
  | @caught t m m₁ r f rest handler stack _ hs =>
    have hevolves := (f.stack.clear_evolves).trans (OperandStack.push_evolves hs)
    exact h.withTop (((arisen_cons hfs).1 h).1.of_stack hevolves handler)
  | passes _ _ _ ih => exact ih rfl ((arisen_cons hfs).1 h).2
  | fails _ _ _ _ ih => exact ih rfl ((arisen_cons hfs).1 h).2

/-- If all frames of a thread arise, then so they do after a step of it. -/
theorem Arisen.step (h : t.Arisen) (host : Host) (m : Machine) :
    ((t.step host).run m).1.Arisen := by
  by_cases hs : t.status = .runnable
  · have hsteps := step_steps host hs m
    generalize (t.step host).run m = s at hsteps
    cases hsteps with
    | works ha => exact ha.arisen h
    | throws ha _ hu => exact hu.arisen rfl (ha.arisen h)
    | aborts => exact arisen_aborted _ _
    | unmade => exact arisen_aborted _ _
    | stuck => exact arisen_aborted _ _
  · rw [step_of_not_runnable hs]
    exact h

end Thread

/-! ## New threads -/

/-- Only threads without frames are to be started. -/
def StartsThreads (m m' : Machine) : Prop :=
  ∃ ts, m'.requests.spawned = m.requests.spawned ++ ts ∧ ∀ t ∈ ts, t.frames = []

namespace StartsThreads

variable {m m' m'' : Machine}

theorem of_same (h : m'.requests.spawned = m.requests.spawned) : StartsThreads m m' :=
  ⟨[], by simp [h], by simp⟩

theorem trans (h : StartsThreads m m') (h' : StartsThreads m' m'') : StartsThreads m m'' := by
  obtain ⟨ts, e, hn⟩ := h
  obtain ⟨ts', e', hn'⟩ := h'
  refine ⟨ts ++ ts', by rw [e', e, List.append_assoc], fun t ht => ?_⟩
  exact (List.mem_append.1 ht).elim (hn t) (hn' t)

instance : Std.Refl StartsThreads := ⟨fun _ => .of_same rfl⟩

instance : IsTrans Machine StartsThreads := ⟨fun _ _ _ => trans⟩

end StartsThreads

theorem Thread.IsNew.frames_eq {t : Thread} (h : t.IsNew) : t.frames = [] := by
  obtain ⟨r, args, h⟩ := h
  rw [h]
  rfl

theorem LeavesLocks.startsThreads {m m' : Machine} (h : LeavesLocks m m') : StartsThreads m m' := by
  obtain ⟨ts, e, hn⟩ := h.spawned
  exact ⟨ts, e, fun t ht => (hn t ht).frames_eq⟩

namespace StartsThreads

instance : Quiet StartsThreads := .mono fun _ _ => LeavesLocks.startsThreads

instance : StoresBytes StartsThreads := .mono fun _ _ => LeavesLocks.startsThreads

instance : Initializes StartsThreads where
  setInit _ _ _ := .of_same rfl

instance : Lively StartsThreads where
  change _ _ _ _ := .of_same rfl
  request _ _ h := .of_same h
  bind _ _ _ := .of_same rfl
  start _ _ _ _ id name args _ _ := ⟨[.starting id name _ args], rfl, by simp [Thread.starting]⟩

end StartsThreads

theorem Thread.step_startsThreads {host : Host} (hh : host.Within StartsThreads) (t : Thread)
    (m : Machine) : StartsThreads m ((t.step host).run m).2 :=
  (Thread.step_within (.of_lively hh t.id)).2

/-! ## Runs -/

namespace Vm

/-- All frames arise, and threads that are to be started have none. -/
structure Arisen (vm : Vm) : Prop where
  threads : ∀ t ∈ vm.threads, t.Arisen
  spawned : ∀ t ∈ vm.machine.requests.spawned, t.frames = []

variable {vm vm' : Vm} {host : Host}

namespace Arisen

theorem boot (config : Config) (classPath : Table String ClassFile) (wallClock : Nat) :
    Arisen (.boot config classPath wallClock) where
  threads _ ht := by simp [Vm.boot] at ht
  spawned _ ht := by cases ht

theorem eased (h : Arisen vm) (he : Eased vm.threads vm'.threads)
    (hs : StartsThreads vm.machine vm'.machine) : Arisen vm' where
  threads u hu := by
    obtain ⟨j, hj⟩ := Array.getElem?_of_mem hu
    obtain ⟨t, ht, htu⟩ := he.get? hj
    exact (h.threads t (Array.mem_of_getElem? ht)).of_frames htu.frames_eq
  spawned t ht := by
    obtain ⟨ts, e, hn⟩ := hs
    rw [e] at ht
    exact (List.mem_append.1 ht).elim (h.spawned t) (hn t)

theorem choose (h : Arisen vm) : Arisen vm.choose.2 :=
  h.eased (choose_eased wakesWithin_leavesLocks vm).1
    (choose_eased wakesWithin_leavesLocks vm).2.startsThreads

theorem runThread (h : Arisen vm) (hh : host.Within StartsThreads) {i : Nat} {t : Thread}
    (ht : vm.threads[i]? = some t) : Arisen (vm.runThread host i) := by
  have hm := (runThread_spec host ht).1
  obtain ⟨new, hnew, hnews⟩ := Thread.step_startsThreads hh t vm.machine
  have hstep := (h.threads t (Array.mem_of_getElem? ht)).step host vm.machine
  refine ⟨fun u hu => ?_, fun u hu => ?_⟩
  · obtain ⟨j, hj⟩ := Array.getElem?_of_mem hu
    rcases runThread_get? host ht hj with ⟨-, v, hv, hvu⟩ | ⟨-, v, hv, e⟩ | hu
    · exact (h.threads v (Array.mem_of_getElem? hv)).of_frames hvu.frames_eq
    · have hv := hstep.of_frames hv.frames_eq
      rcases e with rfl | ⟨s, b, -, -, rfl⟩
      · exact hv
      · exact hv.of_frames (Thread.suspended_id v b).2
    · -- a thread that the step has started
      rw [hnew] at hu
      have hframes : u.frames = [] := (List.mem_append.1 hu).elim (h.spawned u) (hnews u)
      rw [Thread.Arisen, hframes]
      exact nofun
  · rw [hm] at hu
    cases hu

theorem act (h : Arisen vm) (hh : host.Within StartsThreads) (a : Action) :
    Arisen (vm.act host a) := by
  by_cases ha : a = .turn
  · subst ha
    show Arisen (vm.turn host).2
    rcases turn_cases host vm with ⟨-, e | e⟩ | ⟨i, t, -, ht, -, e⟩ <;> rw [e]
    · exact h
    · exact h.choose
    · exact h.choose.runThread hh ht
  · obtain ⟨machine, new, e, hnew⟩ := act_appends host vm ha
    have hs : StartsThreads vm.machine (vm.act host a).machine := (act_leavesLocks ha).startsThreads
    rw [e] at hs ⊢
    have hmachine : Arisen { vm with machine } := h.eased (.refl _) hs
    refine ⟨fun u hu => ?_, hmachine.spawned⟩
    rcases Array.mem_append.1 hu with hu | hu
    · exact h.threads u hu
    · obtain ⟨id, name, r, args, rfl, -⟩ := hnew u hu
      exact nofun

theorem after (h : Arisen vm) (hh : host.Within StartsThreads) (as : List Action) :
    Arisen (vm.after host as) := by
  induction as generalizing vm with
  | nil => exact h
  | cons a as ih => exact ih (h.act hh a)

end Arisen

/-- Every frame of every thread, in every state that a run comes to, arises. -/
theorem arises_after (hh : host.Within StartsThreads) (config : Config)
    (classPath : Table String ClassFile) (wallClock : Nat) (as : List Action) :
    ∀ t ∈ ((boot config classPath wallClock).after host as).threads, ∀ f ∈ t.frames, f.Arises :=
  ((Arisen.boot config classPath wallClock).after hh as).threads

/-- So every operand stack that a run comes to is sound, with the bound of its method. -/
theorem stack_sound_after (hh : host.Within StartsThreads) (config : Config)
    (classPath : Table String ClassFile) (wallClock : Nat) (as : List Action) :
    ∀ t ∈ ((boot config classPath wallClock).after host as).threads, ∀ f ∈ t.frames,
      f.stack.Sound ∧ f.stack.max = f.code.maxStack := by
  intro t ht f hf
  obtain ⟨ws, h⟩ := arises_after hh config classPath wallClock as t ht f hf
  exact h.stack_sound

/-- **A local variable is the value that was last stored there, unless a later store has touched its
    slots.**  That is so in every frame that is entered, with the arguments as the first stores, after any
    further stores; an instruction that succeeds adds the store that it makes, if it makes one, and a store
    or an instruction that fails changes no local variable.  And **every frame that a run comes to is such
    a frame**, so that a wide value has the slot after it, and nothing is in there. -/
theorem recalls_after (hh : host.Within StartsThreads) (config : Config)
    (classPath : Table String ClassFile) (wallClock : Nat) (as : List Action) :
    (∀ ws f, Frame.Written ws f → f.Recalls ws ∧
      (∀ index v m, (∃ e, outcome (FrameM.store index v) (f, m) = (.error e, f, m)) ∨
        outcome (FrameM.store index v) (f, m) = (.ok (), f.put index v, m) ∧
          Frame.Written (ws ++ [(index, v)]) (f.put index v)) ∧
      ∀ id m x f' m', outcome (Frame.execute host id) (f, m) = (x, f', m') →
        (∀ next, x = .ok next → Frame.Written (ws ++ f.sets.toList) f') ∧
          ∀ e, x = .error e → Frame.Written ws f' ∧ f'.locals = f.locals) ∧
    ∀ t ∈ ((boot config classPath wallClock).after host as).threads, ∀ f ∈ t.frames,
      (∃ ws, Frame.Written ws f) ∧
        ∀ i v, f.load i = .ok v → v.isWide = true → f.load (i + 1) = .ok .top := by
  refine ⟨fun ws f h => ⟨h.recalls, h.store, fun id m x f' m' hx => h.executes hx⟩,
    fun t ht f hf => ?_⟩
  have harises := arises_after hh config classPath wallClock as t ht f hf
  refine ⟨harises, fun i v hi hv => ?_⟩
  obtain ⟨ws, h⟩ := harises
  exact Frame.load_eq_ok.2 (h.paired i v (Frame.load_eq_ok.1 hi) hv)

/-- A virtual machine with a main method that stores a long. -/
def ofLong : Vm :=
  .boot {} (.ofList [("A", { ClassFile.ofClass "A" with
    methods := [
      { flags := .ofList [.staticMember], name := "main", descriptor := "()V"
        code := some (.ofList 2 3 [.literal (.long 5), .store .long 1, .leave none]) }] })]) 0

/-- Nothing is in the second slot of the long that has been stored. -/
theorem recalls_after_long :
    ∃ t ∈ (ofLong.after .idle (.spawn "A" "main" "()V" [] :: List.replicate 3 .turn)).threads,
      ∃ f ∈ t.frames, f.load 1 = .ok (.long 5) ∧ f.load 2 = .ok .top := by
  generalize hvm : ofLong.after .idle (.spawn "A" "main" "()V" [] :: List.replicate 3 .turn) = vm
  have h : vm.threads[0]?.any fun t => t.frames.head?.any fun f =>
      (f.load 1).toOption.any (· = .long 5) := by
    rw [← hvm]
    decide +kernel
  obtain ⟨t, ht, h⟩ := (Option.any_eq_true _ _).1 h
  obtain ⟨f, hf, h⟩ := (Option.any_eq_true _ _).1 h
  obtain ⟨v, hload, hv⟩ := except_any_toOption.1 h
  obtain rfl := of_decide_eq_true hv
  have hmem := Array.mem_of_getElem? ht
  have hframe := List.mem_of_mem_head? hf
  refine ⟨t, hmem, f, hframe, hload, ?_⟩
  rw [← hvm] at hmem
  exact ((recalls_after Host.idle_within _ _ _ _).2 t hmem f hframe).2 1 _ hload rfl

end Vm

end GreenVm
