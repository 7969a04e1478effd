/-
  The frames of a thread, how they change, and how deep they lie.

  * `FrameMove limit`: one change of the frames of a thread and of its depth: the top frame works, a
    frame is pushed in one of three ways, or the top frame is left.
  * `Thread.Attempts.moves`, `Thread.step_moves`: a unit of work, and a step, is made of such
    changes.
  * `StartsAfresh`: work that keeps the configuration, and starts threads without frames only.
  * `Vm.moves_after`: so the frames of every thread of a run come from no frames at all.
  * `Shallow limit`: the depth is the number of frames, and at most the limit plus the class
    initializers among them.
  * `Thread.TopsOut`: at the limit, a call pushes no frame but throws, and the lock that it took is
    released.
  * `Vm.shallow_after`: both of all threads, over every run.
-/
import Mathlib.Logic.Relation
import GreenVm.Proofs.Arising
import GreenVm.Proofs.Nesting

namespace GreenVm

open Relation (ReflTransGen)

/-! ## Changes of frames -/

/-- The frames of a thread and its depth. -/
def Thread.chain (t : Thread) : List Frame × Nat := (t.frames, t.depth)

/-- One change of the frames of a thread, where calls may not be deeper than a limit. -/
inductive FrameMove (limit : Nat) : List Frame × Nat → List Frame × Nat → Prop
  | works {f f' : Frame} {rest : List Frame} {d : Nat} (hk : f.Keeps f')
      (hs : f.stack.Evolves f'.stack) : FrameMove limit (f :: rest, d) (f' :: rest, d)
  | begins {r : MethodRef} {args : List Value} {g : Frame} {d : Nat}
      (hg : Frame.enter r args .method = .ok g) : FrameMove limit ([], d) ([g], d + 1)
  | calls {r : MethodRef} {args : List Value} {g : Frame} {monitors : List Ref} {fs : List Frame}
      {d : Nat} (hg : Frame.enter r args .method = .ok g) (hd : d < limit) :
    FrameMove limit (fs, d) ({ g with monitors } :: fs, d + 1)
  | initializes {r : MethodRef} {g : Frame} {fs : List Frame} {d : Nat}
      (hg : Frame.enter r [] .classInit = .ok g) : FrameMove limit (fs, d) (g :: fs, d + 1)
  | leaves {f : Frame} {rest : List Frame} {d : Nat} : FrameMove limit (f :: rest, d) (rest, d - 1)

/-- Some changes of the frames of a thread, one after another. -/
def FrameMoves (limit : Nat) : List Frame × Nat → List Frame × Nat → Prop :=
  ReflTransGen (FrameMove limit)

/-- Whatever an instruction sets, the operand stack of its frame has the same bound, and is sound if
    it was. -/
theorem Frame.Sets.evolves {f : Frame} {w : Option (Nat × Value)}
    {x : Except Fault Next × Frame × Machine} (h : f.Sets w x) : f.stack.Evolves x.2.1.stack := by
  cases h with
  | failed ho => exact ho.stack
  | none _ ho => exact ho.stack
  | one _ ho _ => exact ho.stack

theorem Frame.execute_evolves {host : Host} {id : ThreadId} {f f' : Frame} {m m' : Machine}
    {x : Except Fault Next} (hx : outcome (Frame.execute host id) (f, m) = (x, f', m')) :
    f.stack.Evolves f'.stack := by
  have hevolves := (Frame.execute_sets host id f m).evolves
  rwa [hx] at hevolves

theorem callFailure?_eq_none {r : MethodRef} {depth limit : Nat}
    (h : ThreadM.callFailure? r depth limit = none) : depth < limit := by
  unfold ThreadM.callFailure? at h
  split at h
  · cases h
  · split at h
    · cases h
    · next hlt => exact Nat.lt_of_not_le hlt

namespace FrameMoves

variable {limit d : Nat} {c c' c'' : List Frame × Nat} {f f' : Frame} {rest fs : List Frame}
  {stack : OperandStack} {pc : Nat}

theorem refl (c : List Frame × Nat) : FrameMoves limit c c := ReflTransGen.refl

theorem trans (h : FrameMoves limit c c') (h' : FrameMoves limit c' c'') : FrameMoves limit c c'' :=
  ReflTransGen.trans h h'

theorem works (hk : f.Keeps f') (hs : f.stack.Evolves f'.stack) :
    FrameMoves limit (f :: rest, d) (f' :: rest, d) := .single (.works hk hs)

/-- Work on the operand stack. -/
theorem of_stack (hs : f.stack.Evolves stack) :
    FrameMoves limit (f :: rest, d) ({ f with stack, pc } :: rest, d) := works ⟨rfl, rfl, rfl⟩ hs

/-- Leaving all frames. -/
theorem leavesAll : ∀ (fs : List Frame) (d : Nat), FrameMoves limit (fs, d) ([], d - fs.length)
  | [], _ => .refl _
  | f :: fs, d => by
    have hd : d - 1 - fs.length = d - (f :: fs).length := by
      rw [List.length_cons]
      omega
    exact hd ▸ ReflTransGen.head .leaves (leavesAll fs (d - 1))

end FrameMoves

/-! ## Steps -/

namespace Thread

variable {t u : Thread} {m m' : Machine} {host : Host} {f : Frame} {rest : List Frame}
  {r : MethodRef} {x : Except Fault Unit × Thread × Machine} {limit : Nat}

theorem chain_eq (hf : t.frames = f :: rest) : t.chain = (f :: rest, t.depth) := by
  rw [chain, hf]

theorem chain_withTop (hf : t.frames = f :: rest) (g : Frame) :
    (t.withTop g).chain = (g :: rest, t.depth) := by
  rw [chain, withTop, hf]
  rfl

theorem Calls.moves {lock : Option Ref} (hf : t.frames = f :: rest)
    (hl : m.config.maxCallDepth = limit) (hc : t.Calls host f m r lock x) :
    FrameMoves limit t.chain x.2.1.chain := by
  have popped {n : Nat} {args : List Value} {stack : OperandStack}
      (ha : f.stack.popArgs n = .ok (args, stack)) :
      FrameMoves limit t.chain (t.withTop { f with stack }).chain := by
    rw [chain_eq hf, chain_withTop hf]
    exact .of_stack (OperandStack.popArgs_evolves ha)
  cases hc with
  | starved => exact .refl _
  | entered ha _ hd he =>
    subst hl
    exact (popped ha).tail (.calls he (callFailure?_eq_none hd))
  | returned ha _ _ _ hv =>
    rw [chain_eq hf, chain_withTop hf]
    exact .of_stack ((OperandStack.popArgs_evolves ha).trans (OperandStack.pushResult_evolves hv))
  | refused ha => exact popped ha
  | unentered ha => exact popped ha
  | unsplit ha => exact popped ha
  | failed ha => exact popped ha
  | overflowed ha => exact popped ha

theorem BeginsInitializer.moves (hb : t.BeginsInitializer m r x) :
    FrameMoves limit t.chain x.2.1.chain := by
  cases hb with
  | pushed he => exact .single (.initializes he)
  | unentered => exact .refl _

theorem Returns.moves {value : Option Value} (hf : t.frames = f :: rest)
    (hr : t.Returns f m value rest x) : FrameMoves limit t.chain x.2.1.chain := by
  have left : FrameMoves limit t.chain (t.left rest).chain := by
    rw [chain_eq hf]
    exact .single .leaves
  cases hr with
  | initialized => exact left
  | overflowed => exact left
  | returned _ hv => exact left.trans (.of_stack (OperandStack.pushResult_evolves hv))
  | started => exact left
  | ended => exact left

theorem Starts.moves (hf : t.frames = []) (hs : t.Starts host m r x) :
    FrameMoves limit t.chain x.2.1.chain := by
  cases hs with
  | initializes _ _ hb => exact hb.moves
  | entered _ _ _ hg =>
    simp only [chain, pushed, hf]
    exact .single (.begins hg)
  | _ => exact .refl _

theorem Unwinds.moves {o : Ref} {fs : List Frame} (hu : t.Unwinds m o fs x) (hf : t.frames = fs) :
    FrameMoves limit t.chain x.2.1.chain := by
  have left {t : Thread} {f : Frame} {rest : List Frame} (hf : t.frames = f :: rest) :
      FrameMoves limit t.chain (t.left rest).chain := by
    rw [chain_eq hf]
    exact .single .leaves
  induction hu with
  | unhandled => exact .refl _
  | lost => exact .refl _
  | overflowed => exact .refl _
  | unmade => exact left hf
  | @caught t m m₁ r f rest handler stack _ hs =>
    rw [chain_eq hf, chain_withTop hf]
    exact .of_stack ((f.stack.clear_evolves).trans (OperandStack.push_evolves hs))
  | passes _ _ _ ih => exact (left hf).trans (ih rfl)
  | fails _ _ _ _ ih => exact (left hf).trans (ih rfl)

theorem moves_aborted (t : Thread) (e : EngineError) :
    FrameMoves limit t.chain (t.aborted e).chain := .leavesAll t.frames t.depth

end Thread

/-! ## Work that starts threads afresh -/

/-- The configuration stays, and only threads without frames are to be started. -/
structure StartsAfresh (m m' : Machine) : Prop where
  config_eq : m'.config = m.config
  spawned : ∃ ts, m'.requests.spawned = m.requests.spawned ++ ts ∧ ∀ t ∈ ts, t.chain = ([], 0)

namespace StartsAfresh

variable {m m' m'' : Machine}

theorem of_same (hc : m'.config = m.config) (h : m'.requests.spawned = m.requests.spawned) :
    StartsAfresh m m' := ⟨hc, [], by simp [h], by simp⟩

theorem trans (h : StartsAfresh m m') (h' : StartsAfresh m' m'') : StartsAfresh m m'' := by
  obtain ⟨hc, ts, e, hn⟩ := h
  obtain ⟨hc', ts', e', hn'⟩ := h'
  refine ⟨hc'.trans hc, ts ++ ts', by rw [e', e, List.append_assoc], fun t ht => ?_⟩
  exact (List.mem_append.1 ht).elim (hn t) (hn' t)

instance : Std.Refl StartsAfresh := ⟨fun _ => .of_same rfl rfl⟩

instance : IsTrans Machine StartsAfresh := ⟨fun _ _ _ => trans⟩

instance : Quiet StartsAfresh where
  load _ _ := .of_same rfl rfl
  setStatics _ _ _ := .of_same rfl rfl
  create _ _ _ _ := .of_same rfl rfl
  update _ _ _ _ _ := .of_same rfl rfl
  intern _ _ _ _ _ _ _ _ := .of_same rfl rfl
  classObject _ _ _ _ _ _ _ _ := .of_same rfl rfl
  print _ _ _ := .of_same rfl rfl

instance : StoresBytes StartsAfresh where
  storeByte _ _ _ _ _ _ _ := .of_same rfl rfl

instance : Initializes StartsAfresh where
  setInit _ _ _ := .of_same rfl rfl

instance : Lively StartsAfresh where
  change _ _ _ _ := .of_same rfl rfl
  request _ _ h := .of_same rfl h
  bind _ _ _ := .of_same rfl rfl
  start _ _ _ _ id name args _ _ := ⟨rfl, [.starting id name _ args], rfl, by
    simp [Thread.chain, Thread.starting]⟩

end StartsAfresh

/-- Instructions do so. -/
theorem Frame.execute_startsAfresh {host : Host} (hh : host.Within StartsAfresh) {id : ThreadId}
    {f f' : Frame} {m m' : Machine} {x : Except Fault Next}
    (hx : outcome (Frame.execute host id) (f, m) = (x, f', m')) : StartsAfresh m m' := by
  have within : StartsAfresh m (outcome (Frame.execute host id) (f, m)).2.2 :=
    Frame.execute_within (.of_lively hh id) (fun _ => inferInstance) m
  rwa [hx] at within

theorem Thread.Locks.startsAfresh {t : Thread} {f : Frame} {m : Machine} {r : MethodRef}
    {x : Except Fault Locking × Thread × Machine} (hl : t.Locks f m r x) :
    StartsAfresh m x.2.2 := by
  cases hl with
  | unneeded => exact refl_of StartsAfresh m
  | lockless _ hl => exact MethodRef.lock_within.of_eq hl
  | dangling _ hl => exact MethodRef.lock_within.of_eq hl
  | busy _ hl he =>
    exact trans_of StartsAfresh (MethodRef.lock_within.of_eq hl) (Exec.tryEnter_within.of_eq he)
  | held _ hl he =>
    exact trans_of StartsAfresh (MethodRef.lock_within.of_eq hl) (Exec.tryEnter_within.of_eq he)

namespace Thread

variable {t u : Thread} {m m' : Machine} {host : Host} {f : Frame} {rest : List Frame}
  {r : MethodRef} {x : Except Fault Unit × Thread × Machine} {limit : Nat}

theorem Invokes.moves (hf : t.frames = f :: rest) (hl : m.config.maxCallDepth = limit)
    (hi : t.Invokes host f m r x) : FrameMoves limit t.chain x.2.1.chain := by
  cases hi with
  | unlocked => exact .refl _
  | busy => exact .refl _
  | unguarded _ hc => exact hc.moves hf hl
  | guarded hlock hc =>
    refine hc.moves hf ?_
    rw [← hl]
    exact congrArg Config.maxCallDepth hlock.startsAfresh.config_eq

theorem Executes.moves (hh : host.Within StartsAfresh) (hf : t.frames = f :: rest)
    (hl : m.config.maxCallDepth = limit) (hx : t.Executes host f m rest x) :
    FrameMoves limit t.chain x.2.1.chain := by
  have executed {f' : Frame} {m₁ : Machine} {y : Except Fault Next}
      (hx : outcome (Frame.execute host t.id) (f, m) = (y, f', m₁)) :
      FrameMoves limit t.chain (f' :: rest, t.depth) := by
    rw [chain_eq hf]
    exact .works (Frame.execute_keeps hx) (Frame.execute_evolves hx)
  have moved {f' : Frame} {m₁ : Machine} {y : Except Fault Next}
      (hx : outcome (Frame.execute host t.id) (f, m) = (y, f', m₁)) (next : Next) :
      FrameMoves limit t.chain (f'.moved next :: rest, t.depth) :=
    (executed hx).trans (.works (f'.moved_moves next).keeps (Frame.Operates.moved f' next).stack)
  cases hx with
  | failed hx => exact executed hx
  | advances hx => exact moved hx _
  | jumps hx => exact moved hx _
  | blocks hx => exact executed hx
  | awaits hx => exact executed hx
  | initializes hx hb => exact (executed hx).trans hb.moves
  | invokes hx hi =>
    refine (executed hx).trans (hi.moves rfl ?_)
    rw [← hl]
    exact congrArg Config.maxCallDepth (Frame.execute_startsAfresh hh hx).config_eq
  | returns hx hr => exact (executed hx).trans (hr.moves rfl)

/-- A unit of work changes the frames by some moves. -/
theorem Attempts.moves (hh : host.Within StartsAfresh) (hl : m.config.maxCallDepth = limit)
    (ha : t.Attempts host m x) : FrameMoves limit t.chain x.2.1.chain := by
  cases ha with
  | reacquires => exact .refl _
  | blocksAgain => exact .refl _
  | dangling => exact .refl _
  | starts _ hf hs => exact hs.moves hf
  | executes _ hf hx => exact hx.moves hh hf hl

/-- So does a step. -/
theorem step_moves (hh : host.Within StartsAfresh) (hl : m.config.maxCallDepth = limit)
    (t : Thread) :
    FrameMoves limit t.chain ((t.step host).run m).1.chain := by
  by_cases hs : t.status = .runnable
  · have hsteps := step_steps host hs m
    generalize (t.step host).run m = s at hsteps
    cases hsteps with
    | works ha => exact ha.moves hh hl
    | throws ha _ hu => exact (ha.moves hh hl).trans (hu.moves rfl)
    | aborts ha => exact (ha.moves hh hl).trans (moves_aborted _ _)
    | unmade ha => exact (ha.moves hh hl).trans (moves_aborted _ _)
    | stuck ha _ hu => exact ((ha.moves hh hl).trans (hu.moves rfl)).trans (moves_aborted _ _)
  · rw [step_of_not_runnable hs]
    exact .refl _

theorem step_startsAfresh (hh : host.Within StartsAfresh) (t : Thread) (m : Machine) :
    StartsAfresh m ((t.step host).run m).2 :=
  (Thread.step_within (.of_lively hh t.id)).2

theorem Eases.chain_eq (h : t.Eases u) : u.chain = t.chain := by
  induction h with
  | same => rfl
  | resumed _ _ ih => exact ih
  | notified _ ih =>
    rw [← ih]
    unfold Thread.notified
    split <;> rfl

theorem suspended_chain (t : Thread) (b : Blocker) : (t.suspended b).chain = t.chain := by
  unfold suspended
  split <;> rfl

end Thread

/-! ## Runs -/

namespace Vm

/-- The frames of all threads come from no frames at all, under the limit of a configuration, which
    is that of the machine; and threads that are to be started have none. -/
structure Reached (config : Config) (vm : Vm) : Prop where
  config_eq : vm.machine.config = config
  threads : ∀ t ∈ vm.threads, FrameMoves config.maxCallDepth ([], 0) t.chain
  spawned : ∀ t ∈ vm.machine.requests.spawned, t.chain = ([], 0)

variable {vm vm' : Vm} {host : Host} {config : Config}

namespace Reached

theorem boot (config : Config) (classPath : Table String ClassFile) (wallClock : Nat) :
    Reached config (.boot config classPath wallClock) where
  config_eq := rfl
  threads _ ht := by simp [Vm.boot] at ht
  spawned _ ht := by cases ht

theorem eased (h : Reached config vm) (he : Eased vm.threads vm'.threads)
    (hs : StartsAfresh vm.machine vm'.machine) : Reached config vm' where
  config_eq := hs.config_eq.trans h.config_eq
  threads u hu := by
    obtain ⟨j, hj⟩ := Array.getElem?_of_mem hu
    obtain ⟨t, ht, htu⟩ := he.get? hj
    rw [htu.chain_eq]
    exact h.threads t (Array.mem_of_getElem? ht)
  spawned t ht := by
    obtain ⟨-, ts, e, hn⟩ := hs
    rw [e] at ht
    exact (List.mem_append.1 ht).elim (h.spawned t) (hn t)

theorem choose (h : Reached config vm) : Reached config vm.choose.2 := by
  have hc := choose_eased (R := StartsAfresh) (fun _ _ _ => .of_same rfl rfl) vm
  exact h.eased hc.1 hc.2

theorem runThread (h : Reached config vm) (hh : host.Within StartsAfresh) {i : Nat} {t : Thread}
    (ht : vm.threads[i]? = some t) : Reached config (vm.runThread host i) := by
  have hm := (runThread_spec host ht).1
  obtain ⟨hconfig, new, hnew, hnews⟩ := Thread.step_startsAfresh hh t vm.machine
  have hstep := (h.threads t (Array.mem_of_getElem? ht)).trans
    (Thread.step_moves hh (congrArg Config.maxCallDepth h.config_eq) t)
  refine ⟨?_, fun u hu => ?_, fun u hu => ?_⟩
  · rw [hm]
    exact hconfig.trans h.config_eq
  · obtain ⟨j, hj⟩ := Array.getElem?_of_mem hu
    rcases runThread_get? host ht hj with ⟨-, v, hv, hvu⟩ | ⟨-, v, hv, e⟩ | hu
    · rw [hvu.chain_eq]
      exact h.threads v (Array.mem_of_getElem? hv)
    · rw [← hv.chain_eq] at hstep
      rcases e with rfl | ⟨s, b, -, -, rfl⟩
      · exact hstep
      · rwa [Thread.suspended_chain]
    · -- a thread that the step has started
      rw [hnew] at hu
      rw [(List.mem_append.1 hu).elim (h.spawned u) (hnews u)]
      exact .refl _
  · rw [hm] at hu
    cases hu

theorem act (h : Reached config vm) (hh : host.Within StartsAfresh) (a : Action) :
    Reached config (vm.act host a) := by
  by_cases ha : a = .turn
  · subst ha
    show Reached config (vm.turn host).2
    rcases turn_cases host vm with ⟨-, e | e⟩ | ⟨i, t, -, ht, -, e⟩ <;> rw [e]
    · exact h
    · exact h.choose
    · exact h.choose.runThread hh ht
  · obtain ⟨machine, new, e, hnew⟩ := act_appends host vm ha
    have hs : StartsAfresh vm.machine (vm.act host a).machine :=
      act_within Exec.issueThreadId_within Exec.newThreadObject_within
        (fun _ _ _ _ _ => .of_same rfl rfl) ha
    rw [e] at hs ⊢
    have hmachine : Reached config { vm with machine } := h.eased (.refl _) hs
    refine ⟨hmachine.config_eq, fun u hu => ?_, hmachine.spawned⟩
    rcases Array.mem_append.1 hu with hu | hu
    · exact h.threads u hu
    · obtain ⟨id, name, r, args, rfl, -⟩ := hnew u hu
      exact .refl _

theorem after (h : Reached config vm) (hh : host.Within StartsAfresh) (as : List Action) :
    Reached config (vm.after host as) := by
  induction as generalizing vm with
  | nil => exact h
  | cons a as ih => exact ih (h.act hh a)

end Reached

/-- The frames of every thread, in every state that a run comes to, come from no frames at all. -/
theorem moves_after (hh : host.Within StartsAfresh) (config : Config)
    (classPath : Table String ClassFile) (wallClock : Nat) (as : List Action) :
    ∀ t ∈ ((boot config classPath wallClock).after host as).threads,
      FrameMoves config.maxCallDepth ([], 0) t.chain :=
  ((Reached.boot config classPath wallClock).after hh as).threads

end Vm

/-! ## Depth -/

/-- The number of frames that run class initializers. -/
def initializers (fs : List Frame) : Nat := fs.countP (·.kind = .classInit)

/-- The depth is the number of frames, and at most a limit, but at least one, and the number of
    class initializers above that. -/
structure Shallow (limit : Nat) (c : List Frame × Nat) : Prop where
  counted : c.2 = c.1.length
  bounded : c.2 ≤ max 1 limit + initializers c.1

/-- A frame that is entered is of the kind that was asked for, and runs the code of its method. -/
theorem Frame.enter_fields {r : MethodRef} {args : List Value} {kind : FrameKind} {g : Frame}
    (h : Frame.enter r args kind = .ok g) : g.kind = kind ∧ g.method = r := by
  unfold Frame.enter at h
  split at h
  · cases h
  · obtain ⟨locals, -, h⟩ := except_bind_eq_ok.1 h
    cases h
    exact ⟨rfl, rfl⟩

namespace Shallow

variable {limit : Nat} {c c' : List Frame × Nat} {t : Thread}

theorem nil (limit : Nat) : Shallow limit ([], 0) := ⟨rfl, Nat.zero_le _⟩

/-- A change of the frames keeps the depth within its bound. -/
theorem move (h : Shallow limit c) (hm : FrameMove limit c c') : Shallow limit c' := by
  obtain ⟨hcounted, hbounded⟩ := h
  cases hm with
  | works hk =>
    exact ⟨hcounted, by simpa [initializers, List.countP_cons, hk.kind_eq] using hbounded⟩
  | begins hg =>
    simp only [List.length_nil] at hcounted
    exact ⟨by simp [hcounted], by simp only [hcounted]; omega⟩
  | calls hg hd =>
    have hkind := (Frame.enter_fields hg).1
    refine ⟨by simpa using hcounted, ?_⟩
    simp only [initializers, List.countP_cons, hkind] at hbounded ⊢
    omega
  | initializes hg =>
    have hkind := (Frame.enter_fields hg).1
    refine ⟨by simpa using hcounted, ?_⟩
    simp only [initializers, List.countP_cons, hkind] at hbounded ⊢
    simp
    omega
  | @leaves f rest d =>
    simp only [List.length_cons] at hcounted
    refine ⟨by simp only [hcounted, Nat.add_sub_cancel], ?_⟩
    have : initializers (f :: rest) ≤ initializers rest + 1 := by
      simp only [initializers, List.countP_cons]
      split <;> omega
    simp only at hbounded ⊢
    omega

theorem moves (h : Shallow limit c) (hm : FrameMoves limit c c') : Shallow limit c' := by
  induction hm with
  | refl => exact h
  | tail _ hm ih => exact ih.move hm

end Shallow

/-! ## Calls at the limit -/

namespace Thread

/-- A thread comes to the call of a method in its next unit of work: this has made the frame `f` of
    the top frame, and the machine `m₁`, and the call is still to be made. -/
structure ComesToCall (host : Host) (t : Thread) (m : Machine) (r : MethodRef) (f : Frame)
    (rest : List Frame) (m₁ : Machine) : Prop where
  reacquire : t.reacquire = none
  executes : ∃ f₀, t.frames = f₀ :: rest ∧
    outcome (Frame.execute host t.id) (f₀, m) = (.ok (.invoke r), f, m₁)

/-- A thread has what it must lock for a call: nothing, or a lock that it gets. -/
inductive Secures (t : Thread) (f : Frame) (m : Machine) (r : MethodRef) :
    Option Ref → Machine → Prop
  | unneeded (hs : r.method.isSynchronized = false) : Secures t f m r none m
  | taken {l : Ref} {m₁ m₂ : Machine} (hs : r.method.isSynchronized = true)
      (hl : outcome (r.lock f) m = (.ok l, m₁))
      (he : outcome (Exec.tryEnter l t.id 1) m₁ = (.ok true, m₂)) : Secures t f m r (some l) m₂

/-- At the limit a call pushes no frame.  If the method has bytecode and no native, the arguments
    are on the stack and the thread has what it must lock, the call throws a stack overflow error
    instead.  It does so in the frame that calls, from which on a handler is looked for, and the
    thread holds the locks that it held before the call. -/
structure TopsOut (host : Host) (t : Thread) (m : Machine) : Prop where
  pushes_none : ∀ r f rest m₁, t.ComesToCall host m r f rest m₁ →
    (outcome (ThreadM.tryStep host) (t, m)).2.1.frames.length = t.frames.length
  throws : ∀ r f rest m₁, t.ComesToCall host m r f rest m₁ → r.method.code.isSome = true →
    ∀ lock m₂, t.Secures f m₁ r lock m₂ →
      m₂.natives.lookup? r.owner.name r.method.name r.method.descriptor = none →
      ∀ args stack, f.stack.popArgs r.method.argumentCount = .ok (args, stack) →
        ∃ u m', u = { t with frames := { f with stack } :: rest } ∧
          outcome (ThreadM.tryStep host) (t, m) =
            (.error (.raiseBare ClassName.stackOverflow), u, m') ∧
          (∀ id o, m'.holds id o = m₁.holds id o) ∧
          (t.status = .runnable →
            u.Recovers m' (.raiseBare ClassName.stackOverflow) ((t.step host).run m))

variable {t u : Thread} {m m' m₁ m₂ : Machine} {host : Host} {f : Frame} {rest : List Frame}
  {r : MethodRef} {x : Except Fault Unit × Thread × Machine} {lock : Option Ref} {limit : Nat}

/-- A thread that has what it must lock goes on to the call. -/
theorem Invokes.calls (hi : t.Invokes host f m r x) (hs : t.Secures f m r lock m₂) :
    t.Calls host f m₂ r lock x := by
  cases hs with
  | unneeded hs => exact hi.unguarded_of hs
  | taken hs hl he => exact hi.guarded_of hs hl he

/-- At the limit a call with arguments throws and releases its lock. -/
theorem Calls.overflows {args : List Value} {stack : OperandStack} (hc : t.Calls host f m r lock x)
    (hd : m.config.maxCallDepth ≤ t.depth) (hcode : r.method.code.isSome = true)
    (hn : m.natives.lookup? r.owner.name r.method.name r.method.descriptor = none)
    (ha : f.stack.popArgs r.method.argumentCount = .ok (args, stack)) :
    x = (.error .callStackOverflow, t.withTop { f with stack }, m.released t.id lock.toList) := by
  have hfail : ThreadM.callFailure? r t.depth m.config.maxCallDepth = some .callStackOverflow := by
    obtain ⟨code, hcode⟩ := Option.isSome_iff_exists.1 hcode
    rw [ThreadM.callFailure?, if_neg (by simp [hcode]), if_pos hd]
  cases hc with
  | starved ha' => cases ha.symm.trans ha'
  | refused ha' _ hf =>
    cases ha.symm.trans ha'
    cases hfail.symm.trans hf
    rfl
  | unentered _ _ hf => cases hfail.symm.trans hf
  | entered _ _ hf => cases hfail.symm.trans hf
  | unsplit _ hn' => cases hn.symm.trans hn'
  | failed _ hn' => cases hn.symm.trans hn'
  | overflowed _ hn' => cases hn.symm.trans hn'
  | returned _ hn' => cases hn.symm.trans hn'

/-- At the limit no call pushes a frame. -/
theorem Calls.length_eq (hc : t.Calls host f m r lock x) (hf : t.frames = f :: rest)
    (hd : m.config.maxCallDepth ≤ t.depth) : x.2.1.frames.length = t.frames.length := by
  cases hc with
  | entered _ _ he => exact absurd (callFailure?_eq_none he) (Nat.not_lt.2 hd)
  | _ => simp [withTop, hf]

theorem Invokes.length_eq (hi : t.Invokes host f m r x) (hf : t.frames = f :: rest)
    (hd : m.config.maxCallDepth ≤ t.depth) : x.2.1.frames.length = t.frames.length := by
  cases hi with
  | unlocked => rfl
  | busy => rfl
  | unguarded _ hc => exact hc.length_eq hf hd
  | guarded hl hc => exact hc.length_eq hf (by rwa [hl.startsAfresh.config_eq])

/-- Releasing what has been locked for a call leaves all holds as they were. -/
theorem Secures.released_holds (hs : t.Secures f m r lock m₂) (id : ThreadId) (o : Ref) :
    (m₂.released t.id lock.toList).holds id o = m.holds id o := by
  cases hs with
  | unneeded => rfl
  | @taken l m₁ _ _ hl he =>
    obtain ⟨m', hrelease, -, hholds, -⟩ := Exec.release_spec l t.id m₂
    have hlock : LeavesLocks m m₁ := MethodRef.lock_within.of_eq hl
    show (outcome (Exec.release t.id l) m₂).2.holds id o = _
    rw [hrelease, hholds, Exec.tryEnter_holds he, hlock.holds_eq]
    simp

theorem Secures.config_eq (hs : t.Secures f m r lock m₂) : m₂.config = m.config := by
  cases hs with
  | unneeded => rfl
  | taken hs hl he => exact (Locks.held hs hl he).startsAfresh.config_eq

theorem ComesToCall.outcome_eq (h : t.ComesToCall host m r f rest m₁) :
    outcome (ThreadM.tryStep host) (t, m) =
      outcome (ThreadM.invoke host r) ({ t with frames := f :: rest }, m₁) := by
  obtain ⟨hr, f₀, hf, hx⟩ := h
  exact ThreadM.outcome_tryStep_invoke hr hf (ThreadM.outcome_instruction hf hx)

/-- **At the limit calls throw.** -/
theorem topsOut (hh : host.Within StartsAfresh) (hd : m.config.maxCallDepth ≤ t.depth) :
    t.TopsOut host m := by
  have config {r : MethodRef} {f : Frame} {rest : List Frame} {m₁ : Machine}
      (h : t.ComesToCall host m r f rest m₁) : m₁.config = m.config := by
    obtain ⟨-, f₀, -, hx⟩ := h
    exact (Frame.execute_startsAfresh hh hx).config_eq
  refine ⟨fun r f rest m₁ h => ?_, fun r f rest m₁ h hcode lock m₂ hs hn args stack ha => ?_⟩
  · have hi : { t with frames := f :: rest }.Invokes host f m₁ r _ :=
      ThreadM.invoke_invokes r rfl m₁
    rw [h.outcome_eq, hi.length_eq rfl (by rwa [config h])]
    obtain ⟨-, f₀, hf, -⟩ := h
    rw [hf]
    rfl
  · have hi : { t with frames := f :: rest }.Invokes host f m₁ r _ :=
      ThreadM.invoke_invokes r rfl m₁
    have hsecures : { t with frames := f :: rest }.Secures f m₁ r lock m₂ := by
      cases hs with
      | unneeded hs => exact .unneeded hs
      | taken hs hl he => exact .taken hs hl he
    have hx := (hi.calls hsecures).overflows (by rwa [hsecures.config_eq, config h]) hcode hn ha
    rw [← h.outcome_eq] at hx
    exact ⟨_, _, rfl, hx, hs.released_holds, fun hrun => step_of_error hrun hx⟩

end Thread

/-- **Depth of calls.**  In every state that a run comes to, the depth of every thread is the number
    of its frames, and at most the limit of the configuration, or one, and as many more as there are
    class initializers among them.  A call at the limit pushes no frame and throws a stack overflow
    error. -/
theorem Vm.shallow_after {host : Host} (hh : host.Within StartsAfresh) (config : Config)
    (classPath : Table String ClassFile) (wallClock : Nat) (as : List Action) :
    ∀ t ∈ ((boot config classPath wallClock).after host as).threads,
      t.depth = t.frames.length ∧
      t.depth ≤ max 1 config.maxCallDepth + t.frames.countP (·.kind = .classInit) ∧
      ∀ m, m.config = config → config.maxCallDepth ≤ t.depth → t.TopsOut host m := by
  intro t ht
  obtain ⟨hcounted, hbounded⟩ :=
    (Shallow.nil config.maxCallDepth).moves (moves_after hh config classPath wallClock as t ht)
  refine ⟨hcounted, hbounded, fun m hm hd => Thread.topsOut hh ?_⟩
  rwa [hm]

/-- A virtual machine with room for one call, and a main method that makes another. -/
def Vm.ofShallow : Vm :=
  .boot { maxCallDepth := 1 } (.ofList [("A", callerOf "()V" [])]) 0

/-- The main method is as deep as it may be, and its call of a synchronized method throws. -/
theorem Vm.shallow_after_call :
    let vm := ofShallow.after .idle [.spawn "A" "main" "()V" [], .turn]
    ∃ t ∈ vm.threads, t.depth = 1 ∧ t.frames.length = 1 ∧ ∃ u m',
      outcome (ThreadM.tryStep .idle) (t, vm.machine) =
        (.error (.raiseBare ClassName.stackOverflow), u, m') ∧ u.frames.length = 1 := by
  generalize hvm : ofShallow.after .idle [.spawn "A" "main" "()V" [], .turn] = vm
  dsimp only
  have h : vm.threads[0]?.any fun t => t.reacquire.isNone ∧ t.frames.head?.any fun f =>
      let x := outcome (Frame.execute .idle t.id) (f, vm.machine)
      (x.1.toOption.bind Next.method?).any fun r =>
        let l := outcome (r.lock x.2.1) x.2.2
        l.1.toOption.any fun lock =>
          let e := outcome (Exec.tryEnter lock t.id 1) l.2
          (x.2.1.stack.popArgs r.method.argumentCount).toOption.any fun _ =>
            e.1.toOption.any fun entered => decide (entered = true ∧ t.depth = 1 ∧
              r.method.code.isSome = true ∧ r.method.isSynchronized = true ∧
              (e.2.natives.lookup? r.owner.name r.method.name r.method.descriptor).isNone) := by
    rw [← hvm]
    decide +kernel
  obtain ⟨t, ht, h⟩ := (Option.any_eq_true _ _).1 h
  obtain ⟨hr, h⟩ := of_decide_eq_true h
  obtain ⟨f, hf, h⟩ := (Option.any_eq_true _ _).1 h
  obtain ⟨r, ⟨g, m₁⟩, hx, h⟩ := Next.exists_of_method? h
  rw [hx] at h
  obtain ⟨lock, hlock, h⟩ := except_any_toOption.1 h
  obtain ⟨⟨args, stack⟩, hargs, h⟩ := except_any_toOption.1 h
  obtain ⟨entered, henter, h⟩ := except_any_toOption.1 h
  obtain ⟨rfl, hdepth, hcode, hsync, hnative⟩ := of_decide_eq_true h
  have hmem := Array.mem_of_getElem? ht
  obtain ⟨hcounted, -, htops⟩ :=
    shallow_after Host.idle_within { maxCallDepth := 1 } _ 0 _ t (hvm.symm ▸ hmem)
  have hframes : t.frames = [f] := by
    obtain ⟨rest, hrest⟩ := List.head?_eq_some_iff.1 hf
    rw [hdepth, hrest, List.length_cons] at hcounted
    rw [hrest, List.length_eq_zero_iff.1 (by omega : rest.length = 0)]
  have hcomes : t.ComesToCall .idle vm.machine r g [] m₁ :=
    ⟨Option.isNone_iff_eq_none.1 hr, f, hframes, hx⟩
  have hconfig : vm.machine.config = { maxCallDepth := 1 } :=
    hvm ▸ ((Reached.boot _ _ _).after Host.idle_within _).config_eq
  obtain ⟨u, m', rfl, hthrows, -⟩ := (htops vm.machine hconfig hdepth.ge).throws r g [] m₁ hcomes
    hcode (some lock) _ (.taken hsync (Prod.ext hlock rfl) (Prod.ext henter rfl))
    (Option.isNone_iff_eq_none.1 hnative) args stack hargs
  exact ⟨t, hmem, hdepth, hcounted ▸ hdepth, _, m', hthrows, rfl⟩

end GreenVm
