/-
  The initializations under way over one step of a thread.

  * `initializations id fs`: the classes that the frames `fs` of a thread are to initialize.
  * `Coherent`: in the middle of a step, just these are under way on behalf of the thread.
  * `Thread.step_stepped`: so they are after it, but for a class whose initializer could not be run.
-/
import GreenVm.Proofs.Initialization
import GreenVm.Proofs.Steps

namespace GreenVm

/-! ## Frames and threads -/

/-- The classes that frames are to initialize, each with the thread. -/
def initializations (id : ThreadId) (fs : List Frame) : List (String × ThreadId) :=
  (fs.filter (·.kind = .classInit)).map fun f => (f.owner.name, id)

/-- The classes that a thread refers to are defined. -/
structure Thread.Grounded (t : Thread) (m : Machine) : Prop where
  frames : ∀ f ∈ t.frames, m.Defines f.owner
  entry : ∀ p ∈ t.entry, m.Defines p.1.owner

variable {id : ThreadId} {o lost : List (String × ThreadId)} {t u : Thread}
  {m m' m'' : Machine} {f : Frame} {fs rest : List Frame} {host : Host}

theorem initializations_method (hk : f.kind = .method) :
    initializations id (f :: fs) = initializations id fs := by
  simp [initializations, hk]

theorem initializations_classInit (hk : f.kind = .classInit) :
    initializations id (f :: fs) = (f.owner.name, id) :: initializations id fs := by
  simp [initializations, hk]

/-- Only the methods and kinds of frames matter. -/
theorem initializations_keeps {fs fs' : List Frame} (h : List.Forall₂ Frame.Keeps fs fs') :
    initializations id fs' = initializations id fs := by
  induction h with
  | nil => rfl
  | @cons f f' fs fs' hf _ ih =>
    cases hk : f.kind with
    | method =>
      rw [initializations_method (hf.kind_eq.trans hk), initializations_method hk, ih]
    | classInit =>
      rw [initializations_classInit (hf.kind_eq.trans hk), initializations_classInit hk, ih,
        hf.owner_eq]

theorem Frame.keeps_all (fs : List Frame) : List.Forall₂ Frame.Keeps fs fs :=
  List.forall₂_same.2 fun f _ => .refl f

namespace Thread.Grounded

theorem mono (h : t.Grounded m) (hr : Retains m m') : t.Grounded m' :=
  ⟨fun f hf => hr.defines (h.frames f hf), fun p hp => hr.defines (h.entry p hp)⟩

/-- The same calls, and no other entry. -/
theorem moves (h : t.Grounded m) (hf : List.Forall₂ Frame.Keeps t.frames u.frames)
    (he : ∀ p ∈ u.entry, p ∈ t.entry) : u.Grounded m := by
  refine ⟨fun g hg => ?_, fun p hp => h.entry p (he p hp)⟩
  obtain ⟨f, hf, hk⟩ : ∃ f ∈ t.frames, f.Keeps g := by
    clear he
    generalize t.frames = fs, u.frames = gs at hf hg
    induction hf with
    | nil => cases hg
    | cons hk _ ih =>
      rcases List.mem_cons.1 hg with rfl | hg
      · exact ⟨_, List.mem_cons_self, hk⟩
      · obtain ⟨f, hf, hk⟩ := ih hg
        exact ⟨f, List.mem_cons_of_mem _ hf, hk⟩
  rw [hk.owner_eq]
  exact h.frames f hf

theorem pushed (h : t.Grounded m) (hf : m.Defines f.owner) : (t.pushed f).Grounded m :=
  ⟨List.forall_mem_cons.2 ⟨hf, h.frames⟩, h.entry⟩

theorem left (h : t.Grounded m) (hf : t.frames = f :: rest) : (t.left rest).Grounded m :=
  ⟨fun g hg => h.frames g (hf ▸ List.mem_cons_of_mem _ hg), h.entry⟩

end Thread.Grounded

/-! ## In the middle of a step -/

/-- In a step of a thread that found the machine `m`, the initializations under way are those of its
    frames, those of others `o`, and those that are left `lost`. -/
structure Coherent (id : ThreadId) (o : List (String × ThreadId)) (m : Machine)
    (lost : List (String × ThreadId)) (t : Thread) (m' : Machine) : Prop where
  id_eq : t.id = id
  tracked : Tracked id (fun _ => True) m (lost ++ (initializations id t.frames ++ o)) m'
  grounded : t.Grounded m'

theorem Machine.released_keeps (m : Machine) (id : ThreadId) (rs : List Ref) :
    KeepsInit m (m.released id rs) := by
  induction rs generalizing m with
  | nil => exact refl_of KeepsInit m
  | cons r rs ih =>
    exact trans_of KeepsInit (Exec.release_lively (R := KeepsInit) (r := r) (t := id) m) (ih _)

namespace Coherent

theorem keeps (h : Coherent id o m lost t m') (hk : KeepsInit m' m'') :
    Coherent id o m lost t m'' :=
  ⟨h.id_eq, h.tracked.keeps hk, h.grounded.mono hk.toRetains⟩

theorem released (h : Coherent id o m lost t m') (rs : List Ref) :
    Coherent id o m lost t (m'.released t.id rs) := h.keeps (m'.released_keeps _ rs)

/-- The same calls, and no other entry. -/
theorem moves (h : Coherent id o m lost t m') (hid : u.id = t.id)
    (hf : List.Forall₂ Frame.Keeps t.frames u.frames) (he : ∀ p ∈ u.entry, p ∈ t.entry) :
    Coherent id o m lost u m' := by
  refine ⟨hid.trans h.id_eq, ?_, h.grounded.moves hf he⟩
  rw [initializations_keeps hf]
  exact h.tracked

/-- The top frame is replaced by one of the same call. -/
theorem withTop (h : Coherent id o m lost t m') (hf : t.frames = f :: rest) {f' : Frame}
    (hk : f.Keeps f') : Coherent id o m lost (t.withTop f') m' := by
  refine h.moves rfl ?_ fun p hp => hp
  show List.Forall₂ Frame.Keeps t.frames (f' :: t.frames.tail)
  rw [hf]
  exact .cons hk (Frame.keeps_all _)

theorem pushedMethod (h : Coherent id o m lost t m') (hk : f.kind = .method)
    (hd : m'.Defines f.owner) : Coherent id o m lost (t.pushed f) m' := by
  refine ⟨h.id_eq, ?_, h.grounded.pushed hd⟩
  show Tracked id _ m (lost ++ (initializations id (f :: t.frames) ++ o)) m'
  rw [initializations_method hk]
  exact h.tracked

/-- The initialization that was left over is that of the new frame. -/
theorem pushedInitializer (h : Coherent id o m [(f.owner.name, id)] t m')
    (hk : f.kind = .classInit) (hd : m'.Defines f.owner) :
    Coherent id o m [] (t.pushed f) m' := by
  refine ⟨h.id_eq, ?_, h.grounded.pushed hd⟩
  have := h.tracked
  show Tracked id _ m ([] ++ (initializations id (f :: t.frames) ++ o)) m'
  rw [initializations_classInit hk]
  exact this

theorem leftMethod (h : Coherent id o m lost t m') (hf : t.frames = f :: rest)
    (hk : f.kind = .method) : Coherent id o m lost (t.left rest) m' := by
  refine ⟨h.id_eq, ?_, h.grounded.left hf⟩
  have := h.tracked
  rwa [hf, initializations_method hk] at this

/-- With the frame of an initializer the initialization ends. -/
theorem leftInitializer (h : Coherent id o m lost t m') (hf : t.frames = f :: rest)
    (hk : f.kind = .classInit) {init : InitState} (hi : init = .done ∨ init = .failed) :
    Coherent id o m lost (t.left rest) (m'.withInit f.owner init) := by
  have hd : m'.Defines f.owner := h.grounded.frames f (by simp [hf])
  have htracked := h.tracked
  rw [hf, initializations_classInit hk, List.cons_append] at htracked
  refine ⟨h.id_eq, (htracked.perm List.perm_middle).ends hd hi trivial, ?_⟩
  exact (h.grounded.left hf).mono (Retains.withInit _ _ _)

/-- Leaving the top frame with a result. -/
theorem leftTop (h : Coherent id o m lost t m') (hf : t.frames = f :: rest) :
    Coherent id o m lost (t.left rest) (m'.left t.id f) := by
  have released := h.released f.monitors
  unfold Machine.left
  cases hk : f.kind with
  | method =>
    rw [if_neg (by simp)]
    exact released.leftMethod hf hk
  | classInit =>
    rw [if_pos rfl]
    exact released.leftInitializer hf hk (.inl rfl)

/-- Leaving all frames for good. -/
theorem abandoned : ∀ {fs : List Frame} {t : Thread} {m' : Machine},
    Coherent id o m lost t m' → t.frames = fs →
    Coherent id o m lost { t with frames := [] } (m'.abandoned t.id fs)
  | [], t, m', h, hf => by
    refine h.moves rfl ?_ fun p hp => hp
    rw [hf]
    exact .nil
  | f :: rest, t, m', h, hf => by
    have released := h.released f.monitors
    rw [Machine.abandoned]
    cases hk : f.kind with
    | method =>
      rw [if_neg (by simp)]
      exact (abandoned (released.leftMethod hf hk) rfl).moves rfl .nil fun p hp => hp
    | classInit =>
      rw [if_pos rfl]
      exact (abandoned (released.leftInitializer hf hk (.inr rfl)) rfl).moves rfl .nil
        fun p hp => hp

theorem aborted (h : Coherent id o m lost t m') (e : EngineError) :
    Coherent id o m lost (t.aborted e) (m'.abandoned t.id t.frames) :=
  (h.abandoned rfl).moves rfl .nil nofun

theorem grounded_machine (h : Coherent id o m lost t m') (hg : m.Grounded) : m'.Grounded :=
  h.tracked.retains.grounded hg

end Coherent

/-! ## One unit of work -/

/-- If there is just one frame more than `n`, and it runs an initializer, nobody had begun with its
    class. -/
def Fresh (m : Machine) (n : Nat) (t : Thread) : Prop :=
  ∀ f rest, t.frames = f :: rest → rest.length = n → f.kind = .classInit →
    m.progress f.owner.name = .uninitialized

theorem Fresh.of_le {n : Nat} (h : t.frames.length ≤ n) : Fresh m n t := by
  intro f rest hf hn
  rw [hf, List.length_cons] at h
  omega

theorem Fresh.of_method {n : Nat} (hf : t.frames = f :: rest) (hk : f.kind = .method) :
    Fresh m n t := by
  intro g rest' hg _ hk'
  rw [hf] at hg
  cases hg
  cases hk.symm.trans hk'

/-- What comes of a unit of work, or of a part of it, for a thread with `n` frames. -/
inductive Attempted (id : ThreadId) (o : List (String × ThreadId)) (m : Machine) (n : Nat) :
    Except Fault Unit × Thread × Machine → Prop
  | works {t : Thread} {m' : Machine} (h : Coherent id o m [] t m') (hn : Fresh m n t) :
    Attempted id o m n (.ok (), t, m')
  | fails {e : Fault} {t : Thread} {m' : Machine} (h : Coherent id o m [] t m')
      (hn : t.frames.length ≤ n) : Attempted id o m n (.error e, t, m')
  | leaves {k : Class} {e : EngineError} {t : Thread} {m' : Machine}
      (h : Coherent id o m [(k.name, id)] t m') (hd : m'.Defines k) (hk : m'.Unrunnable k)
      (hn : t.frames.length ≤ n) : Attempted id o m n (.error (.fatal e), t, m')

/-- Work that keeps the thread at the same calls. -/
theorem Attempted.of_keeps {n : Nat} (h : Coherent id o m [] t m') (hn : t.frames.length ≤ n)
    {x : Except Fault Unit} (hid : u.id = t.id)
    (hf : List.Forall₂ Frame.Keeps t.frames u.frames) (he : ∀ p ∈ u.entry, p ∈ t.entry)
    (hk : KeepsInit m' m'') : Attempted id o m n (x, u, m'') := by
  have h' := (h.moves hid hf he).keeps hk
  have hn' : u.frames.length ≤ n := hf.length_eq ▸ hn
  cases x with
  | error e => exact .fails h' hn'
  | ok _ => exact .works h' (.of_le hn')

/-! ### Calls -/

theorem Frame.enter_calls {r : MethodRef} {args : List Value} {kind : FrameKind} {g : Frame}
    (h : Frame.enter r args kind = .ok g) : g.owner = r.owner ∧ g.kind = kind := by
  obtain ⟨hm, hk, -⟩ := Frame.enter_ok h
  exact ⟨congrArg MethodRef.owner hm, hk⟩

theorem Thread.Locks.keeps {r : MethodRef} {x : Except Fault Locking × Thread × Machine}
    (h : t.Locks f m r x) : x.2.1 = t ∧ KeepsInit m x.2.2 := by
  cases h with
  | unneeded => exact ⟨rfl, refl_of KeepsInit m⟩
  | lockless _ hl => exact ⟨rfl, MethodRef.lock_within.of_eq hl⟩
  | dangling _ hl => exact ⟨rfl, MethodRef.lock_within.of_eq hl⟩
  | busy _ hl he =>
    exact ⟨rfl, trans_of KeepsInit (MethodRef.lock_within.of_eq hl) (Exec.tryEnter_within.of_eq he)⟩
  | held _ hl he =>
    exact ⟨rfl, trans_of KeepsInit (MethodRef.lock_within.of_eq hl) (Exec.tryEnter_within.of_eq he)⟩

variable {n : Nat} {r : MethodRef} {x : Except Fault Unit × Thread × Machine}

theorem Thread.Calls.attempted (hh : host.Within KeepsInit) {lock : Option Ref}
    (h : Coherent id o m [] t m') (hf : t.frames = f :: rest) (hn : t.frames.length ≤ n)
    (hd : m'.Defines r.owner) (hc : t.Calls host f m' r lock x) : Attempted id o m n x := by
  have same (f' : Frame) (hk : f.Keeps f') :
      List.Forall₂ Frame.Keeps t.frames (t.withTop f').frames := by
    show List.Forall₂ Frame.Keeps t.frames (f' :: t.frames.tail)
    rw [hf]
    exact .cons hk (Frame.keeps_all _)
  have still {x : Except Fault Unit} {m₁ : Machine} (f' : Frame) (hk : f.Keeps f')
      (hm : KeepsInit m' m₁) : Attempted id o m n (x, t.withTop f', m₁) :=
    .of_keeps h hn rfl (same f' hk) (fun _ hp => hp) hm
  have ran {native : Native} {receiver : Option Ref} {args : List Value}
      {y : Except Fault (Option Value)} {m₁ : Machine}
      (hr : outcome (native.run host { owner := r.owner, receiver, args, thread := t.id }) m' =
        (y, m₁)) : KeepsInit m' (m₁.released t.id lock.toList) :=
    trans_of KeepsInit ((Native.run_within hh).of_eq hr) (m₁.released_keeps _ _)
  cases hc with
  | starved => exact .fails h hn
  | refused => exact still _ ⟨rfl, rfl, rfl⟩ (m'.released_keeps _ _)
  | unentered => exact still _ ⟨rfl, rfl, rfl⟩ (refl_of KeepsInit m')
  | unsplit => exact still _ ⟨rfl, rfl, rfl⟩ (refl_of KeepsInit m')
  | failed _ _ _ hr => exact still _ ⟨rfl, rfl, rfl⟩ (ran hr)
  | overflowed _ _ _ hr => exact still _ ⟨rfl, rfl, rfl⟩ (ran hr)
  | returned _ _ _ hr => exact still _ ⟨rfl, rfl, rfl⟩ (ran hr)
  | @entered args stack callee _ _ _ he =>
    obtain ⟨ho, hk⟩ := Frame.enter_calls he
    refine .works ?_ (.of_method rfl hk)
    have top := h.withTop hf (show f.Keeps { f with stack } from ⟨rfl, rfl, rfl⟩)
    exact top.pushedMethod (f := { callee with monitors := lock.toList }) hk (ho.symm ▸ hd)

theorem Thread.Invokes.attempted (hh : host.Within KeepsInit)
    (h : Coherent id o m [] t m') (hf : t.frames = f :: rest) (hn : t.frames.length ≤ n)
    (hd : m'.Defines r.owner) (hi : t.Invokes host f m' r x) : Attempted id o m n x := by
  cases hi with
  | unlocked hl => exact .fails (h.keeps hl.keeps.2) hn
  | busy hl =>
    exact .of_keeps h hn rfl (Frame.keeps_all _) (fun _ hp => hp) hl.keeps.2
  | unguarded _ hc => exact hc.attempted hh h hf hn hd
  | guarded hl hc =>
    exact hc.attempted hh (h.keeps hl.keeps.2) hf hn (hl.keeps.2.defines hd)

theorem Thread.Returns.attempted {value : Option Value} (h : Coherent id o m [] t m')
    (hf : t.frames = f :: rest) (hn : t.frames.length ≤ n) (hr : t.Returns f m' value rest x) :
    Attempted id o m n x := by
  have left := h.leftTop hf
  have hrest : (t.left rest).frames.length ≤ n := by
    rw [hf, List.length_cons] at hn
    exact Nat.le_of_succ_le hn
  cases hr with
  | initialized => exact .works left (.of_le hrest)
  | overflowed => exact .fails left hrest
  | returned => exact .works (left.withTop rfl ⟨rfl, rfl, rfl⟩) (.of_le hrest)
  | started => exact .works left (.of_le hrest)
  | ended =>
    exact .of_keeps left hrest rfl (Frame.keeps_all _) (fun _ hp => hp) (refl_of KeepsInit _)

/-! ### Initializers -/

/-- Pushing the frame of an initializer, after its class was readied. -/
theorem Thread.BeginsInitializer.attempted (h : Coherent id o m [(r.owner.name, id)] t m')
    (hd : m'.Defines r.owner) (hu : m.progress r.owner.name = .uninitialized)
    (hr : r.owner.declaredMethod? "<clinit>" "()V" = some r) (hn : t.frames.length ≤ n)
    (hb : t.BeginsInitializer m' r x) : Attempted id o m n x := by
  cases hb with
  | @pushed g he =>
    obtain ⟨ho, hk⟩ := Frame.enter_calls he
    refine .works (Coherent.pushedInitializer (ho.symm ▸ h) hk (ho.symm ▸ hd)) ?_
    intro f rest hf _ _
    cases hf
    exact ho.symm ▸ hu
  | unentered he =>
    refine .leaves h hd ⟨r, hr, .inl ?_⟩ hn
    unfold Frame.enter at he
    split at he
    · assumption
    · cases he

namespace Coherent

variable {c : Class} {w : List (String × ThreadId)}

/-- The initializations under way after a class was readied. -/
theorem readied (h : Coherent id o m [] t m')
    (ht : Tracked id c.IsLineage m' (w ++ (initializations id t.frames ++ o)) m'') :
    Coherent id o m w t m'' :=
  ⟨h.id_eq, h.tracked.trans (ht.mono fun _ _ => trivial), h.grounded.mono ht.retains⟩

theorem readyClass (hh : host.Within KeepsInit) (h : Coherent id o m [] t m')
    (hd : m'.Defines c) :
    Readied id (initializations id t.frames ++ o) c m'
      (outcome (Exec.readyClass host t.id c) m') := by
  rw [h.id_eq]
  exact Exec.readyClass_readied hh h.tracked.underway hd

theorem ready (hh : host.Within KeepsInit) (h : Coherent id o m [] t m') (hd : m'.Defines c)
    (hr : outcome (Exec.readyClass host t.id c) m' = (.ok .ready, m'')) :
    Coherent id o m [] t m'' ∧ m''.Defines c := by
  have := h.readyClass hh hd
  rw [hr] at this
  cases this with
  | ready ht => exact ⟨h.readied ht, ht.retains.defines hd⟩

theorem awaits {d : Class} (hh : host.Within KeepsInit) (h : Coherent id o m [] t m')
    (hd : m'.Defines c)
    (hr : outcome (Exec.readyClass host t.id c) m' = (.ok (.await d), m'')) :
    Coherent id o m [] t m'' := by
  have := h.readyClass hh hd
  rw [hr] at this
  cases this with
  | awaits ht => exact h.readied ht

theorem refused {e : Fault} (hh : host.Within KeepsInit) (h : Coherent id o m [] t m')
    (hd : m'.Defines c) (hn : t.frames.length ≤ n)
    (hr : outcome (Exec.readyClass host t.id c) m' = (.error e, m'')) :
    Attempted id o m n (.error e, t, m'') := by
  have := h.readyClass hh hd
  rw [hr] at this
  cases this with
  | fails ht => exact .fails (h.readied ht) hn
  | leaves ht hd hk => exact .leaves (h.readied (w := [(_, id)]) ht) hd hk hn

/-- The initializer of the class that comes first is pushed. -/
theorem initializes (hh : host.Within KeepsInit) (h : Coherent id o m [] t m')
    (hd : m'.Defines c) (hn : t.frames.length ≤ n)
    (hr : outcome (Exec.readyClass host t.id c) m' = (.ok (.runInitializer r), m''))
    (hb : t.BeginsInitializer m'' r x) : Attempted id o m n x := by
  have := h.readyClass hh hd
  rw [hr] at this
  cases this with
  | initializes ht hd hu hclinit =>
    exact hb.attempted (h.readied (w := [(_, id)]) ht) hd (h.tracked.uninitialized hu) hclinit hn

end Coherent

/-! ### All cases -/

theorem Thread.Starts.attempted (hh : host.Within KeepsInit) (h : Coherent id o m [] t m')
    (hf : t.frames = []) (hs : t.Starts host m' r x) : Attempted id o m 0 x := by
  have hn : t.frames.length ≤ 0 := by rw [hf]; exact Nat.le_refl 0
  have hd {args : List Value} (he : t.entry = some (r, args)) : m'.Defines r.owner :=
    h.grounded.entry (r, args) he
  have started {m₁ : Machine} (h : Coherent id o m [] t m₁) :
      Coherent id o m [] { t with entry := none } m₁ := h.moves rfl (Frame.keeps_all _) nofun
  cases hs with
  | nothing => exact .fails h hn
  | unready he hr => exact h.refused hh (hd he) hn hr
  | awaits he hr =>
    exact .of_keeps (h.awaits hh (hd he) hr) hn rfl (Frame.keeps_all _) (fun _ hp => hp)
      (refl_of KeepsInit _)
  | initializes he hr hb => exact h.initializes hh (hd he) hn hr hb
  | @entered args m₁ g he hr _ hg =>
    obtain ⟨ho, hk⟩ := Frame.enter_calls hg
    obtain ⟨ready, hd₁⟩ := h.ready hh (hd he) hr
    exact .works ((started ready).pushedMethod hk (ho.symm ▸ hd₁)) (.of_method rfl hk)
  | unentered he hr => exact .fails (started (h.ready hh (hd he) hr).1) hn
  | unsplit he hr => exact .fails (started (h.ready hh (hd he) hr).1) hn
  | failed he hr _ _ hc =>
    exact .fails ((started (h.ready hh (hd he) hr).1).keeps ((Native.run_within hh).of_eq hc)) hn
  | returned he hr _ _ hc =>
    exact .of_keeps (started (h.ready hh (hd he) hr).1) hn rfl (Frame.keeps_all _)
      (fun _ hp => hp) ((Native.run_within hh).of_eq hc)

/-- The thread when the instruction of its top frame has been executed. -/
theorem Coherent.executed {f' : Frame} (h : Coherent id o m [] t m') (hf : t.frames = f :: rest)
    (hk : f.Keeps f') : Coherent id o m [] { t with frames := f' :: rest } m' := by
  refine h.moves rfl ?_ fun _ hp => hp
  rw [hf]
  exact .cons hk (Frame.keeps_all _)

theorem Frame.Keeps.moved {f f' : Frame} (h : f.Keeps f') (next : Next) :
    f.Keeps (f'.moved next) := by
  cases next <;> exact ⟨h.method_eq, h.code_eq, h.kind_eq⟩

/-- What comes of the instruction of the top frame alone: work that was local, if it had an answer. -/
inductive Performed (id : ThreadId) (o : List (String × ThreadId)) (m : Machine) (n : Nat)
    (t : Thread) (rest : List Frame) : Except Fault Next × Frame × Machine → Prop
  | acts {x : Except Fault Next} {f' : Frame} {m' : Machine}
      (h : Coherent id o m [] { t with frames := f' :: rest } m')
      (hx : ∀ next, x = .ok next → next.isLocal) : Performed id o m n t rest (x, f', m')
  | calls {r : MethodRef} {f' : Frame} {m' : Machine}
      (h : Coherent id o m [] { t with frames := f' :: rest } m') (hd : m'.Defines r.owner) :
    Performed id o m n t rest (.ok (.invoke r), f', m')
  | awaits {c : Class} {f' : Frame} {m' : Machine}
      (h : Coherent id o m [] { t with frames := f' :: rest } m') :
    Performed id o m n t rest (.ok (.awaitInit c), f', m')
  | refused {e : Fault} {f' : Frame} {m' : Machine}
      (h : Attempted id o m n (.error e, { t with frames := f' :: rest }, m')) :
    Performed id o m n t rest (.error e, f', m')
  | initializes {r : MethodRef} {f' : Frame} {m' : Machine}
      (h : ∀ x, { t with frames := f' :: rest }.BeginsInitializer m' r x → Attempted id o m n x) :
    Performed id o m n t rest (.ok (.runInitializer r), f', m')

theorem Frame.Performs.performed (hh : host.Within KeepsInit) (hg : m.Grounded)
    (h : Coherent id o m [] t m') (hf : t.frames = f :: rest) (hn : t.frames.length ≤ n)
    {x : Except Fault Next × Frame × Machine} (hp : f.Performs host t.id m' x) :
    Performed id o m n t rest x := by
  have hg' : m'.Grounded := h.grounded_machine hg
  have hd : m'.Defines f.owner := h.grounded.frames f (by simp [hf])
  have same : { t with frames := f :: rest } = t := by rw [← hf]
  have lively {f' : Frame} {m₁ m₂ : Machine} (h : Coherent id o m [] t m₁) (hk : f.Keeps f')
      (hm : LivelyChange m₁ m₂) : Coherent id o m [] { t with frames := f' :: rest } m₂ :=
    (h.executed hf hk).keeps hm.within
  have needed {c : Class} {m₁ : Machine} (hc : f.Needs m' c m₁) :
      Coherent id o m [] t m₁ ∧ m₁.Defines c :=
    ⟨h.keeps hc.change.within, hc.defines hg' hd⟩
  cases hp with
  | acts hk hm hx => exact .acts (lively h hk hm) hx
  | calls hk hm hr => exact .calls (lively h hk hm) (hr hg' hd)
  | refused hc hr =>
    obtain ⟨h₁, hd₁⟩ := needed hc
    refine .refused ?_
    rw [same]
    exact h₁.refused hh hd₁ hn hr
  | awaits hc hr =>
    obtain ⟨h₁, hd₁⟩ := needed hc
    refine .awaits ?_
    rw [same]
    exact h₁.awaits hh hd₁ hr
  | initializes hc hr =>
    obtain ⟨h₁, hd₁⟩ := needed hc
    refine .initializes ?_
    rw [same]
    exact fun _ => h₁.initializes hh hd₁ hn hr
  | uses hc hr hk hm hx =>
    obtain ⟨h₁, hd₁⟩ := needed hc
    exact .acts (lively (h₁.ready hh hd₁ hr).1 hk hm) hx
  | callsStatic hc hr =>
    obtain ⟨h₁, hd₁⟩ := needed hc
    obtain ⟨ready, hd₂⟩ := h₁.ready hh hd₁ hr
    refine .calls ?_ hd₂
    rw [same]
    exact ready
  | creates hc hr hk hx =>
    obtain ⟨h₁, hd₁⟩ := needed hc
    obtain ⟨ready, hd₂⟩ := h₁.ready hh hd₁ hr
    refine .acts ((ready.executed hf hk).keeps ?_) hx
    exact .of_classStates (.allocate fun _ => hd₂) rfl

theorem Thread.Executes.attempted (hh : host.Within KeepsInit) (hg : m.Grounded)
    (h : Coherent id o m [] t m') (hf : t.frames = f :: rest) (hn : t.frames.length ≤ n)
    (hx : t.Executes host f m' rest x) : Attempted id o m n x := by
  have hrest {f' : Frame} : (f' :: rest).length ≤ n := by rw [hf] at hn; exact hn
  have performed {y : Except Fault Next × Frame × Machine}
      (hy : outcome (Frame.execute host t.id) (f, m') = y) : Performed id o m n t rest y :=
    (hy ▸ Frame.execute_performs host t.id f m').performed hh hg h hf hn
  have local_ {next : Next} {f' : Frame} {m₁ : Machine} (hl : next.isLocal)
      (hp : Performed id o m n t rest (.ok next, f', m₁)) :
      Coherent id o m [] { t with frames := f' :: rest } m₁ := by
    cases hp with
    | acts h => exact h
    | calls => cases hl
    | awaits => cases hl
    | initializes => cases hl
  cases hx with
  | failed hx =>
    cases performed hx with
    | acts h => exact .fails h hrest
    | refused h => exact h
  | advances hx =>
    have h₁ := local_ rfl (performed hx)
    exact .works (h₁.executed rfl ((Frame.Keeps.refl _).moved _)) (.of_le hrest)
  | jumps hx =>
    have h₁ := local_ rfl (performed hx)
    exact .works (h₁.executed rfl ((Frame.Keeps.refl _).moved _)) (.of_le hrest)
  | blocks hx =>
    have h₁ := local_ rfl (performed hx)
    exact .of_keeps h₁ hrest rfl (Frame.keeps_all _) (fun _ hp => hp) (refl_of KeepsInit _)
  | awaits hx =>
    cases performed hx with
    | acts _ hl => cases hl _ rfl
    | awaits h₁ =>
      exact .of_keeps h₁ hrest rfl (Frame.keeps_all _) (fun _ hp => hp) (refl_of KeepsInit _)
  | initializes hx hb =>
    cases performed hx with
    | acts _ hl => cases hl _ rfl
    | initializes h₁ => exact h₁ _ hb
  | invokes hx hi =>
    cases performed hx with
    | acts _ hl => cases hl _ rfl
    | calls h₁ hd => exact hi.attempted hh h₁ rfl hrest hd
  | returns hx hr => exact hr.attempted (local_ rfl (performed hx)) rfl hrest

theorem Thread.Attempts.attempted (hh : host.Within KeepsInit) (hg : m.Grounded)
    (h : Coherent id o m [] t m') (ha : t.Attempts host m' x) :
    Attempted id o m t.frames.length x := by
  have still {x : Except Fault Unit} {u : Thread} {m₁ : Machine} (hid : u.id = t.id)
      (hf : u.frames = t.frames) (he : u.entry = t.entry) (hm : KeepsInit m' m₁) :
      Attempted id o m t.frames.length (x, u, m₁) :=
    .of_keeps h (Nat.le_refl _) hid (hf ▸ Frame.keeps_all _) (fun _ hp => he ▸ hp) hm
  cases ha with
  | reacquires _ he => exact still rfl rfl rfl (Exec.tryEnter_within.of_eq he)
  | blocksAgain _ he => exact still rfl rfl rfl (Exec.tryEnter_within.of_eq he)
  | dangling => exact still rfl rfl rfl (refl_of KeepsInit m')
  | starts _ hf hs =>
    have := hs.attempted hh h hf
    rwa [show (0 : Nat) = t.frames.length by rw [hf]; rfl] at this
  | executes _ hf hx => exact hx.attempted hh hg h hf (Nat.le_refl _)

/-! ## Steps -/

/-- Unwinding ends the initializations of the frames that are left. -/
theorem Thread.Unwinds.coherent {r : Ref} (hu : t.Unwinds m' r fs x)
    (h : Coherent id o m [] t m') (hf : t.frames = fs) :
    Coherent id o m [] x.2.1 x.2.2 ∧ x.2.1.frames.length ≤ fs.length := by
  induction hu with
  | unhandled =>
    refine ⟨h.moves rfl ?_ nofun, ?_⟩
    · exact Frame.keeps_all _
    · exact hf ▸ Nat.le_refl _
  | lost hh => exact ⟨h.keeps (Exec.findHandler?_within.of_eq hh), hf ▸ Nat.le_refl _⟩
  | caught hh =>
    refine ⟨(h.keeps (Exec.findHandler?_within.of_eq hh)).withTop hf ⟨rfl, rfl, rfl⟩, ?_⟩
    show (_ :: List.tail _).length ≤ _
    rw [hf]
    exact Nat.le_refl _
  | overflowed hh => exact ⟨h.keeps (Exec.findHandler?_within.of_eq hh), hf ▸ Nat.le_refl _⟩
  | passes hh hk _ ih =>
    have searched := h.keeps (Exec.findHandler?_within.of_eq hh)
    obtain ⟨h', hn⟩ := ih ((searched.released _).leftMethod hf hk) rfl
    exact ⟨h', Nat.le_succ_of_le hn⟩
  | @fails _ _ _ _ _ _ f _ _ hh hk hr _ ih =>
    have searched := h.keeps (Exec.findHandler?_within.of_eq hh)
    have left := (searched.released f.monitors).leftInitializer hf hk (.inr rfl)
    obtain ⟨h', hn⟩ := ih (left.keeps (Exec.initializerFailure_within.of_eq hr)) rfl
    exact ⟨h', Nat.le_succ_of_le hn⟩
  | @unmade _ _ _ _ _ f _ _ hh hk hr =>
    have searched := h.keeps (Exec.findHandler?_within.of_eq hh)
    have left := (searched.released f.monitors).leftInitializer hf hk (.inr rfl)
    exact ⟨left.keeps (Exec.initializerFailure_within.of_eq hr), Nat.le_succ _⟩

/-- A class is being initialized by a thread that has been stopped by an engine error, since its
    initializer could not be run. -/
structure Stranded (p : String × ThreadId) (t : Thread) (m : Machine) : Prop where
  id_eq : t.id = p.2
  aborted : ∃ e, t.completion = some (.aborted e)
  unrunnable : ∃ k, k.name = p.1 ∧ m.Defines k ∧ m.Unrunnable k

/-- A step leaves just those initializations of a thread under way that its frames go on with, but
    for a class that is stranded. -/
theorem Thread.step_stepped (hh : host.Within KeepsInit) (hg : m.Grounded) (ht : t.Grounded m)
    (hw : Underway (initializations t.id t.frames ++ o) m) (hr : t.status = .runnable) :
    ∃ lost, Coherent t.id o m lost ((t.step host).run m).1 ((t.step host).run m).2 ∧
      Fresh m t.frames.length ((t.step host).run m).1 ∧
      ∀ p ∈ lost, Stranded p ((t.step host).run m).1 ((t.step host).run m).2 := by
  have begun : Coherent t.id o m [] t m := ⟨rfl, .refl hw, ht⟩
  have attempted {x : Except Fault Unit × Thread × Machine} (h : t.Attempts host m x) :
      Attempted t.id o m t.frames.length x := h.attempted hh hg begun
  have unwound {t₁ t₂ : Thread} {m₁ m₂ m₃ : Machine} {e : Throwable} {r : Ref}
      {y : Except Fault Unit} (h : t.Attempts host m (.error (.thrown e), t₁, m₁))
      (hm : outcome (Exec.materialize e) m₁ = (.ok r, m₂))
      (hu : t₁.Unwinds m₂ r t₁.frames (y, t₂, m₃)) :
      Coherent t.id o m [] t₂ m₃ ∧ t₂.frames.length ≤ t.frames.length := by
    cases attempted h with
    | fails h hn =>
      obtain ⟨h', hn'⟩ := hu.coherent (h.keeps (Exec.materialize_within.of_eq hm)) rfl
      exact ⟨h', Nat.le_trans hn' hn⟩
  have aborted {t₁ : Thread} {m₁ : Machine} (e : EngineError) (h : Coherent t.id o m [] t₁ m₁) :
      ∃ lost, Coherent t.id o m lost (t₁.aborted e) (m₁.abandoned t₁.id t₁.frames) ∧
        Fresh m t.frames.length (t₁.aborted e) ∧
        ∀ p ∈ lost, Stranded p (t₁.aborted e) (m₁.abandoned t₁.id t₁.frames) :=
    ⟨[], h.aborted e, fun _ _ hf => (nomatch hf), nofun⟩
  have hs := Thread.step_steps host hr m
  generalize (t.step host).run m = s at hs ⊢
  cases hs with
  | works h =>
    cases attempted h with
    | works h hn => exact ⟨[], h, hn, nofun⟩
  | throws h hm hu =>
    obtain ⟨h', hn⟩ := unwound h hm hu
    exact ⟨[], h', .of_le hn, nofun⟩
  | @aborts e t₁ m₁ h =>
    cases attempted h with
    | fails h => exact aborted e h
    | @leaves k _ _ _ h hd hk =>
      have left := h.aborted e
      have retained : Retains m₁ (m₁.abandoned t₁.id t₁.frames) := by
        have begun : Coherent t.id o m₁ [(k.name, t.id)] t₁ m₁ :=
          ⟨h.id_eq, .refl h.tracked.underway, h.grounded⟩
        exact (begun.aborted e).tracked.retains
      refine ⟨[(k.name, t.id)], left, fun _ _ hf => (nomatch hf), fun p hp => ?_⟩
      rw [List.mem_singleton.1 hp]
      exact ⟨h.id_eq, ⟨e, rfl⟩, k, rfl, retained.defines hd, hk.mono retained⟩
  | unmade h hm =>
    cases attempted h with
    | fails h => exact aborted _ (h.keeps (Exec.materialize_within.of_eq hm))
  | stuck h hm hu => exact aborted _ (unwound h hm hu).1

end GreenVm
