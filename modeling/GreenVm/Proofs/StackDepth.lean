/-
  Operand stacks, one operation after another.

  * `StackM`: work on an operand stack that keeps what it has done before it stops, and that stops
    where it would take more from the depth than there is.
  * `StackM.push`, `pop`, `popArgs`, `popSlots`, `pushAll`, `dup`, `swap`: the operations of the
    operand stack as such work.
  * `StackM.Does`: on a stack some work does what an operation does, or reports what that reports;
    in either case the stack that it leaves is sound.
  * `OperandStack.Sound.accounts`: so it is of all operations, on all sound stacks.
  * `Frame.Accounted`: the stack of a frame is sound, within the bound of its method.
  * `Vm.accounted_after`: so are all that a run comes to, in the middle of a step and after any
    instruction, whether it succeeds or fails.
-/
import GreenVm.Proofs.CallDepth

namespace GreenVm

/-! ## Work on a stack -/

/-- Why work on a stack stops: it reports an error, or the depth has fewer slots than are taken from
    it. -/
inductive StackStop
  | reports (e : EngineError)
  | underflows

/-- Work on an operand stack that keeps what was done before it stops. -/
abbrev StackM := ExceptT StackStop (StateM OperandStack)

namespace StackM

variable {α β : Type}

/-- What comes of some work on a stack, and the stack that it leaves. -/
def result (x : StackM α) (s : OperandStack) : Except StackStop α × OperandStack := x.run.run s

def report (e : EngineError) : StackM α := throw (.reports e)

/-- Takes slots from the depth, which must have them. -/
def lower (slots : Nat) : StackM Unit := do
  if (← get).depth < slots then throw .underflows
  modify fun s => { s with depth := s.depth - slots }

def push (v : Value) : StackM Unit := do
  let s ← get
  if s.max < s.depth + v.slots then report (.stackOverflow s.max)
  set { s with values := v :: s.values, depth := s.depth + v.slots }

def pop : StackM Value := do
  match (← get).values with
  | [] => report .stackUnderflow
  | v :: rest =>
    modify fun s => { s with values := rest }
    lower v.slots
    return v

/-- Takes the top `n` entries, the deepest first. -/
def popArgs (n : Nat) : StackM (List Value) := do
  let s ← get
  if s.values.length < n then report .stackUnderflow
  let args := (s.values.take n).reverse
  set { s with values := s.values.drop n }
  lower (totalSlots args)
  return args

/-- Takes entry after entry until they fill so many slots, the deepest first. -/
def popSlots : Nat → StackM (List Value)
  | 0 => return []
  | 1 => do
    let v ← pop
    if v.isWide then report (.typeMismatch .category1 .category2)
    return [v]
  | n + 2 => do
    let v ← pop
    let below ← if v.isWide then popSlots n else popSlots (n + 1)
    return below ++ [v]

/-- Pushes the values of a list, the first one first. -/
def pushAll : List Value → StackM Unit
  | [] => return ()
  | v :: vs => do
    push v
    pushAll vs

def dup (slots skip : Nat) : StackM Unit := do
  let top ← popSlots slots
  let below ← popSlots skip
  pushAll top
  pushAll below
  pushAll top

def swap : StackM Unit := do
  let top ← popSlots 1
  let below ← popSlots 1
  pushAll top
  pushAll below

/-- On a stack some work does what an operation gives, or it reports what that reports.  However it
    ends, it leaves a sound stack of the same bound; and an overflow is reported where that has no
    room for a value to be pushed. -/
structure Does (x : StackM α) (s : OperandStack) (r : Except EngineError (α × OperandStack)) :
    Prop where
  ok : ∀ a s', r = .ok (a, s') → x.result s = (.ok a, s') ∧ s'.Sound ∧ s'.max = s.max
  error : ∀ e, r = .error e → ∃ s', x.result s = (.error (.reports e), s') ∧ s'.Sound ∧
    s'.max = s.max ∧ ∀ n, e = .stackOverflow n →
      n = s.max ∧ ∃ v : Value, s'.max < totalSlots (v :: s'.values)

variable {x : StackM α} {y : α → StackM β} {s s' : OperandStack}
  {r : Except EngineError (α × OperandStack)}
  {k : α × OperandStack → Except EngineError (β × OperandStack)}

theorem result_bind_ok {a : α} (h : x.result s = (.ok a, s')) :
    (x >>= y).result s = (y a).result s' := by
  have h : x s = (.ok a, s') := h
  show (ExceptT.bind x y : StackM β) s = y a s'
  simp only [ExceptT.bind, ExceptT.mk, bind, StateT.bind, h]
  rfl

theorem result_bind_error {e : StackStop} (h : x.result s = (.error e, s')) :
    (x >>= y).result s = (.error e, s') := by
  have h : x s = (.error e, s') := h
  show (ExceptT.bind x y : StackM β) s = (.error e, s')
  simp only [ExceptT.bind, ExceptT.mk, bind, StateT.bind, h]
  rfl

theorem result_get (s : OperandStack) : (get : StackM OperandStack).result s = (.ok s, s) := rfl

theorem result_set (s s' : OperandStack) : (set s' : StackM PUnit).result s = (.ok ⟨⟩, s') := rfl

theorem result_modify (g : OperandStack → OperandStack) (s : OperandStack) :
    (modify g : StackM PUnit).result s = (.ok ⟨⟩, g s) := rfl

namespace Does

theorem pure (hs : s.Sound) (a : α) : Does (Pure.pure a) s (.ok (a, s)) where
  ok a' s' h := by
    cases h
    exact ⟨rfl, hs, rfl⟩
  error _ h := by cases h

theorem report (hs : s.Sound) {e : EngineError} (he : ∀ n, e ≠ .stackOverflow n) :
    Does (StackM.report e : StackM α) s (.error e) where
  ok _ _ h := by cases h
  error e' h := by
    cases h
    exact ⟨s, rfl, hs, rfl, fun n hn => absurd hn (he n)⟩

theorem bind (hx : Does x s r)
    (hy : ∀ a s', r = .ok (a, s') → s'.Sound → Does (y a) s' (k (a, s'))) :
    Does (x >>= y) s (r >>= k) := by
  cases hr : r with
  | error e =>
    obtain ⟨s', hrun, hs', hmax, ho⟩ := hx.error e hr
    refine ⟨fun b s'' h => ?_, fun e' h => ?_⟩
    · cases h
    · cases h
      exact ⟨s', result_bind_error hrun, hs', hmax, ho⟩
  | ok p =>
    obtain ⟨a, s'⟩ := p
    obtain ⟨hrun, hs', hmax⟩ := hx.ok a s' hr
    have hya := hy a s' hr hs'
    refine ⟨fun b s'' h => ?_, fun e h => ?_⟩
    · obtain ⟨hrun', hs'', hmax'⟩ := hya.ok b s'' h
      exact ⟨(result_bind_ok hrun).trans hrun', hs'', hmax'.trans hmax⟩
    · obtain ⟨s'', hrun', hs'', hmax', ho⟩ := hya.error e h
      exact ⟨s'', (result_bind_ok hrun).trans hrun', hs'', hmax'.trans hmax, fun n hn => by
        rw [← hmax]; exact ho n hn⟩

end Does

/-- An operation that answers nothing but a stack. -/
def unitResult (r : Except EngineError OperandStack) : Except EngineError (Unit × OperandStack) :=
  r.map fun s => ((), s)

namespace Does

theorem bind_unit {y : α → StackM Unit} {g : α × OperandStack → Except EngineError OperandStack}
    (hx : Does x s r)
    (hy : ∀ a s', r = .ok (a, s') → s'.Sound → Does (y a) s' (unitResult (g (a, s')))) :
    Does (x >>= y) s (unitResult (r >>= g)) := by
  have h := hx.bind (k := fun p => unitResult (g p)) hy
  have hr : (r >>= fun p => unitResult (g p)) = unitResult (r >>= g) := by cases r <;> rfl
  rwa [hr] at h

theorem followed {x y : StackM Unit} {r : Except EngineError OperandStack}
    {g : OperandStack → Except EngineError OperandStack} (hx : Does x s (unitResult r))
    (hy : ∀ s', s'.Sound → Does y s' (unitResult (g s'))) :
    Does (x >>= fun _ => y) s (unitResult (r >>= g)) := by
  have h := hx.bind (k := fun p => unitResult (g p.2)) fun _ s' _ hs' => hy s' hs'
  have hr : (unitResult r >>= fun p => unitResult (g p.2)) = unitResult (r >>= g) := by
    cases r <;> rfl
  rwa [hr] at h

end Does

theorem lower_ok {slots : Nat} (h : slots ≤ s.depth) :
    (lower slots).result s = (.ok (), { s with depth := s.depth - slots }) := by
  rw [lower, result_bind_ok (result_get s), if_neg (Nat.not_lt.2 h)]
  rfl

/-- A sound stack has no room for a value just if pushing it fails. -/
theorem push_eq (hs : s.Sound) (v : Value) :
    s.push v = if totalSlots (v :: s.values) ≤ s.max
      then .ok { s with values := v :: s.values, depth := s.depth + v.slots }
      else .error (.stackOverflow s.max) := by
  rw [OperandStack.push, hs.counted, totalSlots_cons, Nat.add_comm]

theorem push_does (hs : s.Sound) (v : Value) : Does (push v) s (unitResult (s.push v)) := by
  by_cases hfits : s.depth + v.slots ≤ s.max
  · have hpush : s.push v = .ok { s with values := v :: s.values, depth := s.depth + v.slots } :=
      if_pos hfits
    have hrun : (push v).result s =
        (.ok (), { s with values := v :: s.values, depth := s.depth + v.slots }) := by
      rw [push, result_bind_ok (result_get s), if_neg (Nat.not_lt.2 hfits)]
      rfl
    rw [hpush]
    refine ⟨fun a s' h => ?_, fun e h => ?_⟩
    · cases h
      exact ⟨hrun, (OperandStack.push_evolves hpush).sound hs, rfl⟩
    · cases h
  · have hpush : s.push v = .error (.stackOverflow s.max) := if_neg hfits
    have hrun : (push v).result s = (.error (.reports (.stackOverflow s.max)), s) := by
      rw [push, result_bind_ok (result_get s), if_pos (Nat.lt_of_not_le hfits)]
      rfl
    rw [hpush]
    refine ⟨fun a s' h => ?_, fun e h => ?_⟩
    · cases h
    · cases h
      refine ⟨s, hrun, hs, rfl, fun n hn => ?_⟩
      cases hn
      refine ⟨rfl, v, ?_⟩
      rw [totalSlots_cons, ← hs.counted]
      omega

theorem pop_does (hs : s.Sound) : Does pop s s.pop := by
  cases hv : s.values with
  | nil =>
    have hrun : pop.result s = (.error (.reports .stackUnderflow), s) := by
      rw [pop, result_bind_ok (result_get s), hv]
      rfl
    have hpop : s.pop = .error .stackUnderflow := by rw [OperandStack.pop, hv]
    rw [hpop]
    refine ⟨fun a s' h => ?_, fun e h => ?_⟩
    · cases h
    · cases h
      exact ⟨s, hrun, hs, rfl, fun n h => by cases h⟩
  | cons v rest =>
    have hpop : s.pop = .ok (v, { s with values := rest, depth := s.depth - v.slots }) := by
      rw [OperandStack.pop, hv]
    -- the depth counts the slots of the value that is taken
    have hdepth : v.slots ≤ s.depth := by
      rw [hs.counted, hv, totalSlots_cons]
      exact Nat.le_add_right ..
    have hrun : pop.result s = (.ok v, { s with values := rest, depth := s.depth - v.slots }) := by
      rw [pop, result_bind_ok (result_get s), hv]
      dsimp only
      rw [result_bind_ok (result_modify _ s),
        result_bind_ok (lower_ok (s := { s with values := rest }) hdepth)]
      rfl
    rw [hpop]
    refine ⟨fun a s' h => ?_, fun e h => ?_⟩
    · cases h
      exact ⟨hrun, (OperandStack.pop_evolves hpop).sound hs, rfl⟩
    · cases h

theorem popArgs_does (hs : s.Sound) (n : Nat) : Does (popArgs n) s (s.popArgs n) := by
  by_cases hn : s.values.length < n
  · have hpop : s.popArgs n = .error .stackUnderflow := if_pos hn
    have hrun : (popArgs n).result s = (.error (.reports .stackUnderflow), s) := by
      rw [popArgs, result_bind_ok (result_get s), if_pos hn]
      rfl
    rw [hpop]
    refine ⟨fun a s' h => ?_, fun e h => ?_⟩
    · cases h
    · cases h
      exact ⟨s, hrun, hs, rfl, fun n h => by cases h⟩
  · have hpop : s.popArgs n = .ok ((s.values.take n).reverse, { s with
        values := s.values.drop n, depth := s.depth - totalSlots (s.values.take n).reverse }) :=
      if_neg hn
    have hdepth : totalSlots (s.values.take n).reverse ≤ s.depth := by
      rw [hs.counted, totalSlots_reverse, ← List.take_append_drop n s.values, totalSlots_append,
        List.take_append_drop]
      exact Nat.le_add_right ..
    have hrun : (popArgs n).result s = (.ok (s.values.take n).reverse, { s with
        values := s.values.drop n, depth := s.depth - totalSlots (s.values.take n).reverse }) := by
      rw [popArgs, result_bind_ok (result_get s), if_neg hn]
      dsimp only
      rw [result_bind_ok (result_set s _),
        result_bind_ok (lower_ok (s := { s with values := s.values.drop n }) hdepth)]
      rfl
    rw [hpop]
    refine ⟨fun a s' h => ?_, fun e h => ?_⟩
    · cases h
      exact ⟨hrun, (OperandStack.popArgs_evolves hpop).sound hs, rfl⟩
    · cases h

theorem popSlots_does : ∀ (n : Nat) {s : OperandStack}, s.Sound → Does (popSlots n) s (s.popSlots n)
  | 0, _, hs => .pure hs []
  | 1, _, hs => by
    refine (pop_does hs).bind fun v s' _ hs' => ?_
    dsimp only
    split
    · exact .report hs' nofun
    · exact .pure hs' _
  | n + 2, _, hs => by
    refine (pop_does hs).bind fun v s' _ hs' => ?_
    dsimp only
    split
    · exact (popSlots_does n hs').bind fun below s'' _ hs'' => .pure hs'' _
    · exact (popSlots_does (n + 1) hs').bind fun below s'' _ hs'' => .pure hs'' _

theorem pushAll_does : ∀ (vs : List Value) {s : OperandStack}, s.Sound →
    Does (pushAll vs) s (unitResult (s.pushAll vs))
  | [], _, hs => .pure hs ()
  | v :: vs, _, hs => (push_does hs v).followed fun _ hs' => pushAll_does vs hs'

theorem dup_does (hs : s.Sound) (n k : Nat) : Does (dup n k) s (unitResult (s.dup n k)) :=
  (popSlots_does n hs).bind_unit fun top _ _ hs₁ =>
    (popSlots_does k hs₁).bind_unit fun below _ _ hs₂ =>
      (pushAll_does top hs₂).followed fun _ hs₃ =>
        (pushAll_does below hs₃).followed fun _ hs₄ => pushAll_does top hs₄

theorem swap_does (hs : s.Sound) : Does swap s (unitResult s.swap) :=
  (popSlots_does 1 hs).bind_unit fun top _ _ hs₁ =>
    (popSlots_does 1 hs₁).bind_unit fun below _ _ hs₂ =>
      (pushAll_does top hs₂).followed fun _ hs₃ => pushAll_does below hs₃

end StackM

/-- What every operation on a stack comes to, one after another: none takes more from the depth than
    there is, and a push fails just if there is no room. -/
structure OperandStack.Accounts (s : OperandStack) : Prop where
  sound : s.Sound
  push : ∀ v, (StackM.push v).Does s (StackM.unitResult (s.push v))
  overflow : ∀ v, s.push v = .error (.stackOverflow s.max) ↔ s.max < totalSlots (v :: s.values)
  overflowAll : ∀ vs, s.pushAll vs = .error (.stackOverflow s.max) ↔
    s.max < totalSlots vs + totalSlots s.values
  pop : StackM.pop.Does s s.pop
  popArgs : ∀ n, (StackM.popArgs n).Does s (s.popArgs n)
  popSlots : ∀ n, (StackM.popSlots n).Does s (s.popSlots n)
  pushAll : ∀ vs, (StackM.pushAll vs).Does s (StackM.unitResult (s.pushAll vs))
  dup : ∀ n k, (StackM.dup n k).Does s (StackM.unitResult (s.dup n k))
  swap : StackM.swap.Does s (StackM.unitResult s.swap)
  clear : s.clear.Sound ∧ s.clear.max = s.max

theorem OperandStack.Sound.accounts {s : OperandStack} (hs : s.Sound) : s.Accounts where
  sound := hs
  push := StackM.push_does hs
  overflow v := by
    rw [StackM.push_eq hs]
    by_cases hfits : totalSlots (v :: s.values) ≤ s.max
    · rw [if_pos hfits]
      exact iff_of_false nofun (Nat.not_lt.2 hfits)
    · rw [if_neg hfits]
      exact iff_of_true rfl (Nat.lt_of_not_le hfits)
  overflowAll vs := by
    rw [Nat.add_comm, ← hs.counted]
    by_cases hfits : s.depth + totalSlots vs ≤ s.max
    · rw [OperandStack.pushAll_eq hfits]
      exact iff_of_false nofun (Nat.not_lt.2 hfits)
    · have hexceeds := Nat.lt_of_not_le hfits
      exact iff_of_true (OperandStack.pushAll_error hs.bounded hexceeds) hexceeds
  pop := StackM.pop_does hs
  popArgs := StackM.popArgs_does hs
  popSlots n := StackM.popSlots_does n hs
  pushAll vs := StackM.pushAll_does vs hs
  dup := StackM.dup_does hs
  swap := StackM.swap_does hs
  clear := ⟨(OperandStack.clear_evolves s).sound hs, rfl⟩

/-! ## Frames -/

/-- The depth of the operand stack of a frame is the number of slots that its values take, and at
    most the bound of the method; so that every operation on it does what it is to do. -/
structure Frame.Accounted (f : Frame) : Prop where
  counted : f.stack.depth = totalSlots f.stack.values
  bounded : f.stack.depth ≤ f.code.maxStack
  room : f.stack.max = f.code.maxStack
  code : f.method.method.code = some f.code
  accounts : f.stack.Accounts

namespace Frame.Accounted

variable {f f' : Frame} {limit : Nat} {c c' : List Frame × Nat}

theorem of_sound (hs : f.stack.Sound) (hm : f.stack.max = f.code.maxStack)
    (hc : f.method.method.code = some f.code) : f.Accounted :=
  ⟨hs.counted, hm ▸ hs.bounded, hm, hc, hs.accounts⟩

theorem of_enter {r : MethodRef} {args : List Value} {kind : FrameKind} {g : Frame}
    (h : Frame.enter r args kind = .ok g) : g.Accounted := by
  refine of_sound ?_ ?_ ?_
  · rw [(Frame.enter_room h).1]
    exact OperandStack.sound_ofMax _
  · rw [(Frame.enter_room h).1]
    rfl
  · rw [(Frame.enter_fields h).2]
    exact Frame.enter_code h

theorem works (h : f.Accounted) (hk : f.Keeps f') (hs : f.stack.Evolves f'.stack) :
    f'.Accounted := by
  refine of_sound (hs.sound h.accounts.sound) ?_ ?_
  · rw [hs.max, h.room, hk.code_eq]
  · rw [hk.method_eq, hk.code_eq, h.code]

/-- Every change of the frames of a thread keeps them accounted for. -/
theorem move (h : ∀ f ∈ c.1, f.Accounted) (hm : FrameMove limit c c') :
    ∀ f ∈ c'.1, f.Accounted := by
  cases hm with
  | works hk hs =>
    obtain ⟨htop, hrest⟩ := List.forall_mem_cons.1 h
    exact List.forall_mem_cons.2 ⟨htop.works hk hs, hrest⟩
  | begins hg => exact List.forall_mem_cons.2 ⟨of_enter hg, nofun⟩
  | calls hg =>
    exact List.forall_mem_cons.2 ⟨(of_enter hg).works ⟨rfl, rfl, rfl⟩ (.refl _), h⟩
  | initializes hg => exact List.forall_mem_cons.2 ⟨of_enter hg, h⟩
  | leaves => exact (List.forall_mem_cons.1 h).2

theorem moves (h : ∀ f ∈ c.1, f.Accounted) (hm : FrameMoves limit c c') :
    ∀ f ∈ c'.1, f.Accounted := by
  induction hm with
  | refl => exact h
  | tail _ hm ih => exact move ih hm

end Frame.Accounted

/-- An instruction, whatever comes of it, leaves a sound operand stack of the same bound. -/
theorem FrameM.execute_evolves (host : Host) (id : ThreadId) (i : Instruction) (f : Frame)
    (m : Machine) : f.stack.Evolves (outcome (execute host id i) (f, m)).2.1.stack :=
  (execute_sets i f m).evolves

/-- **The depth of operand stacks.**  In every state that a run comes to, in the middle of a step
    before a failure is dealt with, and after any instruction, the depth of every operand stack is
    the number of slots that its values take, and at most the bound of the method.  Therefore no
    operation takes more from it than there is, however far it comes, and an overflow is reported
    just where a push would exceed the bound. -/
theorem Vm.accounted_after {host : Host} (hh : host.Within StartsAfresh) (config : Config)
    (classPath : Table String ClassFile) (wallClock : Nat) (as : List Action) :
    ∀ t ∈ ((boot config classPath wallClock).after host as).threads,
      (∀ f ∈ t.frames, f.Accounted) ∧
      (∀ m, m.config = config →
        ∀ f ∈ (outcome (ThreadM.tryStep host) (t, m)).2.1.frames, f.Accounted) ∧
      ∀ f ∈ t.frames, ∀ host id i m,
        (outcome (FrameM.execute host id i) (f, m)).2.1.stack.Accounts ∧
          (outcome (FrameM.execute host id i) (f, m)).2.1.stack.max = f.code.maxStack := by
  intro t ht
  have hmoves := moves_after hh config classPath wallClock as t ht
  have hframes : ∀ f ∈ t.frames, f.Accounted := Frame.Accounted.moves (c := ([], 0)) nofun hmoves
  refine ⟨hframes, fun m hm => ?_, fun f hf host id i m => ?_⟩
  · have hattempt := (ThreadM.tryStep_attempts host t m).moves hh (congrArg Config.maxCallDepth hm)
    exact Frame.Accounted.moves (c := t.chain) hframes hattempt
  · have hevolves := FrameM.execute_evolves host id i f m
    exact ⟨(hevolves.sound (hframes f hf).accounts.sound).accounts,
      hevolves.max.trans (hframes f hf).room⟩

/-- A long fills the stack of a method: there is no room for an int, and copying one slot of it
    fails after the long has been taken. -/
theorem Vm.accounted_after_long :
    ∃ t ∈ (ofLong.after .idle (.spawn "A" "main" "()V" [] :: List.replicate 2 .turn)).threads,
      ∃ f ∈ t.frames, f.stack.values = [.long 5] ∧ f.stack.depth = 2 ∧
        f.stack.push (.int 0) = .error (.stackOverflow f.stack.max) ∧
        ∃ s, (StackM.dup 1 0).result f.stack =
          (.error (.reports (.typeMismatch .category1 .category2)), s) ∧ s.Sound := by
  generalize hvm : ofLong.after .idle (.spawn "A" "main" "()V" [] :: List.replicate 2 .turn) = vm
  have h : vm.threads[0]?.any fun t => t.frames.head?.any fun f =>
      decide (f.stack = { values := [.long 5], depth := 2, max := 2 }) := by
    rw [← hvm]
    decide +kernel
  obtain ⟨t, ht, h⟩ := (Option.any_eq_true _ _).1 h
  obtain ⟨f, hf, h⟩ := (Option.any_eq_true _ _).1 h
  have hstack := of_decide_eq_true h
  have hmem := Array.mem_of_getElem? ht
  have hframe := List.mem_of_mem_head? hf
  refine ⟨t, hmem, f, hframe, by rw [hstack], by rw [hstack], ?_⟩
  rw [← hvm] at hmem
  have haccounts := ((accounted_after Host.idle_within _ _ _ _ t hmem).1 f hframe).accounts
  obtain ⟨s, hrun, hs, -⟩ := (haccounts.dup 1 0).error (.typeMismatch .category1 .category2)
    (by rw [hstack]; rfl)
  refine ⟨(haccounts.overflow (.int 0)).2 ?_, s, hrun, hs⟩
  rw [hstack]
  decide

end GreenVm
