/-
  What a thread can attempt in a turn, told case by case.

  Each relation lists, for one part of a step, all that can come of it: the answer or the failure,
  the thread and the machine.  `Thread.Attempts` does so for the unit of work as a whole, so that a
  property of steps is shown by going through its cases; how a failure is dealt with is left to the
  unwinding.
-/
import GreenVm.Proofs.Calls

namespace GreenVm

/-! ## Threads and machines that are changed -/

namespace Thread

def pushed (t : Thread) (f : Frame) : Thread :=
  { t with frames := f :: t.frames, depth := t.depth + 1 }

/-- The thread with `f` in place of its top frame. -/
def withTop (t : Thread) (f : Frame) : Thread := { t with frames := f :: t.frames.tail }

/-- The thread that has left its top frame and keeps the `rest`. -/
def left (t : Thread) (rest : List Frame) : Thread :=
  { t with frames := rest, depth := t.depth - 1 }

def blockedOn (t : Thread) (monitor : Ref) : Thread :=
  { t with status := .blocked, blocker := some (.monitor monitor) }

def awaiting (t : Thread) (c : Class) : Thread :=
  { t with status := .waiting, blocker := some (.classInit c) }

def ended (t : Thread) (completion : Completion) : Thread :=
  { t with status := .terminated, blocker := none, completion := some completion }

end Thread

namespace Machine

/-- The machine in which a thread has released monitors, one after another. -/
def released (m : Machine) (t : ThreadId) : List Ref → Machine
  | [] => m
  | r :: rs => released (outcome (Exec.release t r) m).2 t rs

/-- The machine with the initialization of a class at a certain point. -/
def withInit (m : Machine) (c : Class) (init : InitState) : Machine :=
  { m with classStates := m.classStates.put c.name { Exec.stateOf m c with init } }

/-- The machine in which a thread has left a frame with a result. -/
def left (m : Machine) (t : ThreadId) (f : Frame) : Machine :=
  if f.kind = .classInit then (m.released t f.monitors).withInit f.owner .done
  else m.released t f.monitors

end Machine

theorem Exec.outcome_classState (c : Class) (m : Machine) :
    outcome (Exec.classState c) m = (.ok (Exec.stateOf m c), m) := by
  rw [classState, outcome_bind_ok (outcome_get m), outcome_pure]

@[simp] theorem Exec.outcome_setInit (c : Class) (init : InitState) (m : Machine) :
    outcome (Exec.setInit c init) m = (.ok (), m.withInit c init) := rfl

theorem Exec.outcome_release (t : ThreadId) (r : Ref) (m : Machine) :
    (outcome (Exec.release t r) m).1 = .ok () := by
  rw [release, outcome_bind_ok (outcome_get m)]
  cases m.heap.get? r with
  | none => rfl
  | some o => rcases ho : o.monitor.exit t with e | ⟨p, monitor⟩ <;> simp only [ho] <;> rfl

namespace ThreadM

variable {t : Thread} {m : Machine} {host : Host}

@[simp] theorem outcome_pushFrame (f : Frame) (s : Thread × Machine) :
    outcome (pushFrame f) s = (.ok (), s.1.pushed f, s.2) := rfl

@[simp] theorem outcome_setTop (f : Frame) (s : Thread × Machine) :
    outcome (setTop f) s = (.ok (), s.1.withTop f, s.2) := rfl

@[simp] theorem outcome_blockOn (r : Ref) (s : Thread × Machine) :
    outcome (blockOn r) s = (.ok (), s.1.blockedOn r, s.2) := rfl

@[simp] theorem outcome_terminate (c : Completion) (s : Thread × Machine) :
    outcome (terminate c) s = (.ok (), s.1.ended c, s.2) := rfl

theorem outcome_releaseAll (rs : List Ref) (t : Thread) (m : Machine) :
    outcome (releaseAll rs) (t, m) = (.ok (), t, m.released t.id rs) := by
  have all : outcome (rs.forM fun r => (liftM (Exec.release t.id r) : ThreadM Unit)) (t, m) =
      (.ok (), t, m.released t.id rs) := by
    induction rs generalizing m with
    | nil => rfl
    | cons r rs ih =>
      have first : outcome (Exec.release t.id r) m =
          (.ok (), (outcome (Exec.release t.id r) m).2) :=
        Prod.ext (Exec.outcome_release t.id r m) rfl
      rw [List.forM, outcome_thread_bind_ok first]
      exact ih _
  rw [releaseAll, outcome_bind_ok (outcome_getThread _)]
  exact all

theorem outcome_leaveFrame (f : Frame) (rest : List Frame) (t : Thread) (m : Machine) :
    outcome (leaveFrame f rest) (t, m) = (.ok (), t.left rest, m.released t.id f.monitors) := by
  rw [leaveFrame, outcome_bind_ok (outcome_modifyThread _ _)]
  exact outcome_releaseAll f.monitors (t.left rest) m

end ThreadM

/-! ## Calls -/

/-- The lock of a call on behalf of a frame: the object of the class, or the receiver. -/
def MethodRef.lock (r : MethodRef) (f : Frame) : Exec Ref :=
  if r.method.isStatic then Exec.classObject r.owner
  else do
    let v ← f.stack.peek (r.method.argumentCount - 1)
    v.asObject

theorem MethodRef.lock_within {R : Machine → Machine → Prop} [Calm R] {r : MethodRef} {f : Frame} :
    Within R (r.lock f) := by
  unfold MethodRef.lock
  split
  · exact Exec.classObject_within
  · exact .bind (.liftExcept _) fun _ => .liftExcept _

/-- The result of a native method that has been called: a method that returns nothing has none. -/
def MethodRef.result (r : MethodRef) (value : Option Value) : Option Value :=
  r.method.type.returnType.bind fun _ => value

/-- The stack with a result on top, if there is one. -/
def OperandStack.pushResult (s : OperandStack) : Option Value → Except EngineError OperandStack
  | none => .ok s
  | some v => s.push v

namespace Thread

variable (host : Host) (t : Thread) (f : Frame) (m : Machine) (r : MethodRef)

/-- Taking the lock of a call. -/
inductive Locks : Except Fault Locking × Thread × Machine → Prop
  | unneeded (hs : r.method.isSynchronized = false) : Locks (.ok .unneeded, t, m)
  | lockless {e : Fault} {m₁ : Machine} (hs : r.method.isSynchronized = true)
      (hl : outcome (r.lock f) m = (.error e, m₁)) : Locks (.error e, t, m₁)
  | dangling {l : Ref} {e : Fault} {m₁ : Machine} (hs : r.method.isSynchronized = true)
      (hl : outcome (r.lock f) m = (.ok l, m₁))
      (he : outcome (Exec.tryEnter l t.id 1) m₁ = (.error e, m₁)) : Locks (.error e, t, m₁)
  | busy {l : Ref} {m₁ m₂ : Machine} (hs : r.method.isSynchronized = true)
      (hl : outcome (r.lock f) m = (.ok l, m₁))
      (he : outcome (Exec.tryEnter l t.id 1) m₁ = (.ok false, m₂)) : Locks (.ok (.busy l), t, m₂)
  | held {l : Ref} {m₁ m₂ : Machine} (hs : r.method.isSynchronized = true)
      (hl : outcome (r.lock f) m = (.ok l, m₁))
      (he : outcome (Exec.tryEnter l t.id 1) m₁ = (.ok true, m₂)) : Locks (.ok (.held l), t, m₂)

/-- Calling a method with its lock, if it has one. -/
inductive Calls (lock : Option Ref) : Except Fault Unit × Thread × Machine → Prop
  | starved {e : EngineError} (ha : f.stack.popArgs r.method.argumentCount = .error e) :
    Calls lock (.error (.fatal e), t, m)
  | refused {args : List Value} {stack : OperandStack} {fault : Fault}
      (ha : f.stack.popArgs r.method.argumentCount = .ok (args, stack))
      (hn : m.natives.lookup? r.owner.name r.method.name r.method.descriptor = none)
      (hf : ThreadM.callFailure? r t.depth m.config.maxCallDepth = some fault) :
    Calls lock (.error fault, t.withTop { f with stack }, m.released t.id lock.toList)
  | unentered {args : List Value} {stack : OperandStack} {e : EngineError}
      (ha : f.stack.popArgs r.method.argumentCount = .ok (args, stack))
      (hn : m.natives.lookup? r.owner.name r.method.name r.method.descriptor = none)
      (hf : ThreadM.callFailure? r t.depth m.config.maxCallDepth = none)
      (he : Frame.enter r args .method = .error e) :
    Calls lock (.error (.fatal e), t.withTop { f with stack }, m)
  | entered {args : List Value} {stack : OperandStack} {callee : Frame}
      (ha : f.stack.popArgs r.method.argumentCount = .ok (args, stack))
      (hn : m.natives.lookup? r.owner.name r.method.name r.method.descriptor = none)
      (hf : ThreadM.callFailure? r t.depth m.config.maxCallDepth = none)
      (he : Frame.enter r args .method = .ok callee) :
    Calls lock (.ok (),
      (t.withTop { f with stack }).pushed { callee with monitors := lock.toList }, m)
  | unsplit {args : List Value} {stack : OperandStack} {native : Native} {e : Fault}
      (ha : f.stack.popArgs r.method.argumentCount = .ok (args, stack))
      (hn : m.natives.lookup? r.owner.name r.method.name r.method.descriptor = some native)
      (hs : r.splitReceiver args = .error e) : Calls lock (.error e, t.withTop { f with stack }, m)
  | failed {args : List Value} {stack : OperandStack} {native : Native} {receiver : Option Ref}
      {others : List Value} {e : Fault} {m₁ : Machine}
      (ha : f.stack.popArgs r.method.argumentCount = .ok (args, stack))
      (hn : m.natives.lookup? r.owner.name r.method.name r.method.descriptor = some native)
      (hs : r.splitReceiver args = .ok (receiver, others))
      (hr : outcome (native.run host { owner := r.owner, receiver, args := others, thread := t.id })
        m = (.error e, m₁)) :
    Calls lock (.error e, t.withTop { f with stack }, m₁.released t.id lock.toList)
  | overflowed {args : List Value} {stack : OperandStack} {native : Native}
      {receiver : Option Ref} {others : List Value} {v : Value} {e : EngineError} {m₁ : Machine}
      (ha : f.stack.popArgs r.method.argumentCount = .ok (args, stack))
      (hn : m.natives.lookup? r.owner.name r.method.name r.method.descriptor = some native)
      (hs : r.splitReceiver args = .ok (receiver, others))
      (hr : outcome (native.run host { owner := r.owner, receiver, args := others, thread := t.id })
        m = (.ok (some v), m₁)) (hv : stack.push v = .error e) :
    Calls lock (.error (.fatal e), t.withTop { f with stack }, m₁.released t.id lock.toList)
  | returned {args : List Value} {stack stack' : OperandStack} {native : Native}
      {receiver : Option Ref} {others : List Value} {value : Option Value} {m₁ : Machine}
      (ha : f.stack.popArgs r.method.argumentCount = .ok (args, stack))
      (hn : m.natives.lookup? r.owner.name r.method.name r.method.descriptor = some native)
      (hs : r.splitReceiver args = .ok (receiver, others))
      (hr : outcome (native.run host { owner := r.owner, receiver, args := others, thread := t.id })
        m = (.ok value, m₁))
      (hv : stack.pushResult (r.result value) = .ok stack') :
    Calls lock (.ok (), t.withTop { f with stack := stack', pc := f.pc + 1 },
      m₁.released t.id lock.toList)

/-- Calling a method. -/
inductive Invokes : Except Fault Unit × Thread × Machine → Prop
  | unlocked {e : Fault} {m₁ : Machine} (hl : t.Locks f m r (.error e, t, m₁)) :
    Invokes (.error e, t, m₁)
  | busy {l : Ref} {m₁ : Machine} (hl : t.Locks f m r (.ok (.busy l), t, m₁)) :
    Invokes (.ok (), t.blockedOn l, m₁)
  | unguarded {x : Except Fault Unit × Thread × Machine}
      (hl : t.Locks f m r (.ok .unneeded, t, m)) (hc : t.Calls host f m r none x) : Invokes x
  | guarded {l : Ref} {m₁ : Machine} {x : Except Fault Unit × Thread × Machine}
      (hl : t.Locks f m r (.ok (.held l), t, m₁)) (hc : t.Calls host f m₁ r (some l) x) : Invokes x

/-- Returning from the top frame `f` to the `rest`. -/
inductive Returns (value : Option Value) : List Frame → Except Fault Unit × Thread × Machine → Prop
  | initialized {caller : Frame} {rest : List Frame} (hk : f.kind = .classInit) :
    Returns value (caller :: rest) (.ok (), t.left (caller :: rest), m.left t.id f)
  | overflowed {caller : Frame} {rest : List Frame} {v : Value} {e : EngineError}
      (hk : f.kind = .method) (hv : caller.stack.push v = .error e) :
    Returns value (caller :: rest)
      (.error (.fatal e), t.left (caller :: rest), m.left t.id f)
  | returned {caller : Frame} {rest : List Frame} {stack : OperandStack} (hk : f.kind = .method)
      (hv : caller.stack.pushResult value = .ok stack) :
    Returns value (caller :: rest)
      (.ok (), (t.left (caller :: rest)).withTop { caller with stack, pc := caller.pc + 1 },
        m.left t.id f)
  | started {p : MethodRef × List Value} (he : t.entry = some p) :
    Returns value [] (.ok (), t.left [], m.left t.id f)
  | ended (he : t.entry = none) :
    Returns value [] (.ok (), (t.left []).ended (.returned value), m.left t.id f)

/-- Pushing the frame of a class initializer. -/
inductive BeginsInitializer : Except Fault Unit × Thread × Machine → Prop
  | pushed {g : Frame} (he : Frame.enter r [] .classInit = .ok g) : 
    BeginsInitializer (.ok (), t.pushed g, m)
  | unentered {e : EngineError} (he : Frame.enter r [] .classInit = .error e) :
    BeginsInitializer (.error (.fatal e), t, m)

/-- Starting the entry method. -/
inductive Starts : Except Fault Unit × Thread × Machine → Prop
  | nothing (he : t.entry = none) :
    Starts (.error (.fatal (.unsupported (.nothingToRun t.id))), t, m)
  | unready {args : List Value} {e : Fault} {m₁ : Machine} (he : t.entry = some (r, args))
      (hr : outcome (Exec.readyClass host t.id r.owner) m = (.error e, m₁)) :
    Starts (.error e, t, m₁)
  | awaits {args : List Value} {c : Class} {m₁ : Machine} (he : t.entry = some (r, args))
      (hr : outcome (Exec.readyClass host t.id r.owner) m = (.ok (.await c), m₁)) :
    Starts (.ok (), t.awaiting c, m₁)
  | initializes {args : List Value} {clinit : MethodRef} {m₁ : Machine}
      {x : Except Fault Unit × Thread × Machine} (he : t.entry = some (r, args))
      (hr : outcome (Exec.readyClass host t.id r.owner) m = (.ok (.runInitializer clinit), m₁))
      (hb : t.BeginsInitializer m₁ clinit x) : Starts x
  | entered {args : List Value} {m₁ : Machine} {g : Frame} (he : t.entry = some (r, args))
      (hr : outcome (Exec.readyClass host t.id r.owner) m = (.ok .ready, m₁))
      (hn : m₁.natives.lookup? r.owner.name r.method.name r.method.descriptor = none)
      (hg : Frame.enter r args .method = .ok g) :
    Starts (.ok (), { t with entry := none }.pushed g, m₁)
  | unentered {args : List Value} {m₁ : Machine} {e : EngineError} (he : t.entry = some (r, args))
      (hr : outcome (Exec.readyClass host t.id r.owner) m = (.ok .ready, m₁))
      (hn : m₁.natives.lookup? r.owner.name r.method.name r.method.descriptor = none)
      (hg : Frame.enter r args .method = .error e) :
    Starts (.error (.fatal e), { t with entry := none }, m₁)
  | unsplit {args : List Value} {m₁ : Machine} {native : Native} {e : Fault}
      (he : t.entry = some (r, args))
      (hr : outcome (Exec.readyClass host t.id r.owner) m = (.ok .ready, m₁))
      (hn : m₁.natives.lookup? r.owner.name r.method.name r.method.descriptor = some native)
      (hs : r.splitReceiver args = .error e) : Starts (.error e, { t with entry := none }, m₁)
  | failed {args others : List Value} {m₁ m₂ : Machine} {native : Native} {receiver : Option Ref}
      {e : Fault} (he : t.entry = some (r, args))
      (hr : outcome (Exec.readyClass host t.id r.owner) m = (.ok .ready, m₁))
      (hn : m₁.natives.lookup? r.owner.name r.method.name r.method.descriptor = some native)
      (hs : r.splitReceiver args = .ok (receiver, others))
      (hc : outcome (native.run host { owner := r.owner, receiver, args := others, thread := t.id })
        m₁ = (.error e, m₂)) : Starts (.error e, { t with entry := none }, m₂)
  | returned {args others : List Value} {m₁ m₂ : Machine} {native : Native} {receiver : Option Ref}
      {value : Option Value} (he : t.entry = some (r, args))
      (hr : outcome (Exec.readyClass host t.id r.owner) m = (.ok .ready, m₁))
      (hn : m₁.natives.lookup? r.owner.name r.method.name r.method.descriptor = some native)
      (hs : r.splitReceiver args = .ok (receiver, others))
      (hc : outcome (native.run host { owner := r.owner, receiver, args := others, thread := t.id })
        m₁ = (.ok value, m₂)) : Starts (.ok (), { t with entry := none }.ended (.returned value), m₂)

/-- Executing the instruction that the top frame `f` is at; `f'` is what became of the frame. -/
inductive Executes (rest : List Frame) : Except Fault Unit × Thread × Machine → Prop
  | failed {e : Fault} {f' : Frame} {m₁ : Machine}
      (hx : outcome (Frame.execute host t.id) (f, m) = (.error e, f', m₁)) :
    Executes rest (.error e, { t with frames := f' :: rest }, m₁)
  | advances {f' : Frame} {m₁ : Machine}
      (hx : outcome (Frame.execute host t.id) (f, m) = (.ok .advance, f', m₁)) :
    Executes rest (.ok (), { t with frames := f'.moved .advance :: rest }, m₁)
  | jumps {f' : Frame} {target : Nat} {m₁ : Machine}
      (hx : outcome (Frame.execute host t.id) (f, m) = (.ok (.jump target), f', m₁)) :
    Executes rest (.ok (), { t with frames := f'.moved (.jump target) :: rest }, m₁)
  | blocks {f' : Frame} {monitor : Ref} {m₁ : Machine}
      (hx : outcome (Frame.execute host t.id) (f, m) = (.ok (.block monitor), f', m₁)) :
    Executes rest (.ok (), { t with frames := f' :: rest }.blockedOn monitor, m₁)
  | awaits {f' : Frame} {c : Class} {m₁ : Machine}
      (hx : outcome (Frame.execute host t.id) (f, m) = (.ok (.awaitInit c), f', m₁)) :
    Executes rest (.ok (), { t with frames := f' :: rest }.awaiting c, m₁)
  | initializes {f' : Frame} {clinit : MethodRef} {m₁ : Machine}
      {x : Except Fault Unit × Thread × Machine}
      (hx : outcome (Frame.execute host t.id) (f, m) = (.ok (.runInitializer clinit), f', m₁))
      (hb : { t with frames := f' :: rest }.BeginsInitializer m₁ clinit x) : Executes rest x
  | invokes {f' : Frame} {method : MethodRef} {m₁ : Machine}
      {x : Except Fault Unit × Thread × Machine}
      (hx : outcome (Frame.execute host t.id) (f, m) = (.ok (.invoke method), f', m₁))
      (hi : { t with frames := f' :: rest }.Invokes host f' m₁ method x) : Executes rest x
  | returns {f' : Frame} {value : Option Value} {m₁ : Machine}
      {x : Except Fault Unit × Thread × Machine}
      (hx : outcome (Frame.execute host t.id) (f, m) = (.ok (.leave value), f', m₁))
      (hr : { t with frames := f' :: rest }.Returns f' m₁ value rest x) : Executes rest x

/-- One unit of work. -/
inductive Attempts : Except Fault Unit × Thread × Machine → Prop
  | reacquires {monitor : Ref} {count : Nat} {m₁ : Machine}
      (hr : t.reacquire = some (monitor, count))
      (he : outcome (Exec.tryEnter monitor t.id count) m = (.ok true, m₁)) :
    Attempts (.ok (), { t with reacquire := none }, m₁)
  | blocksAgain {monitor : Ref} {count : Nat} {m₁ : Machine}
      (hr : t.reacquire = some (monitor, count))
      (he : outcome (Exec.tryEnter monitor t.id count) m = (.ok false, m₁)) :
    Attempts (.ok (), t.blockedOn monitor, m₁)
  | dangling {monitor : Ref} {count : Nat} {e : Fault} (hr : t.reacquire = some (monitor, count))
      (he : outcome (Exec.tryEnter monitor t.id count) m = (.error e, m)) :
    Attempts (.error e, { t with reacquire := none }, m)
  | starts {r : MethodRef} {x : Except Fault Unit × Thread × Machine} (hr : t.reacquire = none)
      (hf : t.frames = []) (hs : t.Starts host m r x) : Attempts x
  | executes {f : Frame} {rest : List Frame} {x : Except Fault Unit × Thread × Machine}
      (hr : t.reacquire = none) (hf : t.frames = f :: rest) (hx : t.Executes host f m rest x) :
    Attempts x

/-! ## Work that is known -/

section Known

variable {host t f m r}
variable {rest : List Frame} {x : Except Fault Unit × Thread × Machine} {l : Ref} {m₁ m₂ : Machine}

/-- A thread with frames that has no monitor to take back executes an instruction. -/
theorem Attempts.executes_of (h : t.Attempts host m x) (hr : t.reacquire = none)
    (hf : t.frames = f :: rest) : t.Executes host f m rest x := by
  cases h with
  | executes _ hf' hx =>
    cases hf.symm.trans hf'
    exact hx
  | starts _ hf' => cases hf.symm.trans hf'
  | reacquires hr' => cases hr.symm.trans hr'
  | blocksAgain hr' => cases hr.symm.trans hr'
  | dangling hr' => cases hr.symm.trans hr'

/-- A thread that can take its monitor back does. -/
theorem Attempts.reacquires_of {count : Nat} (h : t.Attempts host m x)
    (hr : t.reacquire = some (l, count))
    (he : outcome (Exec.tryEnter l t.id count) m = (.ok true, m₁)) :
    x = (.ok (), { t with reacquire := none }, m₁) := by
  cases h with
  | reacquires hr' he' =>
    cases hr.symm.trans hr'
    cases he.symm.trans he'
    rfl
  | blocksAgain hr' he' =>
    cases hr.symm.trans hr'
    cases he.symm.trans he'
  | dangling hr' he' =>
    cases hr.symm.trans hr'
    cases he.symm.trans he'
  | starts hr' => cases hr.symm.trans hr'
  | executes hr' => cases hr.symm.trans hr'

/-- A call that needs no lock goes ahead without one. -/
theorem Invokes.unguarded_of (h : t.Invokes host f m r x) (hs : r.method.isSynchronized = false) :
    t.Calls host f m r none x := by
  cases h with
  | unguarded _ hc => exact hc
  | guarded hl =>
    cases hl with
    | held hs' => cases hs.symm.trans hs'
  | busy hl =>
    cases hl with
    | busy hs' => cases hs.symm.trans hs'
  | unlocked hl =>
    cases hl with
    | lockless hs' => cases hs.symm.trans hs'
    | dangling hs' => cases hs.symm.trans hs'

/-- A call whose lock can be entered goes ahead with it. -/
theorem Invokes.guarded_of (h : t.Invokes host f m r x) (hs : r.method.isSynchronized = true)
    (hl : outcome (r.lock f) m = (.ok l, m₁))
    (he : outcome (Exec.tryEnter l t.id 1) m₁ = (.ok true, m₂)) :
    t.Calls host f m₂ r (some l) x := by
  cases h with
  | guarded hl' hc =>
    cases hl' with
    | held _ hl' he' =>
      cases hl.symm.trans hl'
      cases he.symm.trans he'
      exact hc
  | unguarded hl' =>
    cases hl' with
    | unneeded hs' => cases hs.symm.trans hs'
  | busy hl' =>
    cases hl' with
    | busy _ hl' he' =>
      cases hl.symm.trans hl'
      cases he.symm.trans he'
  | unlocked hl' =>
    cases hl' with
    | lockless _ hl' => cases hl.symm.trans hl'
    | dangling _ hl' he' =>
      cases hl.symm.trans hl'
      cases he.symm.trans he'

end Known

end Thread

/-! ## All cases -/

namespace ThreadM

variable {t : Thread} {f : Frame} {rest : List Frame} {m : Machine} {r : MethodRef} {host : Host}

/-- Taking the lock of a synchronized method is finding the lock, and trying to enter it. -/
theorem outcome_takeLock (hf : t.frames = f :: rest) (hs : r.method.isSynchronized = true)
    (m : Machine) :
    outcome (takeLock r) (t, m) = outcome (do
      let l ← (r.lock f : Exec Ref)
      if ← (Exec.tryEnter l t.id 1 : Exec Bool) then return Locking.held l
      else return Locking.busy l : ThreadM Locking) (t, m) := by
  have enter (l : Ref) (m₁ : Machine) : outcome (do
      let id ← threadId
      if ← (Exec.tryEnter l id 1 : Exec Bool) then return Locking.held l
      else return Locking.busy l : ThreadM Locking) (t, m₁) = outcome (do
      if ← (Exec.tryEnter l t.id 1 : Exec Bool) then return Locking.held l
      else return Locking.busy l : ThreadM Locking) (t, m₁) := by
    rw [outcome_bind_ok (outcome_threadId _)]
  unfold takeLock MethodRef.lock
  cases hst : r.method.isStatic with
  | true =>
    simp only [hs, Bool.not_true, Bool.false_eq_true, if_false, if_true]
    rcases hl : outcome (Exec.classObject r.owner) m with ⟨e | l, m₁⟩
    · rw [outcome_thread_bind_error hl, outcome_thread_bind_error hl]
    · rw [outcome_thread_bind_ok hl, outcome_thread_bind_ok hl]
      exact enter l m₁
  | false =>
    simp only [hs, Bool.not_true, Bool.false_eq_true, if_false]
    rw [outcome_bind_ok (outcome_topFrame hf m)]
    cases hv : f.stack.peek (r.method.argumentCount - 1) with
    | error e => rfl
    | ok v =>
      have peeked {α : Type} (g : Value → Exec α) :
          outcome ((liftM (.ok v : Except EngineError Value) : Exec Value) >>= g) m =
            outcome (g v) m := rfl
      rw [outcome_engine_bind_ok]
      cases hl : v.asObject with
      | error e =>
        have hlock := peeked fun v => (liftM v.asObject : Exec Ref)
        rw [hl, outcome_liftExcept] at hlock
        rw [outcome_bind_error (outcome_liftExcept _ _), outcome_thread_bind_error hlock]
      | ok l =>
        have hlock := peeked fun v => (liftM v.asObject : Exec Ref)
        rw [hl, outcome_liftExcept] at hlock
        rw [outcome_bind_ok (outcome_liftExcept _ _), outcome_thread_bind_ok hlock]
        exact enter l m

theorem takeLock_locks (r : MethodRef) (hf : t.frames = f :: rest) (m : Machine) :
    t.Locks f m r (outcome (takeLock r) (t, m)) := by
  cases hs : r.method.isSynchronized with
  | false =>
    have unneeded : outcome (takeLock r) (t, m) = (.ok .unneeded, t, m) := by
      unfold takeLock
      simp [hs]
    rw [unneeded]
    exact .unneeded hs
  | true =>
    rw [outcome_takeLock hf hs]
    rcases hl : outcome (r.lock f) m with ⟨e | l, m₁⟩
    · rw [outcome_thread_bind_error hl]
      exact .lockless hs hl
    · rw [outcome_thread_bind_ok hl]
      rcases he : outcome (Exec.tryEnter l t.id 1) m₁ with ⟨e | b, m₂⟩
      · rw [outcome_thread_bind_error he]
        cases (Exec.tryEnter_requests l t.id 1 m₁).2 e m₂ he
        exact .dangling hs hl he
      · rw [outcome_thread_bind_ok he]
        cases b with
        | true => exact .held hs hl he
        | false => exact .busy hs hl he

section Arguments

variable {args : List Value} {stack : OperandStack}

/-- Calling a method that has no native, once its arguments are taken. -/
theorem callBytecode_calls (lock : Option Ref)
    (ha : f.stack.popArgs r.method.argumentCount = .ok (args, stack))
    (hn : m.natives.lookup? r.owner.name r.method.name r.method.descriptor = none) :
    t.Calls host f m r lock
      (outcome (callBytecode r args lock) (t.withTop { f with stack }, m)) := by
  unfold callBytecode
  rw [outcome_bind_ok (by rw [outcome_liftThread, outcome_get]),
    outcome_bind_ok (outcome_getThread _)]
  dsimp only [Thread.withTop]
  cases hc : callFailure? r t.depth m.config.maxCallDepth with
  | some fault =>
    dsimp only
    rw [outcome_bind_ok (outcome_releaseAll _ _ _), outcome_throw]
    exact .refused ha hn hc
  | none =>
    dsimp only
    cases he : Frame.enter r args .method with
    | error e =>
      rw [outcome_engine_bind_error]
      exact .unentered ha hn hc he
    | ok callee =>
      rw [outcome_engine_bind_ok, outcome_pushFrame]
      exact .entered ha hn hc he

/-- Calling a native, once its arguments are taken. -/
theorem callNative_calls {native : Native} (lock : Option Ref)
    (ha : f.stack.popArgs r.method.argumentCount = .ok (args, stack))
    (hn : m.natives.lookup? r.owner.name r.method.name r.method.descriptor = some native) :
    t.Calls host f m r lock
      (outcome (callNative host r native args lock) (t.withTop { f with stack }, m)) := by
  unfold callNative
  cases hs : r.splitReceiver args with
  | error e =>
    rw [outcome_bind_error (outcome_liftExcept _ _)]
    exact .unsplit ha hn hs
  | ok p =>
    obtain ⟨receiver, others⟩ := p
    rw [outcome_bind_ok (outcome_liftExcept _ _)]
    dsimp only
    rw [outcome_bind_ok (outcome_threadId _)]
    dsimp only
    rw [outcome_thread_bind_ok (outcome_attempt _ _), outcome_bind_ok (outcome_releaseAll _ _ _)]
    rcases hr : outcome (native.run host ⟨r.owner, receiver, others, t.id⟩) m with ⟨e | value, m₁⟩
    · have hr' : outcome (native.run host ⟨r.owner, receiver, others,
        (t.withTop { f with stack }).id⟩) m = (.error e, m₁) := hr
      rw [hr', outcome_bind_error (outcome_liftExcept _ _)]
      exact .failed ha hn hs hr
    · have hr' : outcome (native.run host ⟨r.owner, receiver, others,
        (t.withTop { f with stack }).id⟩) m = (.ok value, m₁) := hr
      rw [hr', outcome_bind_ok (outcome_liftExcept _ _), outcome_bind_ok (outcome_topFrame rfl _)]
      dsimp only
      have dropped (hv : r.result value = none) : t.Calls host f m r lock (outcome (do
          let stack ← (pure stack : ThreadM OperandStack)
          setTop { f with stack, pc := f.pc + 1 } : ThreadM Unit)
          (t.withTop { f with stack }, m₁.released t.id lock.toList)) := by
        rw [outcome_bind_ok (outcome_pure _ _), outcome_setTop]
        exact .returned ha hn hs hr (by rw [hv]; rfl)
      cases value with
      | none => exact dropped (by simp [MethodRef.result])
      | some v =>
        cases ht : r.method.type.returnType with
        | none => exact dropped (by simp [MethodRef.result, ht])
        | some type =>
          dsimp only
          have hv : r.result (some v) = some v := by simp [MethodRef.result, ht]
          cases hp : stack.push v with
          | error e =>
            rw [outcome_engine_bind_error]
            exact .overflowed ha hn hs hr hp
          | ok stack' =>
            rw [outcome_engine_bind_ok, outcome_setTop]
            exact .returned ha hn hs hr (by rw [hv]; exact hp)

end Arguments

theorem call_calls (r : MethodRef) (lock : Option Ref) (hf : t.frames = f :: rest) (m : Machine) :
    t.Calls host f m r lock (outcome (call host r lock) (t, m)) := by
  unfold call
  rw [outcome_bind_ok (outcome_topFrame hf m)]
  cases ha : f.stack.popArgs r.method.argumentCount with
  | error e =>
    rw [outcome_engine_bind_error]
    exact .starved ha
  | ok a =>
    obtain ⟨args, stack⟩ := a
    rw [outcome_engine_bind_ok]
    dsimp only
    rw [outcome_bind_ok (outcome_setTop _ _), outcome_bind_ok (outcome_nativeFor? r _ m)]
    cases hn : m.natives.lookup? r.owner.name r.method.name r.method.descriptor with
    | none => exact callBytecode_calls lock ha hn
    | some native => exact callNative_calls lock ha hn

theorem invoke_invokes (r : MethodRef) (hf : t.frames = f :: rest) (m : Machine) :
    t.Invokes host f m r (outcome (invoke host r) (t, m)) := by
  have hl := takeLock_locks r hf m
  unfold invoke
  rcases ho : outcome (takeLock r) (t, m) with ⟨e | l, t₁, m₁⟩ <;> rw [ho] at hl
  · rw [outcome_bind_error ho]
    cases hl with
    | lockless hs hl => exact .unlocked (.lockless hs hl)
    | dangling hs hl he => exact .unlocked (.dangling hs hl he)
  · rw [outcome_bind_ok ho]
    cases hl with
    | unneeded hs => exact .unguarded (.unneeded hs) (call_calls r none hf m)
    | busy hs hl he => exact .busy (.busy hs hl he)
    | held hs hl he => exact .guarded (.held hs hl he) (call_calls r (some _) hf m₁)

theorem returnFrom_returns (value : Option Value) (hf : t.frames = f :: rest) (m : Machine) :
    t.Returns f m value rest (outcome (returnFrom value) (t, m)) := by
  unfold returnFrom
  rw [outcome_bind_ok (outcome_topFrame hf m), outcome_bind_ok (outcome_getThread _), hf,
    List.tail_cons, outcome_bind_ok (outcome_leaveFrame f rest t m)]
  have resumed : t.Returns f m value rest
      (outcome (resume f.kind rest value) (t.left rest, m.left t.id f)) := by
    unfold resume
    cases rest with
    | nil =>
      rw [outcome_bind_ok (outcome_getThread _)]
      cases he : t.entry with
      | none => simpa [Thread.left, he] using Thread.Returns.ended he
      | some p => simpa [Thread.left, he] using Thread.Returns.started he
    | cons caller rest =>
      cases hk : f.kind with
      | classInit => exact .initialized hk
      | method =>
        dsimp only
        cases value with
        | none =>
          rw [outcome_bind_ok (outcome_pure _ _)]
          exact .returned hk rfl
        | some v =>
          dsimp only
          cases hv : caller.stack.push v with
          | error e =>
            rw [outcome_engine_bind_error]
            exact .overflowed hk hv
          | ok stack =>
            rw [outcome_engine_bind_ok]
            exact .returned hk hv
  cases hk : f.kind with
  | method =>
    have hm : m.left t.id f = m.released t.id f.monitors := by simp [Machine.left, hk]
    rw [hk, hm] at resumed
    simpa using resumed
  | classInit =>
    have hm : m.left t.id f = (m.released t.id f.monitors).withInit f.owner .done := by
      simp [Machine.left, hk]
    rw [hk, hm] at resumed
    simp only [if_true]
    rw [outcome_thread_bind_ok (Exec.outcome_setInit _ _ _)]
    exact resumed

theorem pushInitializer_begins (r : MethodRef) (t : Thread) (m : Machine) :
    t.BeginsInitializer m r (outcome (pushInitializer r) (t, m)) := by
  unfold pushInitializer
  cases he : Frame.enter r [] .classInit with
  | error e => exact .unentered he
  | ok g => exact .pushed he

theorem startEntry_starts (host : Host) (t : Thread) (m : Machine) :
    ∃ r, t.Starts host m r (outcome (startEntry host) (t, m)) := by
  unfold startEntry
  rw [outcome_bind_ok (outcome_getThread _)]
  cases he : t.entry with
  | none => exact ⟨default, .nothing he⟩
  | some p =>
    obtain ⟨r, args⟩ := p
    refine ⟨r, ?_⟩
    dsimp only
    rcases hr : outcome (Exec.readyClass host t.id r.owner) m with ⟨e | readiness, m₁⟩
    · rw [outcome_thread_bind_error hr]
      exact .unready he hr
    rw [outcome_thread_bind_ok hr]
    cases readiness with
    | runInitializer clinit => exact .initializes he hr (pushInitializer_begins clinit t m₁)
    | await c => exact .awaits he hr
    | ready =>
      dsimp only
      rw [outcome_bind_ok (outcome_modifyThread _ _), outcome_bind_ok (outcome_nativeFor? r _ m₁)]
      cases hn : m₁.natives.lookup? r.owner.name r.method.name r.method.descriptor with
      | none =>
        dsimp only
        cases hg : Frame.enter r args .method with
        | error e => exact .unentered he hr hn hg
        | ok g => exact .entered he hr hn hg
      | some native =>
        dsimp only
        cases hs : r.splitReceiver args with
        | error e =>
          rw [outcome_bind_error (outcome_liftExcept _ _)]
          exact .unsplit he hr hn hs
        | ok p =>
          obtain ⟨receiver, others⟩ := p
          rw [outcome_bind_ok (outcome_liftExcept _ _)]
          dsimp only
          rcases hc : outcome (native.run host ⟨r.owner, receiver, others, t.id⟩) m₁ with
            ⟨e | value, m₂⟩
          · rw [outcome_thread_bind_error hc]
            exact .failed he hr hn hs hc
          · rw [outcome_thread_bind_ok hc]
            exact .returned he hr hn hs hc

/-- Executing the instruction that the top frame is at. -/
theorem outcome_instruction (hf : t.frames = f :: rest) {f' : Frame} {next : Next} {m₁ : Machine}
    (hx : outcome (Frame.execute host t.id) (f, m) = (.ok next, f', m₁)) :
    outcome (instruction host t.id) (t, m) =
      (.ok next, { t with frames := f'.moved next :: rest }, m₁) := by
  have hi : outcome (instruction host t.id) (t, m) = _ := outcome_onTop _ hf m
  rw [outcome_bind_ok hx, outcome_bind_ok (outcome_modifyFrame _ _), outcome_pure] at hi
  exact hi

theorem runInstruction_executes (hf : t.frames = f :: rest) (m : Machine) :
    t.Executes host f m rest (outcome (runInstruction host) (t, m)) := by
  unfold runInstruction
  rw [outcome_bind_ok (outcome_threadId _)]
  rcases hx : outcome (Frame.execute host t.id) (f, m) with ⟨e | next, f', m₁⟩
  · have hi : outcome (instruction host t.id) (t, m) = _ := outcome_onTop _ hf m
    rw [outcome_bind_error hx] at hi
    rw [outcome_bind_error hi]
    exact .failed hx
  · rw [outcome_bind_ok (outcome_instruction hf hx)]
    cases next with
    | advance => exact .advances hx
    | jump target => exact .jumps hx
    | invoke method => exact .invokes hx (invoke_invokes method rfl m₁)
    | leave value => exact .returns hx (returnFrom_returns value rfl m₁)
    | block monitor => exact .blocks hx
    | awaitInit c => exact .awaits hx
    | runInitializer clinit => exact .initializes hx (pushInitializer_begins clinit _ m₁)

/-- A unit of work that comes to call a method is that call. -/
theorem outcome_tryStep_invoke (hr : t.reacquire = none) (hf : t.frames = f :: rest)
    {s : Thread × Machine}
    (h : outcome (instruction host t.id) (t, m) = (.ok (.invoke r), s)) :
    outcome (tryStep host) (t, m) = outcome (invoke host r) s := by
  unfold tryStep
  rw [outcome_bind_ok (outcome_getThread _)]
  simp only [hr, hf]
  unfold runInstruction
  rw [outcome_bind_ok (outcome_threadId _), outcome_bind_ok h]

/-- A unit of work that comes to leave the top frame is that return. -/
theorem outcome_tryStep_leave (hr : t.reacquire = none) (hf : t.frames = f :: rest)
    {value : Option Value} {s : Thread × Machine}
    (h : outcome (instruction host t.id) (t, m) = (.ok (.leave value), s)) :
    outcome (tryStep host) (t, m) = outcome (returnFrom value) s := by
  unfold tryStep
  rw [outcome_bind_ok (outcome_getThread _)]
  simp only [hr, hf]
  unfold runInstruction
  rw [outcome_bind_ok (outcome_threadId _), outcome_bind_ok h]

theorem tryReacquire_attempts {monitor : Ref} {count : Nat}
    (hr : t.reacquire = some (monitor, count)) (m : Machine) :
    t.Attempts host m (outcome (tryReacquire monitor count) (t, m)) := by
  unfold tryReacquire
  rw [outcome_bind_ok (outcome_modifyThread _ _), outcome_bind_ok (outcome_threadId _)]
  rcases he : outcome (Exec.tryEnter monitor t.id count) m with ⟨e | b, m₁⟩
  · rw [outcome_thread_bind_error he]
    cases (Exec.tryEnter_requests monitor t.id count m).2 e m₁ he
    exact .dangling hr he
  · rw [outcome_thread_bind_ok he]
    cases b with
    | true => exact .reacquires hr he
    | false =>
      have blocked : outcome (do
          blockOn monitor
          modifyThe Thread fun t => { t with reacquire := some (monitor, count) } : ThreadM Unit)
          ({ t with reacquire := none }, m₁) = (.ok (), t.blockedOn monitor, m₁) := by
        rw [outcome_bind_ok (outcome_blockOn _ _), outcome_modifyThread]
        simp [Thread.blockedOn, hr]
      simp only [Bool.not_false, if_true]
      rw [blocked]
      exact .blocksAgain hr he

/-- Whatever comes of a unit of work is one of the cases. -/
theorem tryStep_attempts (host : Host) (t : Thread) (m : Machine) :
    t.Attempts host m (outcome (tryStep host) (t, m)) := by
  unfold tryStep
  rw [outcome_bind_ok (outcome_getThread _)]
  cases hr : t.reacquire with
  | some p => exact tryReacquire_attempts hr m
  | none =>
    cases hf : t.frames with
    | nil =>
      obtain ⟨r, hs⟩ := startEntry_starts host t m
      exact .starts hr hf hs
    | cons f rest => exact .executes hr hf (runInstruction_executes hf m)

end ThreadM

end GreenVm
