/-
  Class initialization.

  A class is initialized before it is first used, its superclass before it.  The thread that comes
  first does it, other threads wait, and a failed initialization is never tried again.  An
  initializer in bytecode needs a frame of its own, so `readyClass` only says what must happen next;
  the instruction that needed the class runs again afterwards.
-/
import GreenVm.Library

namespace GreenVm

/-- What must happen before a class can be used. -/
inductive Readiness
  | ready
  /-- Another thread is initializing the class. -/
  | await (c : Class)
  /-- The initializer must run. -/
  | runInitializer (clinit : MethodRef)
  deriving Inhabited

namespace Exec

/-- Does some work and hands on how it went, failed or not. -/
def attempt {α : Type} (x : Exec α) : Exec (Except Fault α) := fun m =>
  let (r, m) := x.run m
  (.ok r, m)

/-- The value of a pool constant that a static field starts with. -/
def constantValue (c : Class) (index : Nat) : Exec Value := do
  match ← c.constant index with
  | .int v => return .int v
  | .float bits => return .float bits
  | .long v => return .long v
  | .double bits => return .double bits
  | .string text => return .ofRef (← intern text)
  | _ => throw (.fatal (.invalidConstant c.name index .constantValue))

/-- Sets the static fields that start with a constant. -/
def assignConstants (c : Class) : Exec Unit :=
  c.declared.staticFields.zipIdx.forM fun (f, i) =>
    match f.constantValue with
    | none => return ()
    | some index => do setStatic c i (← constantValue c index)

/-- Begins the initialization of a class whose superclass is ready. -/
def beginClass (host : Host) (thread : ThreadId) (c : Class) : Exec Readiness := do
  setInit c (.inProgress thread)
  match ← attempt (assignConstants c) with
  | .error fault =>
    setInit c .failed
    throw fault
  | .ok () =>
    match c.declaredMethod? "<clinit>" "()V", (← get).natives.lookup? c.name "<clinit>" "()V" with
    | none, _ =>
      setInit c .done
      return .ready
    | some clinit, none => return .runInitializer clinit
    | some _, some native =>
      match ← attempt (native.run host { owner := c, receiver := none, args := [], thread }) with
      | .ok _ =>
        setInit c .done
        return .ready
      | .error (.thrown t) =>
        setInit c .failed
        let r ← initializerFailure (← materialize t)
        throw (.thrown (.object r))
      | .error (.fatal e) => throw (.fatal e)

/-- Brings a class one step closer to use; `above` does so for its superclass. -/
def readyAfter (host : Host) (thread : ThreadId) (c : Class) (above : Exec Readiness) :
    Exec Readiness := do
  match (← classState c).init with
  | .done => return .ready
  | .inProgress owner => return if owner = thread then .ready else .await c
  | .failed => throw (.initializationFailed c.name)
  | .uninitialized =>
    match ← above with
    | .ready => beginClass host thread c
    | other => return other

/-- Brings a class one step closer to use by a thread. -/
def readyClass (host : Host) (thread : ThreadId) : Class → Exec Readiness
  | c@⟨_, none, _, _⟩ => readyAfter host thread c (return .ready)
  | c@⟨_, some s, _, _⟩ => readyAfter host thread c (readyClass host thread s)

end Exec

end GreenVm
