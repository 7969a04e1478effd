/-
  The machine: everything the threads of one virtual machine share.

  `Machine` is that state and `Exec` is work on it that can fail; what was done before a failure
  stays done.  The operations here load classes, keep the state of classes, allocate objects, and
  keep the objects that must be unique: interned strings, the object of each class, and the object
  of each thread.
-/
import GreenVm.Loader
import GreenVm.Thread

namespace GreenVm

/-! ## State -/

/-- What can be chosen about a machine. -/
structure Config where
  /-- Calls deeper than this raise `StackOverflowError`. -/
  maxCallDepth : Nat := 1024
  /-- Refuse classes with a native method that nobody provides when they are loaded, and not when
      the method is called. -/
  eagerNativeLinking : Bool := true
  /-- Keep a record of every turn. -/
  recordTrace : Bool := false
  /-- Keep what programs print. -/
  captureOutput : Bool := false
  /-- Stop after so many turns. -/
  maxTurns : Option Nat := none
  deriving DecidableEq, Repr, Inhabited

/-- What the threads of a machine share. -/
structure Machine where
  config : Config
  classPath : Table String ClassFile
  /-- Nanoseconds since the epoch, as programs are told. -/
  wallClock : Nat := 0
  loaded : Loaded := .empty
  classStates : Table String ClassState := .empty
  heap : Heap := {}
  natives : Natives := {}
  interned : Table String Ref := .empty
  classObjects : Table String Ref := .empty
  threadObjects : Table ThreadId Ref := .empty
  nextThread : Nat := 0
  out : String := ""
  err : String := ""
  /-- What the step under way has asked of the scheduler; nothing between turns. -/
  requests : Requests := {}
  deriving Inhabited

/-- Work on the machine. -/
abbrev Exec := ExceptT Fault (StateM Machine)

/-- A native call: the class that declares the method, the receiver, which static methods lack, the
    other arguments, and the calling thread. -/
structure NativeCall where
  owner : Class
  receiver : Option Ref
  args : List Value
  thread : ThreadId
  deriving Inhabited

/-- The functions of the embedder, by name.  A result is pushed on the caller's stack unless the
    method returns `void`. -/
abbrev Host := String → NativeCall → Exec (Option Value)

namespace Exec

/-! ## Classes -/

/-- Where the machine finds classes. -/
def sources (m : Machine) : Sources :=
  { classPath := m.classPath, natives := m.natives, eager := m.config.eagerNativeLinking }

/-- The class of a name, defined on first use. -/
def loadClass (name : String) : Exec Class := fun m =>
  let (result, loaded) := (Loader.load (sources m) [] name).run m.loaded
  (result, { m with loaded })

/-- The state of a class. -/
def stateOf (m : Machine) (c : Class) : ClassState :=
  (m.classStates.get? c.name).getD (.initial c)

def classState (c : Class) : Exec ClassState := return stateOf (← get) c

def setClassState (c : Class) (s : ClassState) : Exec Unit :=
  modify fun m => { m with classStates := m.classStates.put c.name s }

def setInit (c : Class) (init : InitState) : Exec Unit := do
  setClassState c { ← classState c with init }

/-- The value of a static field. -/
def getStatic (c : Class) (index : Nat) : Exec Value :=
  return (← classState c).statics[index]?.getD .top

def setStatic (c : Class) (index : Nat) (v : Value) : Exec Unit := do
  let s ← classState c
  setClassState c { s with statics := s.statics.setIfInBounds index v }

/-- Sets the static field with a key `name:descriptor`; whether there is one. -/
def putStaticByKey (c : Class) (key : String) (v : Value) : Exec Bool := do
  match c.staticIndexOfKey? key with
  | none => return false
  | some index => setStatic c index v; return true

/-! ## Objects -/

/-- The object a reference names. -/
def object (r : Ref) : Exec Object := do
  match (← get).heap.get? r with
  | some o => return o
  | none => throw (.fatal (.danglingReference r))

/-- The class of an object. -/
def typeOf (r : Ref) : Exec Class := return (← object r).type

/-- Changes an object. -/
def updateObject (r : Ref) (f : Object → Object) : Exec Unit :=
  modify fun m => { m with heap := m.heap.update r f }

def setObject (r : Ref) (o : Object) : Exec Unit := updateObject r fun _ => o

def updatePayload (r : Ref) (f : Payload → Payload) : Exec Unit := do
  discard <| object r
  updateObject r fun o => { o with payload := f o.payload }

def getField (r : Ref) (key : String) : Exec Value := do
  (← object r).getField key

def putField (r : Ref) (key : String) (v : Value) : Exec Unit := do
  setObject r (← (← object r).putField key v)

def arrayLoad (r : Ref) (index : Int32) : Exec Value := do
  (← object r).arrayLoad index

def arrayStore (r : Ref) (index : Int32) (v : Value) : Exec Unit := do
  let place ← (← object r).elementPlace index
  updateObject r (·.setElement place v)

/-- Does something to the monitor of an object. -/
def withMonitor {α : Type} (r : Ref) (f : Monitor → Except Fault (α × Monitor)) : Exec α := do
  let o ← object r
  let (a, monitor) ← f o.monitor
  setObject r { o with monitor }
  return a

/-- Takes a monitor so many times; whether it could be taken. -/
def tryEnter (r : Ref) (t : ThreadId) (count : Nat) : Exec Bool :=
  withMonitor r fun m => .ok (m.tryEnter t count)

/-! ## Allocation -/

def allocate (o : Object) : Exec Ref :=
  modifyGet fun m => let (r, heap) := m.heap.allocate o; (r, { m with heap })

/-- A new object of a class that is neither abstract nor an interface. -/
def instantiate (c : Class) : Exec Ref :=
  if c.isInterface || c.isAbstract then throw (.notInstantiable c.name)
  else allocate (.ofClass c {})

/-- A new array of an array class. -/
def instantiateArray (c : Class) (length : Int32) : Exec Ref :=
  if length < 0 then throw (.negativeArraySize length.toInt)
  else allocate (.ofArrayClass c length.toInt.toNat)

def newObject (className : String) : Exec Ref := do instantiate (← loadClass className)

/-- A new array of the array class of that name, such as `[I`. -/
def newArray (className : String) (length : Int32) : Exec Ref := do
  instantiateArray (← loadClass className) length

/-- A copy of an object under an identity of its own. -/
def cloneObject (r : Ref) : Exec Ref := do allocate (← object r).duplicate

/-! ### Strings and class objects -/

def newString (text : String) : Exec Ref := do
  let c ← loadClass ClassName.string
  allocate (.ofClass c { text := some text })

/-- The one string object for a text. -/
def intern (text : String) : Exec Ref := do
  let c ← loadClass ClassName.string
  match (← get).interned.get? text with
  | some r => return r
  | none =>
    let r ← allocate (.ofClass c { text := some text })
    modify fun m => { m with interned := m.interned.put text r }
    return r

/-- The one object that stands for a class. -/
def classObject (c : Class) : Exec Ref := do
  let classClass ← loadClass ClassName.classObject
  match (← get).classObjects.get? c.name with
  | some r => return r
  | none =>
    let r ← allocate (.ofClass classClass { represents := some c })
    modify fun m => { m with classObjects := m.classObjects.put c.name r }
    return r

/-- The contents of a string object. -/
def textOf (r : Ref) : Exec String := do
  match (← object r).payload.text with
  | some text => return text
  | none => throw (.mismatch .stringObject .otherObject)

/-! ## Threads -/

def issueThreadId : Exec ThreadId :=
  modifyGet fun m => (⟨m.nextThread⟩, { m with nextThread := m.nextThread + 1 })

/-- The name of a thread that was not given one. -/
def defaultThreadName (t : ThreadId) : String := "Thread-" ++ toString t.index

def threadNameKey : String := "java/lang/Thread.name:Ljava/lang/String;"
def threadTargetKey : String := "java/lang/Thread.target:Ljava/lang/Runnable;"

/-- Makes an object stand for a thread. -/
def bindThread (t : ThreadId) (r : Ref) : Exec Unit := do
  updatePayload r ({ · with thread := some t })
  modify fun m => { m with threadObjects := m.threadObjects.put t r }

/-- A new object that stands for a thread. -/
def newThreadObject (t : ThreadId) (name : String) : Exec Ref := do
  let r ← newObject ClassName.thread
  let text ← newString name
  putField r threadNameKey (.ofRef text)
  bindThread t r
  return r

/-- The object that stands for a thread, made on first request. -/
def threadObject (t : ThreadId) : Exec Ref := do
  match (← get).threadObjects.get? t with
  | some r => return r
  | none => newThreadObject t (defaultThreadName t)

/-! ## Output and requests -/

/-- Prints, if the machine keeps what is printed. -/
def print (stream : Stream) (text : String) : Exec Unit :=
  modify fun m =>
    if m.config.captureOutput then
      match stream with
      | .out => { m with out := m.out ++ text }
      | .err => { m with err := m.err ++ text }
    else m

def request (f : Requests → Requests) : Exec Unit :=
  modify fun m => { m with requests := f m.requests }

/-- Reports threads promoted to successor of a monitor. -/
def wake (ts : List ThreadId) : Exec Unit := request fun q => { q with woken := q.woken ++ ts }

/-- Reports threads taken out of a wait set. -/
def reportNotified (ts : List ThreadId) : Exec Unit :=
  request fun q => { q with notified := q.notified ++ ts }

def spawn (t : Thread) : Exec Unit := request fun q => { q with spawned := q.spawned ++ [t] }

def suspend (s : Suspend) : Exec Unit := request fun q => { q with suspend := some s }

/-- Ends the program once the step is over. -/
def exit (status : Int32) : Exec Unit := request fun q => { q with exit := some status }

/-- Releases a monitor, if the thread holds it. -/
def release (t : ThreadId) (r : Ref) : Exec Unit := do
  match (← get).heap.get? r with
  | none => return ()
  | some o =>
    match o.monitor.exit t with
    | .error _ => return ()
    | .ok (promoted, monitor) =>
      setObject r { o with monitor }
      wake promoted.toList

end Exec

namespace NativeCall

/-- An argument; a missing one is as if the stack ended. -/
def arg (call : NativeCall) (i : Nat) : Except EngineError Value :=
  match call.args[i]? with
  | some v => .ok v
  | none => .error .stackUnderflow

/-- The receiver. -/
def this (call : NativeCall) : Except Fault Ref :=
  match call.receiver with
  | some r => .ok r
  | none => .error .nullPointer

/-- The contents of a string argument; `none` for null. -/
def stringArg (call : NativeCall) (i : Nat) : Exec (Option String) := do
  match ← (← call.arg i).asReference with
  | some r => some <$> Exec.textOf r
  | none => return none

end NativeCall

namespace Machine

/-- A machine that has loaded nothing yet. -/
def boot (config : Config) (classPath : Table String ClassFile) (wallClock : Nat) : Machine :=
  { config, classPath, wallClock, natives := Library.natives }

/-- What has been printed to a stream. -/
def output (m : Machine) : Stream → String
  | .out => m.out
  | .err => m.err

end Machine

end GreenVm
