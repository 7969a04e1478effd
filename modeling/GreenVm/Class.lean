/-
  Linked classes.

  A `Class` is a tree: what the class itself declares, its superclass, its interfaces, and for
  arrays of references the class of the elements.  There is one class per name, so classes are the
  same when their names are.  What changes while a program runs, the values of static fields and
  the progress of initialization, is a `ClassState` and is kept apart.

  * `Class.select?` is the method a call by name and descriptor reaches among the callable ones: own
    methods over inherited ones, and default methods of interfaces where there is no other.
  * `Class.findMethod?` also finds constructors, initializers, private and static methods.
-/
import GreenVm.Code
import GreenVm.Descriptor
import GreenVm.Value

namespace GreenVm

/-! ## Members -/

/-- A linked field declaration. -/
structure Field where
  name : String
  type : FieldType
  descriptor : String
  /-- Pool index of the value a static field starts with. -/
  constantValue : Option Nat
  deriving DecidableEq, Repr, Inhabited

namespace Field

def isNamed (f : Field) (name descriptor : String) : Bool :=
  f.name == name && f.descriptor == descriptor

/-- `name:descriptor`. -/
def key (f : Field) : String := f.name ++ ":" ++ f.descriptor

/-- `Declaring.name:descriptor`. -/
def qualifiedKey (className : String) (f : Field) : String := className ++ "." ++ f.key

end Field

/-- A linked method declaration. -/
structure Method where
  flags : AccessFlags
  name : String
  type : MethodDescriptor
  descriptor : String
  code : Option Code
  deriving DecidableEq, Repr, Inhabited

namespace Method

def isStatic (m : Method) : Bool := m.flags.has .staticMember
def isNative (m : Method) : Bool := m.flags.has .native
def isAbstract (m : Method) : Bool := m.flags.has .abstract
def isPrivate (m : Method) : Bool := m.flags.has .privateAccess
def isSynchronized (m : Method) : Bool := m.flags.has .synchronized

/-- Whether calls select the method by the class of the receiver. -/
def isVirtual (m : Method) : Bool :=
  !m.isStatic && !m.isPrivate && m.name != "<init>" && m.name != "<clinit>"

def isNamed (m : Method) (name descriptor : String) : Bool :=
  m.name == name && m.descriptor == descriptor

/-- Name and descriptor in one, by which calls select. -/
def key (m : Method) : String := m.name ++ m.descriptor

/-- Operand stack entries a call takes, the receiver included. -/
def argumentCount (m : Method) : Nat :=
  m.type.parameters.length + if m.isStatic then 0 else 1

end Method

/-! ## Classes -/

/-- What a class declares itself. -/
structure Declaration where
  name : String
  flags : AccessFlags
  pool : List Constant
  staticFields : List Field
  instanceFields : List Field
  methods : List Method
  /-- The component type of an array class. -/
  component : Option FieldType
  sourceFile : Option String
  deriving DecidableEq, Repr, Inhabited

/-- A linked class. -/
structure Class where
  declared : Declaration
  superClass : Option Class
  interfaces : List Class
  /-- The class of the elements of an array of references. -/
  element : Option Class
  deriving Inhabited

/-- A method together with the class that declares it. -/
structure MethodRef where
  owner : Class
  method : Method
  deriving Inhabited

/-- `Class.name(descriptor)`. -/
def MethodRef.qualifiedName (r : MethodRef) : String :=
  r.owner.declared.name ++ "." ++ r.method.name ++ r.method.descriptor

namespace Class

def name (c : Class) : String := c.declared.name

def isInterface (c : Class) : Bool := c.declared.flags.has .interface
def isAbstract (c : Class) : Bool := c.declared.flags.has .abstract
def isArray (c : Class) : Bool := isArrayName c.name

/-- The pool entry at an index. -/
def constant (c : Class) (index : Nat) : Except EngineError Constant :=
  match poolEntry? c.declared.pool index with
  | some k => .ok k
  | none => .error (.invalidConstant c.name index .anyEntry)

/-- The class and its superclasses, the class first. -/
def lineage : Class → List Class
  | c@⟨_, some s, _, _⟩ => c :: s.lineage
  | c@⟨_, none, _, _⟩ => [c]

/-! ## Above a class -/

mutual

/-- The class and what is above it along interfaces, and along superclasses too if `up` says so:
    depth first, and each class once, where it is met first.  Classes named in `seen` are left out
    together with what is above them. -/
def reached (up : Bool) (seen : List String) : Class → List Class
  | c@⟨declared, superClass, interfaces, _⟩ =>
    if declared.name ∈ seen then []
    else
      let offered := reachedAmong up seen interfaces
      c :: (offered ++ if up then reachedAbove up (offered.map name ++ seen) superClass else [])

/-- What is reached from some classes, in their order. -/
def reachedAmong (up : Bool) (seen : List String) : List Class → List Class
  | [] => []
  | c :: cs =>
    let first := reached up seen c
    first ++ reachedAmong up (first.map name ++ seen) cs

/-- What is reached from a superclass, if there is one. -/
def reachedAbove (up : Bool) (seen : List String) : Option Class → List Class
  | none => []
  | some c => reached up seen c

end

/-- The class and its interfaces, those of its interfaces included. -/
def withInterfaces (c : Class) : List Class := c.reached false []

/-- The interfaces of the class, those of its interfaces included. -/
def allInterfaces (c : Class) : List Class := reachedAmong false [] c.interfaces

/-- The class and every class and interface above it. -/
def ancestors (c : Class) : List Class := c.reached true []

/-! ## Methods -/

/-- The first declared method of exactly that name and descriptor. -/
def declaredMethod? (c : Class) (name descriptor : String) : Option MethodRef :=
  (c.declared.methods.find? (·.isNamed name descriptor)).map (⟨c, ·⟩)

/-- The callable method declared under a key; of several the last. -/
def ownSelected? (c : Class) (key : String) : Option MethodRef :=
  ((c.declared.methods.filter fun m => m.isVirtual && m.key == key).getLast?).map (⟨c, ·⟩)

/-- The methods that the interfaces of the class offer under a key. -/
def offered (c : Class) (key : String) : List MethodRef :=
  c.allInterfaces.filterMap (·.ownSelected? key)

/-- The first method that is not abstract, or else the first. -/
def firstConcrete? (rs : List MethodRef) : Option MethodRef :=
  (rs.find? (!·.method.isAbstract)).or rs.head?

/-- The method a call by key reaches on an object of the class, given the one it inherits: an own
    one before an inherited one, and what interfaces offer if there is none or an abstract one.
    Interfaces do not inherit the methods of their superclass, and arrays only have those of
    theirs. -/
def selectOver (c : Class) (key : String) (inherited : Option MethodRef) : Option MethodRef :=
  if c.declared.component.isSome then inherited
  else
    let inherited := if c.isInterface then none else inherited
    match (c.ownSelected? key).or inherited with
    | none => firstConcrete? (c.offered key)
    | some r => if r.method.isAbstract then firstConcrete? (r :: c.offered key) else some r

/-- The method a call by key reaches on an object of the class. -/
def select? (key : String) : Class → Option MethodRef
  | c@⟨_, some s, _, _⟩ => c.selectOver key (s.select? key)
  | c@⟨_, none, _, _⟩ => c.selectOver key none

/-- The method a name and descriptor mean in the class, what it inherits without being able to call
    it aside: a callable one, else one declared here. -/
def findHere? (c : Class) (name descriptor : String) : Option MethodRef :=
  (c.select? (name ++ descriptor)).or (c.declaredMethod? name descriptor)

/-- The method a name and descriptor mean in a class: the one they mean there, else the one they mean
    in the superclass. -/
def findMethod? (name descriptor : String) : Class → Option MethodRef
  | c@⟨_, some s, _, _⟩ => (c.findHere? name descriptor).or (s.findMethod? name descriptor)
  | c@⟨_, none, _, _⟩ => c.findHere? name descriptor

/-! ## Static fields -/

/-- The index of a static field the class declares. -/
def staticIndex? (c : Class) (name descriptor : String) : Option Nat :=
  c.declared.staticFields.findIdx? (·.isNamed name descriptor)

/-- Splits `name:descriptor` at the first colon. -/
def splitKey? (key : String) : Option (String × String) :=
  match key.toList.dropWhile (· != ':') with
  | [] => none
  | _ :: rest => some (String.ofList (key.toList.takeWhile (· != ':')), String.ofList rest)

/-- The index of the static field with a key `name:descriptor`. -/
def staticIndexOfKey? (c : Class) (key : String) : Option Nat :=
  match splitKey? key with
  | some (name, descriptor) => c.staticIndex? name descriptor
  | none => none

end Class

/-! ## State -/

/-- How far the initialization of a class has come. -/
inductive InitState
  | uninitialized
  | inProgress (thread : ThreadId)
  | done
  | failed
  deriving DecidableEq, Repr, Inhabited

/-- What changes in a class while the program runs. -/
structure ClassState where
  init : InitState
  statics : Array Value
  deriving Repr, Inhabited

/-- The state in which a class is defined: static fields hold their defaults, and an array class
    has nothing to initialize. -/
def ClassState.initial (c : Class) : ClassState :=
  { init := if c.isArray then .done else .uninitialized
    statics := (c.declared.staticFields.map fun f => Value.default f.type).toArray }

end GreenVm
