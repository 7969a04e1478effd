/-
  What can go wrong.

  * An `EngineError` is a violated rule of the machine itself; no program can catch it, and the
    thread it happens in is aborted.
  * A `Throwable` travels through a thread's frames until a handler takes it.  One raised by the
    machine stays symbolic, a class name and a message, until a handler or the owner of the thread
    needs the object.
  * A `Fault` is either.

  Every wording is here: `EngineError.message`, `Throwable.message`, and one definition per cause
  for what the machine throws.
-/
import GreenVm.ClassName
import GreenVm.Identity

namespace GreenVm

/-! ## Engine errors -/

/-- What an operation found, or wanted to find, in a place. -/
inductive Shape
  | int | long | float | double | reference | returnAddress | top
  | object | array | declaredField | foreignSlot
  | category1 | category2 | integral | floating
  | primitiveArray | matchingComponent | otherArray
  | stringObject | classObject | otherObject
  deriving DecidableEq, Repr, Inhabited

def Shape.text : Shape → String
  | int => "int"
  | long => "long"
  | float => "float"
  | double => "double"
  | reference => "reference"
  | returnAddress => "returnaddress"
  | top => "top"
  | object => "instance"
  | array => "array"
  | declaredField => "declared field"
  | foreignSlot => "foreign field slot"
  | category1 => "category 1 value"
  | category2 => "category 2 value"
  | integral => "integral value"
  | floating => "floating point value"
  | primitiveArray => "primitive array type"
  | matchingComponent => "matching array component type"
  | otherArray => "other array type"
  | stringObject => "java/lang/String"
  | classObject => "java/lang/Class"
  | otherObject => "other object"

/-- What a constant pool entry was needed as. -/
inductive ConstantRole
  | anyEntry | loadable | classReference | fieldReference | methodReference | constantValue
  | callSite
  deriving DecidableEq, Repr, Inhabited

def ConstantRole.text : ConstantRole → String
  | anyEntry => "a valid entry"
  | loadable => "a loadable constant"
  | classReference => "a class reference"
  | fieldReference => "a field reference"
  | methodReference => "a method reference"
  | constantValue => "a constant value"
  | callSite => "an invokedynamic"

/-- Why an exception table entry cannot be linked; offsets are byte offsets. -/
inductive HandlerDefect
  | strayStart (offset : Nat)
  | strayEnd (offset : Nat)
  | emptyRange (startOffset endOffset : Nat)
  | strayHandler (offset : Nat)
  deriving DecidableEq, Repr, Inhabited

def HandlerDefect.text : HandlerDefect → String
  | strayStart o => s!"start {o} is not an instruction"
  | strayEnd o => s!"end {o} is not an instruction"
  | emptyRange a b => s!"empty range [{a}, {b})"
  | strayHandler o => s!"handler {o} is not an instruction"

/-- What the machine does not do. -/
inductive Unsupported
  | offsetsNotAscending (method : String)
  | noBytecode (method : String)
  | argumentCount (method : String) (expected given : Nat)
  | nothingToRun (thread : ThreadId)
  | returnWithoutFrame
  | noFrame
  | missingField (key : String)
  | noDimensions (className : String)
  | builderNotConstructed
  | threadNotConstructed
  | streamNotAttached
  /-- A reason given by a host function. -/
  | host (reason : String)
  deriving DecidableEq, Repr, Inhabited

def Unsupported.text : Unsupported → String
  | offsetsNotAscending m => s!"instruction offsets of {m} are not ascending"
  | noBytecode m => s!"{m} has no bytecode"
  | argumentCount m expected given => s!"{m} takes {expected} arguments, {given} given"
  | nothingToRun t => s!"thread {t.display} has nothing to run"
  | returnWithoutFrame => "return without a frame"
  | noFrame => "thread has no frame"
  | missingField key => s!"field {key} is missing from the layout"
  | noDimensions name => s!"{name} with no dimensions"
  | builderNotConstructed => "StringBuilder used before its constructor ran"
  | threadNotConstructed => "Thread used before its constructor ran"
  | streamNotAttached => "PrintStream is not attached to a stream"
  | host reason => reason

/-- A violated rule of the machine. -/
inductive EngineError
  | stackUnderflow
  | stackOverflow (max : Nat)
  | invalidPc (pc length : Nat)
  | invalidLocal (index max : Nat)
  | typeMismatch (expected found : Shape)
  | malformedExceptionTable (method : String) (defect : HandlerDefect)
  | invalidBranchTarget (method : String) (target : Nat)
  | invalidConstant (owner : String) (index : Nat) (expected : ConstantRole)
  | unsupported (what : Unsupported)
  /-- The object of a symbolic throwable could not be made. -/
  | materialize (className reason : String)
  | noSuchThread (thread : ThreadId)
  /-- A reference that names no object. -/
  | danglingReference (object : Ref)
  deriving DecidableEq, Repr, Inhabited

def EngineError.message : EngineError → String
  | stackUnderflow => "operand stack underflow"
  | stackOverflow max => s!"operand stack overflow (max stack {max})"
  | invalidPc pc length => s!"pc {pc} is outside the {length} instructions of the method"
  | invalidLocal index max => s!"local variable {index} is outside the {max} local slots"
  | typeMismatch expected found => s!"expected {expected.text} but found {found.text}"
  | malformedExceptionTable method defect =>
    s!"malformed exception table in {method}: {defect.text}"
  | invalidBranchTarget method target =>
    s!"branch target {target} in {method} is not an instruction offset"
  | invalidConstant owner index expected =>
    s!"constant pool entry {index} of {owner} is not {expected.text}"
  | unsupported what => s!"unsupported: {what.text}"
  | materialize className reason => s!"could not materialize {className}: {reason}"
  | noSuchThread thread => s!"no such thread {thread.display}"
  | danglingReference object => s!"no object has the number {object.index}"

/-- What an error is called. -/
def EngineError.name : EngineError → String
  | stackUnderflow => "StackUnderflow"
  | stackOverflow _ => "StackOverflow"
  | invalidPc .. => "InvalidPc"
  | invalidLocal .. => "InvalidLocal"
  | typeMismatch .. => "TypeMismatch"
  | malformedExceptionTable .. => "MalformedExceptionTable"
  | invalidBranchTarget .. => "InvalidBranchTarget"
  | invalidConstant .. => "InvalidConstant"
  | unsupported _ => "Unsupported"
  | materialize .. => "Materialize"
  | noSuchThread _ => "NoSuchThread"
  | danglingReference _ => "DanglingReference"

/-! ## Throwables -/

/-- What travels through the frames of a thread. -/
inductive Throwable
  | symbolic (className : String) (message : Option String)
  | object (ref : Ref)
  deriving DecidableEq, Repr, Inhabited

/-- What can stop an operation. -/
inductive Fault
  | thrown (t : Throwable)
  | fatal (e : EngineError)
  deriving DecidableEq, Repr, Inhabited

/-- A class name, and the message if there is one, as a throwable is shown. -/
def throwableText (className : String) (message : Option String) : String :=
  match message with
  | some m => s!"{dotted className}: {m}"
  | none => dotted className

namespace Fault

def mismatch (expected found : Shape) : Fault := fatal (.typeMismatch expected found)

/-- A throwable of the machine's own, with a message. -/
def raise (className message : String) : Fault := thrown (.symbolic className (some message))

/-- A throwable of the machine's own, without a message. -/
def raiseBare (className : String) : Fault := thrown (.symbolic className none)

/-! ### Loading and linking -/

def classNotFound (name : String) : Fault := raise ClassName.noClassDefFound name

def wrongClassName (asked served : String) : Fault :=
  raise ClassName.noClassDefFound s!"{asked} (wrong name: {served})"

def initializationFailed (name : String) : Fault :=
  raise ClassName.noClassDefFound s!"Could not initialize class {dotted name}"

def classCircularity (name : String) : Fault := raise ClassName.classCircularity name

def noSuperclass (name : String) : Fault :=
  raise ClassName.classFormat s!"{name} has no superclass"

def invalidFieldDescriptor (descriptor : String) : Fault :=
  raise ClassName.classFormat s!"invalid field descriptor {descriptor}"

def invalidMethodDescriptor (descriptor : String) : Fault :=
  raise ClassName.classFormat s!"invalid method descriptor {descriptor}"

def invalidDescriptorOfField (descriptor className field : String) : Fault :=
  raise ClassName.classFormat s!"invalid descriptor {descriptor} for field {className}.{field}"

def invalidDescriptorOfMethod (method : String) : Fault :=
  raise ClassName.classFormat s!"invalid descriptor of {method}"

def unwantedCode (method : String) : Fault :=
  raise ClassName.classFormat s!"native or abstract {method} has code"

def missingCode (method : String) : Fault :=
  raise ClassName.classFormat s!"{method} has no code"

def superclassIsInterface (name superName : String) : Fault :=
  raise ClassName.incompatibleClassChange s!"class {name} has interface {superName} as super class"

def notAnInterface (name interfaceName : String) : Fault :=
  raise ClassName.incompatibleClassChange
    s!"class {name} can not implement {interfaceName}, because it is not an interface"

/-- A class declares a native method nobody provides. -/
def nativeMissing (className name descriptor : String) : Fault :=
  raise ClassName.unsatisfiedLink s!"'{descriptor}' {className}.{name}"

/-! ### Members and calls -/

def noSuchFieldKey (className key : String) : Fault :=
  raise ClassName.noSuchField s!"{className}.{key}"

def noSuchField (name : String) : Fault := raise ClassName.noSuchField name

def staticFieldExpected : Fault := raise ClassName.incompatibleClassChange "Expected static field"

def instanceFieldExpected : Fault :=
  raise ClassName.incompatibleClassChange "Expected non-static field"

def foreignField (holder declaring : String) : Fault :=
  raise ClassName.incompatibleClassChange
    s!"class {dotted holder} has no field declared by {dotted declaring}"

def noSuchEntryMethod (className name descriptor : String) : Fault :=
  raise ClassName.noSuchMethod s!"{className}.{name}{descriptor}"

def noSuchMethod (className name descriptor : String) : Fault :=
  raise ClassName.noSuchMethod s!"'{descriptor} {dotted className}.{name}'"

def noRunMethod : Fault := raise ClassName.noSuchMethod "run"

def entryNotStatic (method : String) : Fault :=
  raise ClassName.incompatibleClassChange s!"{method} is not static"

def staticMethodExpected (method : String) : Fault :=
  raise ClassName.incompatibleClassChange s!"Expected static method '{method}'"

def instanceMethodExpected (method : String) : Fault :=
  raise ClassName.incompatibleClassChange s!"Expecting non-static method '{method}'"

def interfaceNotImplemented (receiver interfaceName : String) : Fault :=
  raise ClassName.incompatibleClassChange
    s!"class {dotted receiver} does not implement the requested interface {dotted interfaceName}"

def abstractMethod (method : String) : Fault := raise ClassName.abstractMethod method

def unsatisfiedLink (method : String) : Fault := raise ClassName.unsatisfiedLink method

def callStackOverflow : Fault := raiseBare ClassName.stackOverflow

def noBootstrap (callSite : String) : Fault :=
  raise ClassName.bootstrapMethod s!"call site '{callSite}' has no bootstrap support"

def methodHandleConstant : Fault :=
  raise ClassName.bootstrapMethod "method handle constants are not supported"

/-! ### Objects, arrays and arithmetic -/

def nullPointer : Fault := raiseBare ClassName.nullPointer

def divisionByZero : Fault := raise ClassName.arithmeticException "/ by zero"

def notInstantiable (className : String) : Fault := raise ClassName.instantiation className

def classCast (className target : String) : Fault :=
  raise ClassName.classCast s!"class {dotted className} cannot be cast to class {dotted target}"

def negativeArraySize (length : Int) : Fault :=
  raise ClassName.negativeArraySize (toString length)

/-- The wording for an index that is out of range. -/
def indexText (index : Int) (length : Nat) : String :=
  s!"Index {index} out of bounds for length {length}"

def arrayIndex (index : Int) (length : Nat) : Fault :=
  raise ClassName.arrayIndexOutOfBounds (indexText index length)

def stringIndex (index : Int) (length : Nat) : Fault :=
  raise ClassName.stringIndexOutOfBounds (indexText index length)

def arrayStore (elementClass : String) : Fault := raise ClassName.arrayStore (dotted elementClass)

def copyNotArray : Fault := raise ClassName.arrayStore "arraycopy: argument is not an array"

def copyTypeMismatch (source target : String) : Fault :=
  raise ClassName.arrayStore
    s!"arraycopy: type mismatch: can not copy {source}[] into {target}[]"

def copyElementMismatch : Fault := raise ClassName.arrayStore "arraycopy: element type mismatch"

def copyNegativeLength (length : Int) : Fault :=
  raise ClassName.arrayIndexOutOfBounds s!"arraycopy: length {length} is negative"

def copySourceRange (last : Int) (length : Nat) : Fault :=
  raise ClassName.arrayIndexOutOfBounds
    s!"arraycopy: last source index {last} out of bounds for length {length}"

def copyTargetRange (last : Int) (length : Nat) : Fault :=
  raise ClassName.arrayIndexOutOfBounds
    s!"arraycopy: last destination index {last} out of bounds for length {length}"

def cloneNotSupported (className : String) : Fault :=
  raise ClassName.cloneNotSupported (dotted className)

/-! ### Threads and monitors -/

def notOwner : Fault := raise ClassName.illegalMonitorState "current thread is not owner"

def negativeTimeout : Fault := raise ClassName.illegalArgument "timeout value is negative"

def alreadyStarted : Fault := raiseBare ClassName.illegalThreadState

end Fault

/-- Engine errors stop operations that may also throw. -/
instance : MonadLift (Except EngineError) (Except Fault) where
  monadLift x := x.mapError Fault.fatal

end GreenVm
