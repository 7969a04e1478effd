/-
  Internal class names: the names of the classes the machine itself knows about, and the dotted
  form in which a name is shown to people.

  A name is plain text: `java/lang/String` for a class, `[I` or `[Ljava/lang/String;` for an array.
-/
namespace GreenVm

/-- A class name as messages show it: every `/` becomes a `.`. -/
def dotted (name : String) : String :=
  name.map fun c => if c = '/' then '.' else c

/-- Whether a name is that of an array class. -/
def isArrayName (name : String) : Bool :=
  name.toList.head? == some '['

namespace ClassName

/-! ## Classes with a role in the machine -/

def object : String := "java/lang/Object"
def classObject : String := "java/lang/Class"
def string : String := "java/lang/String"
def stringBuilder : String := "java/lang/StringBuilder"
def system : String := "java/lang/System"
def thread : String := "java/lang/Thread"
def runnable : String := "java/lang/Runnable"
def cloneable : String := "java/lang/Cloneable"
def serializable : String := "java/io/Serializable"
def printStream : String := "java/io/PrintStream"

/-! ## Throwables -/

def throwable : String := "java/lang/Throwable"
def exception : String := "java/lang/Exception"
def error : String := "java/lang/Error"
def runtimeException : String := "java/lang/RuntimeException"
def arithmeticException : String := "java/lang/ArithmeticException"
def indexOutOfBounds : String := "java/lang/IndexOutOfBoundsException"
def arrayIndexOutOfBounds : String := "java/lang/ArrayIndexOutOfBoundsException"
def stringIndexOutOfBounds : String := "java/lang/StringIndexOutOfBoundsException"
def negativeArraySize : String := "java/lang/NegativeArraySizeException"
def nullPointer : String := "java/lang/NullPointerException"
def classCast : String := "java/lang/ClassCastException"
def arrayStore : String := "java/lang/ArrayStoreException"
def illegalArgument : String := "java/lang/IllegalArgumentException"
def illegalState : String := "java/lang/IllegalStateException"
def illegalMonitorState : String := "java/lang/IllegalMonitorStateException"
def cloneNotSupported : String := "java/lang/CloneNotSupportedException"
def interrupted : String := "java/lang/InterruptedException"
def illegalThreadState : String := "java/lang/IllegalThreadStateException"
def unsupportedOperation : String := "java/lang/UnsupportedOperationException"

def linkageError : String := "java/lang/LinkageError"
def noClassDefFound : String := "java/lang/NoClassDefFoundError"
def classCircularity : String := "java/lang/ClassCircularityError"
def classFormat : String := "java/lang/ClassFormatError"
def incompatibleClassChange : String := "java/lang/IncompatibleClassChangeError"
def abstractMethod : String := "java/lang/AbstractMethodError"
def noSuchMethod : String := "java/lang/NoSuchMethodError"
def noSuchField : String := "java/lang/NoSuchFieldError"
def instantiation : String := "java/lang/InstantiationError"
def unsatisfiedLink : String := "java/lang/UnsatisfiedLinkError"
def exceptionInInitializer : String := "java/lang/ExceptionInInitializerError"
def bootstrapMethod : String := "java/lang/BootstrapMethodError"
def virtualMachineError : String := "java/lang/VirtualMachineError"
def stackOverflow : String := "java/lang/StackOverflowError"
def outOfMemory : String := "java/lang/OutOfMemoryError"

/-- The throwables the machine defines, each with its superclass, superclasses first. -/
def throwables : List (String × String) :=
  [ (throwable, object), (exception, throwable), (error, throwable),
    (runtimeException, exception), (arithmeticException, runtimeException),
    (indexOutOfBounds, runtimeException), (arrayIndexOutOfBounds, indexOutOfBounds),
    (stringIndexOutOfBounds, indexOutOfBounds), (negativeArraySize, runtimeException),
    (nullPointer, runtimeException), (classCast, runtimeException),
    (arrayStore, runtimeException), (illegalArgument, runtimeException),
    (illegalState, runtimeException), (illegalMonitorState, runtimeException),
    (unsupportedOperation, runtimeException), (illegalThreadState, illegalArgument),
    (cloneNotSupported, exception), (interrupted, exception),
    (linkageError, error), (noClassDefFound, linkageError), (classCircularity, linkageError),
    (classFormat, linkageError), (incompatibleClassChange, linkageError),
    (abstractMethod, incompatibleClassChange), (noSuchMethod, incompatibleClassChange),
    (noSuchField, incompatibleClassChange), (instantiation, incompatibleClassChange),
    (unsatisfiedLink, linkageError), (exceptionInInitializer, linkageError),
    (bootstrapMethod, linkageError), (virtualMachineError, error),
    (stackOverflow, virtualMachineError), (outOfMemory, virtualMachineError) ]

end ClassName

end GreenVm
