/-
  The built-in classes: their class files, and the native behind each of their native methods.

  One list of `NativeMethod` per class gives both, so every native method a built-in class declares
  has its operation.
-/
import GreenVm.ClassFile.Builder
import GreenVm.Native

namespace GreenVm.Library

/-- A native method of a built-in class. -/
structure NativeMethod where
  flags : List Flag
  name : String
  descriptor : String
  op : Builtin

/-- A built-in class. -/
structure BuiltinClass where
  file : ClassFile
  natives : List NativeMethod

/-- A class file with native methods, followed by what `rest` adds. -/
def define (file : ClassFile) (natives : List NativeMethod)
    (rest : ClassFile → ClassFile := id) : BuiltinClass :=
  { natives
    file := rest (natives.foldl
      (fun f m => f.addNative (.ofList m.flags) m.name m.descriptor) file) }

def openMethod : List Flag := [.publicAccess]
def openStatic : List Flag := [.publicAccess, .staticMember]
def openFinal : List Flag := [.publicAccess, .final]

/-- A public final class. -/
def finalClass (name : String) : ClassFile :=
  (ClassFile.ofClass name).withFlags (.ofList [.publicAccess, .final, .super])

/-- The primitive types with a textual form, with their descriptors. -/
def primitives : List (String × Primitive) :=
  [("I", .int), ("J", .long), ("C", .char), ("Z", .boolean), ("F", .float), ("D", .double)]

/-! ## Objects and classes -/

def objectClass : BuiltinClass :=
  define (ClassFile.ofClass ClassName.object).asRoot
    [ ⟨openMethod, "<init>", "()V", .nothing⟩,
      ⟨openMethod, "hashCode", "()I", .object .hashCode⟩,
      ⟨openMethod, "equals", "(Ljava/lang/Object;)Z", .object .equals⟩,
      ⟨openMethod, "toString", "()Ljava/lang/String;", .object .toString⟩,
      ⟨[.protectedAccess], "clone", "()Ljava/lang/Object;", .object .clone⟩,
      ⟨openFinal, "getClass", "()Ljava/lang/Class;", .object .getClass⟩,
      ⟨openFinal, "wait", "()V", .object .wait⟩,
      ⟨openFinal, "wait", "(J)V", .object .waitTimeout⟩,
      ⟨openFinal, "notify", "()V", .object .notify⟩,
      ⟨openFinal, "notifyAll", "()V", .object .notifyAll⟩ ]

def cloneableInterface : BuiltinClass := define (.ofInterface ClassName.cloneable) []

def serializableInterface : BuiltinClass := define (.ofInterface ClassName.serializable) []

def classClass : BuiltinClass :=
  define (finalClass ClassName.classObject)
    [ ⟨openMethod, "getName", "()Ljava/lang/String;", .classObject .getName⟩,
      ⟨openMethod, "getSuperclass", "()Ljava/lang/Class;", .classObject .getSuperclass⟩,
      ⟨openMethod, "isInterface", "()Z", .classObject .isInterface⟩,
      ⟨openMethod, "isArray", "()Z", .classObject .isArray⟩,
      ⟨openMethod, "isInstance", "(Ljava/lang/Object;)Z", .classObject .isInstance⟩ ]

/-! ## Text -/

def valueOfObject : String := "(Ljava/lang/Object;)Ljava/lang/String;"

/-- `String.valueOf(Object)`: "null", or what the `toString` of the object answers. -/
def addValueOfObject (file : ClassFile) : ClassFile :=
  let (file, null) := file.addConstant (.string "null")
  let (file, toString) := file.addConstant
    (.method ⟨ClassName.object, "toString", "()Ljava/lang/String;"⟩)
  file.addMethod (.ofList openStatic) "valueOf" valueOfObject <| .ofList 1 1
    [ .load .reference 0, .branchNull false 4, .loadConstant null, .leave (some .reference),
      .load .reference 0, .invokeVirtual toString, .leave (some .reference) ]

def stringClass : BuiltinClass :=
  define ((finalClass ClassName.string).implementing ClassName.serializable)
    ([ ⟨openMethod, "length", "()I", .string .length⟩,
       ⟨openMethod, "isEmpty", "()Z", .string .isEmpty⟩,
       ⟨openMethod, "charAt", "(I)C", .string .charAt⟩,
       ⟨openMethod, "equals", "(Ljava/lang/Object;)Z", .string .equals⟩,
       ⟨openMethod, "hashCode", "()I", .string .hashCode⟩,
       ⟨openMethod, "toString", "()Ljava/lang/String;", .string .toString⟩,
       ⟨openMethod, "concat", "(Ljava/lang/String;)Ljava/lang/String;", .string .concat⟩,
       ⟨openMethod, "intern", "()Ljava/lang/String;", .string .intern⟩ ] ++
     primitives.map fun (d, p) =>
       ⟨openStatic, "valueOf", "(" ++ d ++ ")Ljava/lang/String;", .string (.valueOf p)⟩)
    addValueOfObject

def appendString : String := "(Ljava/lang/String;)Ljava/lang/StringBuilder;"

/-- `StringBuilder.append(Object)`: appends what `String.valueOf` answers. -/
def addAppendObject (file : ClassFile) : ClassFile :=
  let (file, valueOf) := file.addConstant (.method ⟨ClassName.string, "valueOf", valueOfObject⟩)
  let (file, append) := file.addConstant (.method ⟨ClassName.stringBuilder, "append", appendString⟩)
  file.addMethod (.ofList openMethod) "append" "(Ljava/lang/Object;)Ljava/lang/StringBuilder;" <|
    .ofList 2 2
      [ .load .reference 0, .load .reference 1, .invokeStatic valueOf, .invokeVirtual append,
        .leave (some .reference) ]

def stringBuilderClass : BuiltinClass :=
  define (finalClass ClassName.stringBuilder)
    ([ ⟨openMethod, "<init>", "()V", .builder .init⟩,
       ⟨openMethod, "<init>", "(Ljava/lang/String;)V", .builder .initString⟩,
       ⟨openMethod, "append", appendString, .builder .appendString⟩,
       ⟨openMethod, "length", "()I", .builder .length⟩,
       ⟨openMethod, "toString", "()Ljava/lang/String;", .builder .toString⟩ ] ++
     primitives.map fun (d, p) =>
       ⟨openMethod, "append", "(" ++ d ++ ")Ljava/lang/StringBuilder;", .builder (.append p)⟩)
    addAppendObject

/-- `print(Object)` or `println(Object)`: prints what `String.valueOf` answers. -/
def addPrintObject (name : String) (file : ClassFile) : ClassFile :=
  let (file, valueOf) := file.addConstant (.method ⟨ClassName.string, "valueOf", valueOfObject⟩)
  let (file, target) := file.addConstant
    (.method ⟨ClassName.printStream, name, "(Ljava/lang/String;)V"⟩)
  file.addMethod (.ofList openMethod) name "(Ljava/lang/Object;)V" <| .ofList 2 2
    [ .load .reference 0, .load .reference 1, .invokeStatic valueOf, .invokeVirtual target,
      .leave none ]

def printStreamClass : BuiltinClass :=
  define (.ofClass ClassName.printStream)
    (primitives.flatMap (fun (d, p) =>
       [ ⟨openMethod, "print", "(" ++ d ++ ")V", .print (.primitive p false)⟩,
         ⟨openMethod, "println", "(" ++ d ++ ")V", .print (.primitive p true)⟩ ]) ++
     [ ⟨openMethod, "print", "(Ljava/lang/String;)V", .print (.string false)⟩,
       ⟨openMethod, "println", "(Ljava/lang/String;)V", .print (.string true)⟩,
       ⟨openMethod, "println", "()V", .print .lineEnd⟩,
       ⟨openMethod, "flush", "()V", .nothing⟩ ])
    (fun file => addPrintObject "println" (addPrintObject "print" file))

/-! ## System and threads -/

def outField : String := "out"
def errField : String := "err"
def streamDescriptor : String := "Ljava/io/PrintStream;"

def systemClass : BuiltinClass :=
  let flags := AccessFlags.ofList [.publicAccess, .staticMember, .final]
  define (((finalClass ClassName.system).addField flags outField streamDescriptor).addField flags
      errField streamDescriptor)
    [ ⟨[.staticMember], "<clinit>", "()V", .system .classInit⟩,
      ⟨openStatic, "arraycopy", "(Ljava/lang/Object;ILjava/lang/Object;II)V",
        .system .arraycopy⟩,
      ⟨openStatic, "identityHashCode", "(Ljava/lang/Object;)I", .system .identityHashCode⟩,
      ⟨openStatic, "currentTimeMillis", "()J", .system .currentTimeMillis⟩,
      ⟨openStatic, "nanoTime", "()J", .system .nanoTime⟩,
      ⟨openStatic, "exit", "(I)V", .system .exit⟩,
      ⟨openStatic, "lineSeparator", "()Ljava/lang/String;", .system .lineSeparator⟩ ]

def runnableInterface : BuiltinClass :=
  define (.ofInterface ClassName.runnable) [] (·.addAbstract "run" "()V")

/-- `Thread.run()`: runs the target if there is one. -/
def addRun (file : ClassFile) : ClassFile :=
  let (file, target) := file.addConstant
    (.field ⟨ClassName.thread, "target", "Ljava/lang/Runnable;"⟩)
  let (file, run) := file.addConstant (.interfaceMethod ⟨ClassName.runnable, "run", "()V"⟩)
  file.addMethod (.ofList openMethod) "run" "()V" <| .ofList 2 1
    [ .load .reference 0, .getField target, .dup 1 0, .branchNull true 6, .invokeInterface run,
      .leave none, .pop 1, .leave none ]

def threadClass : BuiltinClass :=
  let hidden := AccessFlags.ofList [.privateAccess]
  define ((((ClassFile.ofClass ClassName.thread).implementing ClassName.runnable).addField hidden
      "name" "Ljava/lang/String;").addField hidden "target" "Ljava/lang/Runnable;")
    [ ⟨openMethod, "<init>", "()V", .thread .init⟩,
      ⟨openMethod, "<init>", "(Ljava/lang/Runnable;)V", .thread .initTarget⟩,
      ⟨openMethod, "<init>", "(Ljava/lang/Runnable;Ljava/lang/String;)V",
        .thread .initTargetName⟩,
      ⟨openMethod, "start", "()V", .thread .start⟩,
      ⟨openFinal, "join", "()V", .thread .join⟩,
      ⟨openMethod, "getName", "()Ljava/lang/String;", .thread .getName⟩,
      ⟨openMethod, "getId", "()J", .thread .getId⟩,
      ⟨openStatic, "currentThread", "()Ljava/lang/Thread;", .thread .currentThread⟩,
      ⟨openStatic, "sleep", "(J)V", .thread .sleep⟩,
      ⟨openStatic, "yield", "()V", .thread .yield⟩ ]
    addRun

/-! ## Throwables -/

/-- The constructors every built-in throwable has. -/
def throwableConstructors : List NativeMethod :=
  [ ⟨openMethod, "<init>", "()V", .throwable .init⟩,
    ⟨openMethod, "<init>", "(Ljava/lang/String;)V", .throwable .initMessage⟩,
    ⟨openMethod, "<init>", "(Ljava/lang/String;Ljava/lang/Throwable;)V",
      .throwable .initMessageCause⟩,
    ⟨openMethod, "<init>", "(Ljava/lang/Throwable;)V", .throwable .initWithCause⟩ ]

/-- The root of the throwables has the fields and their accessors. -/
def throwableClass : BuiltinClass :=
  let hidden := AccessFlags.ofList [.privateAccess]
  define ((((ClassFile.ofClass ClassName.throwable).implementing ClassName.serializable).addField
      hidden "detailMessage" "Ljava/lang/String;").addField hidden "cause"
      "Ljava/lang/Throwable;")
    (throwableConstructors ++
     [ ⟨openMethod, "getMessage", "()Ljava/lang/String;", .throwable .getMessage⟩,
       ⟨openMethod, "getLocalizedMessage", "()Ljava/lang/String;", .throwable .getMessage⟩,
       ⟨openMethod, "getCause", "()Ljava/lang/Throwable;", .throwable .getCause⟩,
       ⟨openMethod, "initCause", "(Ljava/lang/Throwable;)Ljava/lang/Throwable;",
         .throwable .setCause⟩,
       ⟨openMethod, "toString", "()Ljava/lang/String;", .throwable .toString⟩,
       ⟨openMethod, "printStackTrace", "()V", .throwable .printStackTrace⟩,
       ⟨openMethod, "fillInStackTrace", "()Ljava/lang/Throwable;",
         .throwable .fillInStackTrace⟩ ])

def throwableClasses : List BuiltinClass :=
  throwableClass :: (ClassName.throwables.drop 1).map fun (name, superName) =>
    define ((ClassFile.ofClass name).extending superName) throwableConstructors

/-! ## All of them -/

def classes : List BuiltinClass :=
  [ objectClass, cloneableInterface, serializableInterface, classClass, stringClass,
    stringBuilderClass, systemClass, printStreamClass, runnableInterface, threadClass ] ++
  throwableClasses

/-- The built-in class files by name. -/
def classFiles : Table String ClassFile := ⟨classes.map fun c => (c.file.name, c.file)⟩

/-- The natives of a built-in class by key. -/
def BuiltinClass.nativeEntries (c : BuiltinClass) : List (String × Native) :=
  c.natives.map fun m => (nativeKey c.file.name m.name m.descriptor, .builtin m.op)

/-- The natives of the built-in classes. -/
def natives : Natives := ⟨⟨classes.flatMap BuiltinClass.nativeEntries⟩⟩

end GreenVm.Library
