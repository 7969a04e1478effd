/-
  Native methods: the operations of the built-in classes (`Builtin`), functions of the embedder
  known by name, and the registry that says which method is which.

  A registration stands under `class/name(descriptor)` and is consulted before the bytecode of a
  method, so it replaces whatever body a class provides.
-/
import GreenVm.Table

namespace GreenVm

/-! ## Operations of the built-in classes -/

/-- Primitive types with a textual form. -/
inductive Primitive
  | int | long | char | boolean | float | double
  deriving DecidableEq, Repr, Inhabited

inductive ObjectOp
  | hashCode | equals | toString | clone | getClass | wait | waitTimeout | notify | notifyAll
  deriving DecidableEq, Repr, Inhabited

inductive ClassOp
  | getName | getSuperclass | isInterface | isArray | isInstance
  deriving DecidableEq, Repr, Inhabited

inductive StringOp
  | length | isEmpty | charAt | equals | hashCode | toString | concat | intern
  | valueOf (kind : Primitive)
  deriving DecidableEq, Repr, Inhabited

inductive BuilderOp
  | init | initString | appendString | length | toString
  | append (kind : Primitive)
  deriving DecidableEq, Repr, Inhabited

inductive SystemOp
  | classInit | arraycopy | identityHashCode | currentTimeMillis | nanoTime | exit | lineSeparator
  deriving DecidableEq, Repr, Inhabited

/-- Printing, with or without a line end. -/
inductive PrintOp
  | primitive (kind : Primitive) (line : Bool)
  | string (line : Bool)
  | lineEnd
  deriving DecidableEq, Repr, Inhabited

inductive ThreadOp
  | init | initTarget | initTargetName | start | join | getName | getId | currentThread | sleep
  | yield
  deriving DecidableEq, Repr, Inhabited

inductive ThrowableOp
  | init | initMessage | initMessageCause | initWithCause
  | getMessage | getCause | setCause | toString | printStackTrace | fillInStackTrace
  deriving DecidableEq, Repr, Inhabited

/-- An operation of a built-in class. -/
inductive Builtin
  | nothing
  | object (op : ObjectOp)
  | classObject (op : ClassOp)
  | string (op : StringOp)
  | builder (op : BuilderOp)
  | system (op : SystemOp)
  | print (op : PrintOp)
  | thread (op : ThreadOp)
  | throwable (op : ThrowableOp)
  deriving DecidableEq, Repr, Inhabited

/-- What stands in for the body of a method. -/
inductive Native
  | builtin (op : Builtin)
  /-- A function of the embedder. -/
  | host (name : String)
  deriving DecidableEq, Repr, Inhabited

/-! ## The registry -/

/-- `class/name(descriptor)`. -/
def nativeKey (className name descriptor : String) : String :=
  className ++ "/" ++ name ++ descriptor

/-- Whether a key is one of a class: what follows the class and a slash, up to the parameters, has
    no further slash. -/
def keyBelongsTo (className key : String) : Bool :=
  match (className.toList ++ ['/']).isPrefixOf? key.toList with
  | some rest => rest.contains '(' && !(rest.takeWhile (· != '(')).contains '/'
  | none => false

/-- Native methods by key. -/
structure Natives where
  table : Table String Native := .empty
  deriving Inhabited

namespace Natives

/-- Registers a native, in place of the one the method had. -/
def register (n : Natives) (className name descriptor : String) (native : Native) : Natives :=
  ⟨n.table.put (nativeKey className name descriptor) native⟩

def lookup? (n : Natives) (className name descriptor : String) : Option Native :=
  n.table.get? (nativeKey className name descriptor)

def contains (n : Natives) (className name descriptor : String) : Bool :=
  n.table.contains (nativeKey className name descriptor)

/-- The keys registered for a class, sorted. -/
def keysOf (n : Natives) (className : String) : List String :=
  (n.table.keys.filter (keyBelongsTo className)).mergeSort fun a b => !decide (b < a)

end Natives

end GreenVm
