/-
  The built-in classes: what each of their operations does.
-/
import GreenVm.Library.Objects
import GreenVm.Library.Strings
import GreenVm.Library.Systems
import GreenVm.Library.Threads
import GreenVm.Library.Throwables

namespace GreenVm

/-- Runs an operation of a built-in class. -/
def Builtin.run (op : Builtin) (call : NativeCall) : Exec (Option Value) :=
  match op with
  | .nothing => return none
  | .object op => op.run call
  | .classObject op => op.run call
  | .string op => op.run call
  | .builder op => op.run call
  | .system op => op.run call
  | .print op => op.run call
  | .thread op => op.run call
  | .throwable op => op.run call

/-- Runs a native method. -/
def Native.run (host : Host) (native : Native) (call : NativeCall) : Exec (Option Value) :=
  match native with
  | .builtin op => op.run call
  | .host name => host name call

end GreenVm
