/-
  Identities of heap objects and of threads.
-/
namespace GreenVm

/-- A heap object, by the order in which objects were allocated. -/
structure Ref where
  index : Nat
  deriving DecidableEq, Repr, Inhabited

/-- A thread, by the order in which ids were issued. -/
structure ThreadId where
  index : Nat
  deriving DecidableEq, Repr, Inhabited

/-- How messages name a thread. -/
def ThreadId.display (t : ThreadId) : String := "#" ++ toString t.index

end GreenVm
