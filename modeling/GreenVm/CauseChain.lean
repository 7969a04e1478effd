/-
  Throwables as objects: making them, and following their causes.

  `Heap.causeChain` is a throwable and its causes, each object once; it ends at the first object
  that is no throwable, has no cause, or has a cause that is in the chain already.
-/
import GreenVm.Machine

namespace GreenVm

def detailMessageKey : String := "java/lang/Throwable.detailMessage:Ljava/lang/String;"
def causeKey : String := "java/lang/Throwable.cause:Ljava/lang/Throwable;"

/-! ## Following causes -/

namespace Object

/-- The object a field of a throwable refers to. -/
def throwableField? (o : Object) (key : String) : Option Ref :=
  if o.type.isBelow ClassName.throwable then
    match o.getField key with
    | .ok (.reference r) => r
    | _ => none
  else none

end Object

namespace Heap

/-- The cause of an object, if it is a throwable that has one. -/
def cause? (h : Heap) (r : Ref) : Option Ref := (h.get? r).bind (·.throwableField? causeKey)

/-- The message of a throwable: the text of the string in its message field. -/
def messageOf? (h : Heap) (o : Object) : Option String :=
  (o.throwableField? detailMessageKey).bind fun s => (h.get? s).bind (·.payload.text)

/-- How many objects are not among some. -/
def unseen (h : Heap) (seen : List Ref) : Nat :=
  ((List.range h.objects.size).filter fun i => (⟨i⟩ : Ref) ∉ seen).length

theorem unseen_cons_lt {h : Heap} {seen : List Ref} {r : Ref} {o : Object}
    (ho : h.get? r = some o) (hr : r ∉ seen) : h.unseen (r :: seen) < h.unseen seen := by
  unfold unseen
  have hs : ((List.range h.objects.size).filter fun i => (⟨i⟩ : Ref) ∉ r :: seen) =
      ((List.range h.objects.size).filter fun i => (⟨i⟩ : Ref) ∉ seen).filter
        fun i => (⟨i⟩ : Ref) ≠ r := by
    rw [List.filter_filter]
    congr 1
    funext i
    simp
  rw [hs]
  obtain ⟨i⟩ := r
  have hi : i < h.objects.size := by
    simp only [get?, Array.getElem?_eq_some_iff] at ho
    exact ho.1
  exact List.length_filter_lt_length_iff_exists.2
    ⟨i, List.mem_filter.2 ⟨List.mem_range.2 hi, by simpa using hr⟩, by simp⟩

set_option linter.unusedVariables false in
/-- The objects from one on along causes that are not among those `seen`. -/
def chainFrom (h : Heap) (seen : List Ref) (r : Ref) : List Ref :=
  match ho : h.get? r with
  | none => []
  | some o =>
    if hr : r ∈ seen then []
    else
      match o.throwableField? causeKey with
      | none => [r]
      | some c => r :: chainFrom h (r :: seen) c
termination_by h.unseen seen
decreasing_by exact unseen_cons_lt ho hr

/-- An object followed by its causes. -/
def causeChain (h : Heap) (r : Ref) : List Ref := h.chainFrom [] r

/-- An object as a link of a cause chain. -/
def thrownLink? (h : Heap) (r : Ref) : Option ThrownLink :=
  (h.get? r).map fun o => { className := o.type.name, message := h.messageOf? o }

/-- A throwable as it is reported: class and message of it and of its causes. -/
def thrownChain (h : Heap) (r : Ref) : List ThrownLink :=
  (h.causeChain r).filterMap h.thrownLink?

end Heap

/-! ## Making throwables -/

namespace Throwable

/-- The class of a throwable. -/
def className (h : Heap) : Throwable → String
  | symbolic name _ => name
  | object r => ((h.get? r).map (·.type.name)).getD ""

/-- A throwable as text.  The message of an object is not looked up. -/
def text (h : Heap) : Throwable → String
  | symbolic name message => throwableText name message
  | t@(object _) => dotted (t.className h)

end Throwable

/-- A fault as text. -/
def Fault.text (h : Heap) : Fault → String
  | thrown t => t.text h
  | fatal e => e.message

namespace Exec

/-- A throwable object with its message and cause set, without running a constructor. -/
def newThrowable (className : String) (message : Option String) (cause : Option Ref) :
    Exec Ref := do
  let r ← newObject className
  if let some text := message then
    let s ← newString text
    putField r detailMessageKey (.ofRef s)
  putField r causeKey (.reference cause)
  return r

/-- As `newThrowable`, for a throwable that is already on its way: if it cannot be made, that is an
    engine error. -/
def raiseNew (className : String) (message : Option String) (cause : Option Ref) : Exec Ref :=
  fun m =>
    match (newThrowable className message cause).run m with
    | (.ok r, m) => (.ok r, m)
    | (.error f, m) => (.error (.fatal (.materialize className (f.text m.heap))), m)

/-- The object of a throwable, made if it is symbolic. -/
def materialize : Throwable → Exec Ref
  | .object r => return r
  | .symbolic className message => raiseNew className message none

/-- What leaves a class initializer that failed: errors as they are, and any other throwable as the
    cause of an `ExceptionInInitializerError`. -/
def initializerFailure (r : Ref) : Exec Ref := do
  if (← typeOf r).isBelow ClassName.error then return r
  else raiseNew ClassName.exceptionInInitializer none (some r)

end Exec

end GreenVm
