/-
  Field and method descriptors.

  * `FieldType` and `MethodDescriptor` are what a descriptor denotes; `FieldType.chars` and
    `MethodDescriptor.text` print it.
  * `FieldType.read` reads one field type off the front of a text, `FieldType.parse?`,
    `MethodDescriptor.parse?` and `readReturn` read whole descriptors.  What is read is exactly
    what would be printed (`FieldType.read_eq`), so reading always shortens the text.
  * `FieldType.className?` and `FieldType.ofClassName?` go between a reference type and the name
    of its class.
-/
import GreenVm.ClassName

namespace GreenVm

/-- The type of a field, a parameter or an array component. -/
inductive FieldType
  | byte | char | double | float | int | long | short | boolean
  /-- A class or interface by its internal name. -/
  | object (name : String)
  | array (component : FieldType)
  deriving DecidableEq, Repr, Inhabited

namespace FieldType

/-! ## Shape -/

/-- A two-slot type. -/
def isWide : FieldType → Bool
  | long | double => true
  | _ => false

def isReference : FieldType → Bool
  | object _ | array _ => true
  | _ => false

def isPrimitive (t : FieldType) : Bool := !t.isReference

/-- Local variable slots a value of the type takes. -/
def slots (t : FieldType) : Nat := if t.isWide then 2 else 1

/-! ## Printing -/

/-- The descriptor, as characters. -/
def chars : FieldType → List Char
  | byte => ['B'] | char => ['C'] | double => ['D'] | float => ['F']
  | int => ['I'] | long => ['J'] | short => ['S'] | boolean => ['Z']
  | object name => 'L' :: (name.toList ++ [';'])
  | array component => '[' :: component.chars

/-- The descriptor of a type. -/
def text (t : FieldType) : String := String.ofList t.chars

/-- The type as source code writes it: `java.lang.String[]`. -/
def display : FieldType → String
  | byte => "byte" | char => "char" | double => "double" | float => "float"
  | int => "int" | long => "long" | short => "short" | boolean => "boolean"
  | object name => dotted name
  | array component => component.display ++ "[]"

/-! ## Reading -/

/-- Reads one field type off the front of a text; the second part is what follows it.  A class
    name ends at the first `;` and may hold anything else. -/
def read : List Char → Option (FieldType × List Char)
  | 'B' :: rest => some (byte, rest)
  | 'C' :: rest => some (char, rest)
  | 'D' :: rest => some (double, rest)
  | 'F' :: rest => some (float, rest)
  | 'I' :: rest => some (int, rest)
  | 'J' :: rest => some (long, rest)
  | 'S' :: rest => some (short, rest)
  | 'Z' :: rest => some (boolean, rest)
  | 'L' :: rest =>
    match rest.dropWhile (· != ';') with
    | [] => none
    | _ :: rest' => some (object (String.ofList (rest.takeWhile (· != ';'))), rest')
  | '[' :: rest => (read rest).map fun (t, rest') => (array t, rest')
  | _ => none

/-- What is read is what the type prints. -/
theorem read_eq {cs rest : List Char} {t : FieldType} (h : read cs = some (t, rest)) :
    cs = t.chars ++ rest := by
  fun_induction read cs generalizing t with
  | case9 => simp at h
  | case10 cs c rest' hd =>
    simp only [Option.some.injEq, Prod.mk.injEq] at h
    obtain ⟨rfl, rfl⟩ := h
    have hc : c = ';' := by
      have := List.head_dropWhile_not (p := (· != ';')) (l := cs) (by simp [hd])
      simpa [hd] using this
    have := List.takeWhile_append_dropWhile (p := (· != ';')) (l := cs)
    rw [hd, hc] at this
    simp [chars, this]
  | case11 cs ih =>
    simp only [Option.map_eq_some_iff, Prod.exists, Prod.mk.injEq] at h
    obtain ⟨u, r, hr, rfl, rfl⟩ := h
    simp [chars, ih hr]
  | case12 => simp at h
  | _ =>
    simp only [Option.some.injEq, Prod.mk.injEq] at h
    obtain ⟨rfl, rfl⟩ := h
    rfl

theorem chars_ne_nil (t : FieldType) : t.chars ≠ [] := by
  cases t <;> simp [chars]

/-- Reading a type shortens the text. -/
theorem length_of_read {cs rest : List Char} {t : FieldType} (h : read cs = some (t, rest)) :
    rest.length < cs.length := by
  have := List.length_pos_iff.2 t.chars_ne_nil
  rw [read_eq h, List.length_append]
  omega

/-- Reads field types for as long as there is one. -/
def readAll (cs : List Char) : List FieldType × List Char :=
  match h : read cs with
  | none => ([], cs)
  | some (t, rest) =>
    have := length_of_read h
    let (ts, last) := readAll rest
    (t :: ts, last)
termination_by cs.length

/-- The type a text is the descriptor of. -/
def parse? (s : String) : Option FieldType :=
  match read s.toList with
  | some (t, []) => some t
  | _ => none

/-! ## Class names of reference types -/

/-- Internal class name of a reference type: `java/lang/String` or `[I`. -/
def className? : FieldType → Option String
  | object name => some name
  | t@(array _) => some t.text
  | _ => none

/-- The reference type a class name denotes. -/
def ofClassName? (name : String) : Option FieldType :=
  if isArrayName name then parse? name
  else if name = "" then none
  else some (object name)

end FieldType

/-! ## Methods -/

/-- `none` is `void`. -/
abbrev ReturnType := Option FieldType

/-- Reads a return type off the front of a text. -/
def readReturn : List Char → Option (ReturnType × List Char)
  | cs =>
    match FieldType.read cs, cs with
    | some (t, rest), _ => some (some t, rest)
    | none, 'V' :: rest => some (none, rest)
    | none, _ => none

/-- The parameter types and return type of a method. -/
structure MethodDescriptor where
  parameters : List FieldType
  returnType : ReturnType
  deriving DecidableEq, Repr, Inhabited

namespace MethodDescriptor

/-- Local variable slots taken by the parameters, the receiver not counted. -/
def parameterSlots (d : MethodDescriptor) : Nat :=
  d.parameters.foldr (fun t n => t.slots + n) 0

def returnChars : ReturnType → List Char
  | none => ['V']
  | some t => t.chars

/-- The descriptor of a method. -/
def text (d : MethodDescriptor) : String :=
  String.ofList ('(' :: (d.parameters.flatMap FieldType.chars ++ ')' :: returnChars d.returnType))

/-- The method type a text is the descriptor of. -/
def parse? (s : String) : Option MethodDescriptor :=
  match s.toList with
  | '(' :: cs =>
    match FieldType.readAll cs with
    | (parameters, ')' :: cs') =>
      match readReturn cs' with
      | some (returnType, []) => some ⟨parameters, returnType⟩
      | _ => none
    | _ => none
  | _ => none

end MethodDescriptor

end GreenVm
