/-
  UTF-16 code units of a text: programs count and index the characters of a string in them.

  `unitCount` and `unitAt?` say of `codeUnits` how many there are and which one is at an index.
-/
namespace GreenVm

/-- The code units of a character: one in the basic plane, a surrogate pair above it. -/
def unitsOfChar (c : Char) : List UInt16 :=
  if c.val < 0x10000 then [c.val.toUInt16]
  else
    let v := c.val - 0x10000
    [(0xD800 : UInt16) + (v >>> 10).toUInt16, (0xDC00 : UInt16) + (v &&& 0x3FF).toUInt16]

/-- The code units of a text. -/
def codeUnits (s : String) : List UInt16 := s.toList.flatMap unitsOfChar

/-! ## Counting and indexing

  A text whose characters take a byte each, as those up to U+007F do, has a code unit per byte, so
  nothing of it need be decoded. -/

/-- Whether each character of a text takes one byte. -/
def hasByteChars (s : String) : Bool := s.utf8ByteSize == s.length

/-- The number of code units of a text. -/
def unitCount (s : String) : Nat := if hasByteChars s then s.length else (codeUnits s).length

/-- The code unit of a text at an index. -/
def unitAt? (s : String) (index : Nat) : Option UInt16 :=
  if hasByteChars s then
    if h : index < s.utf8ByteSize then some (s.getUTF8Byte ⟨index⟩ h).toUInt16 else none
  else (codeUnits s)[index]?

theorem toByteArray_eq_flatMap (s : String) :
    s.toByteArray = (s.toList.flatMap String.utf8EncodeChar).toByteArray := by
  have h := String.toByteArray_ofList (l := s.toList)
  rwa [String.ofList_toList] at h

theorem unitsOfChar_of_utf8Size {c : Char} (h : c.utf8Size = 1) :
    unitsOfChar c = [c.val.toUInt8.toUInt16] := by
  have hn : c.val.toNat ≤ 127 := Char.utf8Size_eq_one_iff.1 h
  have hlt : c.val < 0x10000 := UInt32.lt_iff_toNat_lt.2 (Nat.lt_of_le_of_lt hn (by decide))
  have he : c.val.toUInt16 = c.val.toUInt8.toUInt16 := by
    apply UInt16.toNat_inj.1
    simp only [UInt32.toNat_toUInt16, UInt8.toNat_toUInt16, UInt32.toNat_toUInt8]
    omega
  simp only [unitsOfChar, if_pos hlt, he]

theorem length_le_length_utf8 (cs : List Char) :
    cs.length ≤ (cs.flatMap String.utf8EncodeChar).length := by
  induction cs with
  | nil => simp
  | cons c cs ih =>
    have := c.utf8Size_pos
    simp only [List.length_cons, List.flatMap_cons, List.length_append,
      String.length_utf8EncodeChar]
    omega

/-- Characters that take as many bytes as they are take one each. -/
theorem utf8Size_of_length_utf8 {cs : List Char}
    (h : (cs.flatMap String.utf8EncodeChar).length = cs.length) : ∀ c ∈ cs, c.utf8Size = 1 := by
  induction cs with
  | nil => simp
  | cons c cs ih =>
    have := c.utf8Size_pos
    have := length_le_length_utf8 cs
    simp only [List.length_cons, List.flatMap_cons, List.length_append,
      String.length_utf8EncodeChar] at h
    intro d hd
    rcases List.mem_cons.1 hd with rfl | hd
    · omega
    · exact ih (by omega) d hd

theorem flatMap_eq_map {α β : Type} {f : α → List β} {g : α → β} {as : List α}
    (h : ∀ a ∈ as, f a = [g a]) : as.flatMap f = as.map g := by
  induction as with
  | nil => rfl
  | cons a as ih =>
    rw [List.flatMap_cons, h a (by simp), ih fun b hb => h b (by simp [hb]), List.map_cons]
    rfl

theorem utf8Size_of_hasByteChars {s : String} (h : hasByteChars s) :
    ∀ c ∈ s.toList, c.utf8Size = 1 := by
  apply utf8Size_of_length_utf8
  rw [← List.size_toByteArray, ← toByteArray_eq_flatMap, String.length_toList]
  exact eq_of_beq h

theorem codeUnits_of_hasByteChars {s : String} (h : hasByteChars s) :
    codeUnits s = s.toList.map (·.val.toUInt8.toUInt16) :=
  flatMap_eq_map fun c hc => unitsOfChar_of_utf8Size (utf8Size_of_hasByteChars h c hc)

theorem toByteArray_of_hasByteChars {s : String} (h : hasByteChars s) :
    s.toByteArray = (s.toList.map (·.val.toUInt8)).toByteArray := by
  rw [toByteArray_eq_flatMap, flatMap_eq_map fun c hc =>
    String.utf8EncodeChar_eq_singleton (utf8Size_of_hasByteChars h c hc)]

/-- The number of code units is their number. -/
theorem unitCount_eq_length (s : String) : unitCount s = (codeUnits s).length := by
  unfold unitCount
  split
  · next h => rw [codeUnits_of_hasByteChars h, List.length_map, String.length_toList]
  · rfl

/-- The code unit at an index is the one at that index among the code units. -/
theorem unitAt?_eq_getElem? (s : String) (index : Nat) :
    unitAt? s index = (codeUnits s)[index]? := by
  unfold unitAt?
  split
  · next h =>
    rw [codeUnits_of_hasByteChars h, List.getElem?_map]
    have hs : s.utf8ByteSize = s.toList.length := (eq_of_beq h).trans String.length_toList.symm
    split
    · next hi =>
      have hl : index < s.toList.length := hs ▸ hi
      have hb : ∀ (b : ByteArray) (_ : b = (s.toList.map (·.val.toUInt8)).toByteArray)
          (_ : index < b.size), b[index] = s.toList[index].val.toUInt8 := by
        rintro _ rfl _
        rw [List.getElem_toByteArray, List.getElem_map]
      rw [String.getUTF8Byte, hb _ (toByteArray_of_hasByteChars h), List.getElem?_eq_getElem hl,
        Option.map_some]
    · next hi => rw [List.getElem?_eq_none (by omega), Option.map_none]
  · rfl

/-! ## Single units and hashes -/

/-- The character a single code unit stands for; half of a surrogate pair stands for U+FFFD. -/
def charOfUnit (u : UInt16) : Char :=
  if h : u.toNat.isValidChar then ⟨u.toUInt32, by simpa [UInt32.isValidChar] using h⟩
  else Char.ofNat 0xFFFD

/-- The hash of a string: `s[0] * 31^(n-1) + … + s[n-1]`, modulo 2^32. -/
def stringHash (s : String) : Int32 :=
  (codeUnits s).foldl (fun h u => h * 31 + u.toUInt32.toInt32) 0

end GreenVm
