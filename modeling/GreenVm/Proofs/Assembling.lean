/-
  The constants of a class that is assembled in memory.

  * `BuildStep`: a call that goes on with a class, and what a sequence of them makes of it
    (`ClassFile.built`).
  * `Constant.eq_or_oppositeZeros`: constants have the same value only if they are the same or the two
    zeros of a floating-point type.
  * `ClassFile.Padded`: every wide entry of the pool is followed by an empty one.
  * `ClassFile.built_denotes`: what an index that was given out stands for from then on.
-/
import GreenVm.ClassFile.Builder
import Mathlib.Data.List.Infix
import Mathlib.Tactic.Common

namespace GreenVm

/-! ## Calls -/

/-- A call that goes on with the class built so far. -/
inductive BuildStep
  | extending (superClass : String)
  | asRoot
  | implementing (interface : String)
  | withFlags (flags : AccessFlags)
  | withSource (sourceFile : String)
  | addField (flags : AccessFlags) (name descriptor : String)
  | addConstantField (name descriptor : String) (value : Constant)
  | addMethod (flags : AccessFlags) (name descriptor : String) (code : CodeDecl)
  | addNative (flags : AccessFlags) (name descriptor : String)
  | addAbstract (name descriptor : String)
  /-- Asks for the index of a constant: a number, a text, or a reference to a class or a member. -/
  | addConstant (c : Constant)

namespace BuildStep

/-- The class after a call. -/
def apply (file : ClassFile) : BuildStep → ClassFile
  | extending superClass => file.extending superClass
  | asRoot => file.asRoot
  | implementing interface => file.implementing interface
  | withFlags flags => file.withFlags flags
  | withSource sourceFile => file.withSource sourceFile
  | addField flags name descriptor => file.addField flags name descriptor
  | addConstantField name descriptor value => file.addConstantField name descriptor value
  | addMethod flags name descriptor code => file.addMethod flags name descriptor code
  | addNative flags name descriptor => file.addNative flags name descriptor
  | addAbstract name descriptor => file.addAbstract name descriptor
  | addConstant c => (file.addConstant c).1

/-- The constant that a call needs in the pool. -/
def constant? : BuildStep → Option Constant
  | addConstant c | addConstantField _ _ c => some c
  | _ => none

/-- The index that a call gives out for its constant: it is the answer, or stands in the field that
    is declared. -/
def index? (file : ClassFile) : BuildStep → Option Nat
  | addConstant c => some (file.addConstant c).2
  | addConstantField name descriptor value =>
    (file.addConstantField name descriptor value).fields.getLast?.bind FieldDecl.constantValue
  | _ => none

end BuildStep

namespace ClassFile

/-- The class after some more calls. -/
def extended (file : ClassFile) (steps : List BuildStep) : ClassFile :=
  steps.foldl BuildStep.apply file

/-- The class or interface that calls make, starting with one that has no members. -/
def built (interface : Bool) (name : String) (steps : List BuildStep) : ClassFile :=
  (if interface then ofInterface name else ofClass name).extended steps

theorem built_append (interface : Bool) (name : String) (before : List BuildStep) (step : BuildStep)
    (after : List BuildStep) : built interface name (before ++ step :: after) =
      (step.apply (built interface name before)).extended after := List.foldl_append

end ClassFile

/-! ## Equal constants -/

/-- The two zeros of a single-precision or double-precision type. -/
def Constant.OppositeZeros (c d : Constant) : Prop :=
  (c = .float 0 ∧ d = .float 0x80000000) ∨ (c = .float 0x80000000 ∧ d = .float 0) ∨
    (c = .double 0 ∧ d = .double 0x8000000000000000) ∨
    (c = .double 0x8000000000000000 ∧ d = .double 0)

namespace FloatFormat

/-- Numbers are equal if they have the same bits or are zeros. -/
theorem eq_of_numericEq {f : FloatFormat} {a b : Nat} (h : f.numericEq a b = true) :
    a = b ∨ (∃ n e, f.decode a = .finite n 0 e) ∧ ∃ n e, f.decode b = .finite n 0 e := by
  unfold numericEq at h
  split at h
  · cases h
  · cases h
  · next ha hb => exact .inr ⟨⟨_, _, ha⟩, _, _, hb⟩
  · exact .inl (eq_of_beq h)

/-- A zero has no bits but the sign. -/
theorem mod_signBit_of_zero {f : FloatFormat} {a : Nat} {n : Bool} {e : Int}
    (h : f.decode a = .finite n 0 e) : a % f.signBit = 0 := by
  simp only [decode] at h
  split at h
  · split at h <;> cases h
  · split at h
    · next hexponent =>
      have hfraction : a % Nat.pow 2 f.fractionBits = 0 := (FloatValue.finite.inj h).2.1
      have hsplit : f.signBit = Nat.pow 2 f.fractionBits * Nat.pow 2 f.exponentBits :=
        Nat.pow_add 2 f.fractionBits f.exponentBits
      rw [hsplit, Nat.mod_mul, hfraction, hexponent, Nat.mul_zero]
    · have hpos : 0 < Nat.pow 2 f.fractionBits := Nat.two_pow_pos _
      have hnone := (FloatValue.finite.inj h).2.1
      omega

/-- Numbers of as many bits as the format has are equal if they have the same bits, or are the two
    zeros. -/
theorem numericEq_cases {f : FloatFormat} {a b : Nat} (ha : a < 2 * f.signBit)
    (hb : b < 2 * f.signBit) (h : f.numericEq a b = true) :
    a = b ∨ a = 0 ∧ b = f.signBit ∨ a = f.signBit ∧ b = 0 := by
  have zero {c : Nat} (hc : c < 2 * f.signBit) (h : c % f.signBit = 0) : c = 0 ∨ c = f.signBit := by
    obtain ⟨k, rfl⟩ := Nat.dvd_of_mod_eq_zero h
    have hk : k < 2 := Nat.lt_of_mul_lt_mul_left (Nat.mul_comm _ 2 ▸ hc)
    rcases Nat.le_one_iff_eq_zero_or_eq_one.1 (Nat.le_of_lt_succ hk) with rfl | rfl
    · exact .inl (Nat.mul_zero _)
    · exact .inr (Nat.mul_one _)
  rcases eq_of_numericEq h with rfl | ⟨⟨_, _, ha'⟩, _, _, hb'⟩
  · exact .inl rfl
  · have h₁ := zero ha (mod_signBit_of_zero ha')
    have h₂ := zero hb (mod_signBit_of_zero hb')
    omega

end FloatFormat

namespace Constant

theorem sameValue_float {a b : UInt32} (h : (float a).sameValue (float b) = true) :
    float a = float b ∨ OppositeZeros (float a) (float b) := by
  have bits {c : UInt32} {n : Nat} (hn : n < 2 ^ 32) (hc : c.toNat = n) : c = .ofNat n :=
    UInt32.toNat_inj.1 (hc.trans (UInt32.toNat_ofNat_of_lt' hn).symm)
  rcases FloatFormat.numericEq_cases a.toNat_lt b.toNat_lt h with he | ⟨ha, hb⟩ | ⟨ha, hb⟩
  · exact .inl (congrArg float (UInt32.toNat_inj.1 he))
  · exact .inr (.inl ⟨congrArg float (bits (by decide) ha), congrArg float (bits (by decide) hb)⟩)
  · exact .inr (.inr (.inl ⟨congrArg float (bits (by decide) ha),
      congrArg float (bits (by decide) hb)⟩))

theorem sameValue_double {a b : UInt64} (h : (double a).sameValue (double b) = true) :
    double a = double b ∨ OppositeZeros (double a) (double b) := by
  have bits {c : UInt64} {n : Nat} (hn : n < 2 ^ 64) (hc : c.toNat = n) : c = .ofNat n :=
    UInt64.toNat_inj.1 (hc.trans (UInt64.toNat_ofNat_of_lt' hn).symm)
  rcases FloatFormat.numericEq_cases a.toNat_lt b.toNat_lt h with he | ⟨ha, hb⟩ | ⟨ha, hb⟩
  · exact .inl (congrArg double (UInt64.toNat_inj.1 he))
  · exact .inr (.inr (.inr (.inl ⟨congrArg double (bits (by decide) ha),
      congrArg double (bits (by decide) hb)⟩)))
  · exact .inr (.inr (.inr (.inr ⟨congrArg double (bits (by decide) ha),
      congrArg double (bits (by decide) hb)⟩)))

/-- Constants of the same value are the same, or opposite zeros. -/
theorem eq_or_oppositeZeros {c d : Constant} (h : c.sameValue d = true) :
    c = d ∨ c.OppositeZeros d := by
  unfold sameValue at h
  split at h
  · exact sameValue_float h
  · exact sameValue_double h
  · exact .inl (eq_of_beq h)

end Constant

/-! ## The pool -/

namespace ClassFile

/-- Every wide entry of a pool is followed by an empty one. -/
def Padded (pool : List Constant) : Prop :=
  ∀ (i : Nat) (c : Constant), pool[i]? = some c → c.isWide = true → pool[i + 1]? = some .empty

variable {file : ClassFile} {c : Constant} {pool pool' : List Constant}

theorem Padded.append (h : Padded pool) (c : Constant) :
    Padded (pool ++ c :: if c.isWide then [.empty] else []) := by
  intro i w hi hw
  rcases Nat.lt_trichotomy i pool.length with hlt | rfl | hgt
  · -- the entry after an old one is old, too
    rw [List.getElem?_append_left hlt] at hi
    have hnext := h i w hi hw
    rw [List.getElem?_append_left (List.getElem?_eq_some_iff.1 hnext).1, hnext]
  · rw [List.getElem?_append_right le_rfl, Nat.sub_self] at hi
    cases hi
    rw [List.getElem?_append_right (Nat.le_add_right _ 1), Nat.add_sub_cancel_left, if_pos hw]
    rfl
  · obtain ⟨k, rfl⟩ := Nat.exists_eq_add_of_lt hgt
    rw [List.getElem?_append_right hgt.le, Nat.add_assoc, Nat.add_sub_cancel_left,
      List.getElem?_cons_succ] at hi
    have hempty : w = .empty := by
      split at hi
      · exact List.mem_singleton.1 (List.mem_of_getElem? hi)
      · cases hi
    subst hempty
    cases hw

/-- Asking for a constant finds one of its value, or adds it to the end. -/
theorem addConstant_cases (file : ClassFile) (c : Constant) :
    (∃ i d, file.pool[i]? = some d ∧ d.sameValue c = true ∧ file.addConstant c = (file, i + 1)) ∨
      (file.addConstant c).1.pool = file.pool ++ c :: (if c.isWide then [.empty] else []) ∧
        (file.addConstant c).2 = file.pool.length + 1 := by
  unfold addConstant
  split
  · next i hi =>
    obtain ⟨hlt, hsame, -⟩ := List.findIdx?_eq_some_iff_getElem.1 hi
    exact .inl ⟨i, _, List.getElem?_eq_getElem hlt, hsame, rfl⟩
  · exact .inr ⟨rfl, rfl⟩

theorem prefix_addConstant : file.pool <+: (file.addConstant c).1.pool := by
  rcases addConstant_cases file c with ⟨i, d, -, -, e⟩ | ⟨e, -⟩
  · rw [e]
  · rw [e]
    exact List.prefix_append _ _

/-- The index stands for the constant that was asked for, or for the opposite zero. -/
theorem addConstant_entry (file : ClassFile) (c : Constant) :
    ∃ d, poolEntry? (file.addConstant c).1.pool (file.addConstant c).2 = some d ∧
      (d = c ∨ d.OppositeZeros c) := by
  rcases addConstant_cases file c with ⟨i, d, hd, hsame, e⟩ | ⟨hpool, hindex⟩
  · rw [e]
    exact ⟨d, hd, Constant.eq_or_oppositeZeros hsame⟩
  · rw [hpool, hindex]
    exact ⟨c, by simp [ poolEntry?], .inl rfl⟩

theorem Padded.addConstant (h : Padded file.pool) (c : Constant) :
    Padded (file.addConstant c).1.pool := by
  rcases addConstant_cases file c with ⟨i, d, -, -, e⟩ | ⟨e, -⟩
  · rw [e]
    exact h
  · rw [e]
    exact h.append c

/-- An index keeps its entry when the pool grows. -/
theorem poolEntry?_of_prefix (h : pool <+: pool') {i : Nat}
    (hi : poolEntry? pool i = some c) : poolEntry? pool' i = some c := by
  cases i with
  | zero => cases hi
  | succ i =>
    obtain ⟨more, rfl⟩ := h
    exact (List.getElem?_append_left (List.getElem?_eq_some_iff.1 hi).1).trans hi

theorem poolEntry?_le {i : Nat} (hi : poolEntry? pool i = some c) :
    i ≤ pool.length := by
  cases i with
  | zero => exact Nat.zero_le _
  | succ i => exact (List.getElem?_eq_some_iff.1 hi).1

end ClassFile

namespace BuildStep

variable {file : ClassFile} {step : BuildStep} {c : Constant}

theorem index?_eq (h : step.constant? = some c) :
    step.index? file = some (file.addConstant c).2 := by
  cases step with
  | addConstant =>
    cases h
    rfl
  | addConstantField =>
    cases h
    simp [index?, ClassFile.addConstantField]
  | _ => cases h

/-- Only the constant of a call goes into the pool. -/
theorem pool_apply : (step.apply file).pool =
    match step.constant? with
    | some c => (file.addConstant c).1.pool
    | none => file.pool := by
  cases step <;> rfl

theorem prefix_apply : file.pool <+: (step.apply file).pool := by
  rw [pool_apply]
  split
  · exact ClassFile.prefix_addConstant
  · exact List.prefix_rfl

theorem padded_apply (h : ClassFile.Padded file.pool) : ClassFile.Padded (step.apply file).pool := by
  rw [pool_apply]
  split
  · exact h.addConstant _
  · exact h

end BuildStep

/-! ## Sequences of calls -/

namespace ClassFile

theorem prefix_extended (steps : List BuildStep) : ∀ file : ClassFile,
    file.pool <+: (file.extended steps).pool := by
  induction steps with
  | nil => exact fun _ => List.prefix_rfl
  | cons step steps ih => exact fun file => BuildStep.prefix_apply.trans (ih (step.apply file))

theorem padded_extended (steps : List BuildStep) : ∀ {file : ClassFile}, Padded file.pool →
    Padded (file.extended steps).pool := by
  induction steps with
  | nil => exact fun h => h
  | cons step steps ih => exact fun h => ih (BuildStep.padded_apply h)

theorem padded_built (interface : Bool) (name : String) (steps : List BuildStep) :
    Padded (built interface name steps).pool := by
  refine padded_extended steps ?_
  cases interface <;> exact nofun

/-- **What an index of a constant stands for.**  However a class is assembled, an index that a call
    gives out for its constant stands for this constant from then on, unless the constant is a
    floating-point zero and stands for the opposite one.  No entry of the pool ever moves.  An empty
    entry follows every wide one, and no index is given out for it but for an empty constant.  As long
    as the pool has no more entries than 16 bits can count, the index has 16 bits. -/
theorem built_denotes (interface : Bool) (name : String) (before : List BuildStep) {step : BuildStep}
    {c : Constant} {i : Nat} (hc : step.constant? = some c)
    (hi : step.index? (built interface name before) = some i) :
    (∃ d, (d = c ∨ d.OppositeZeros c) ∧
      ∀ after, (built interface name (before ++ step :: after)).constant? i = some d) ∧
    (∀ after, (built interface name before).pool <+:
      (built interface name (before ++ step :: after)).pool) ∧
    (∀ after j w, (built interface name (before ++ step :: after)).constant? j = some w →
      w.isWide = true →
        (built interface name (before ++ step :: after)).constant? (j + 1) = some .empty ∧
          (c ≠ .empty → i ≠ j + 1)) ∧
    ∀ after, (built interface name (before ++ step :: after)).pool.length < 0x10000 →
      i < 0x10000 := by
  have hpool : (step.apply (built interface name before)).pool =
      ((built interface name before).addConstant c).1.pool := by
    rw [BuildStep.pool_apply, hc]
  cases (BuildStep.index?_eq hc).symm.trans hi
  obtain ⟨d, hd, hdc⟩ := addConstant_entry (built interface name before) c
  have stays (after : List BuildStep) :
      (built interface name (before ++ step :: after)).constant?
        ((built interface name before).addConstant c).2 = some d := by
    rw [built_append]
    exact poolEntry?_of_prefix (prefix_extended after _) (hpool ▸ hd)
  refine ⟨⟨d, hdc, stays⟩, fun after => ?_, fun after j w hj hw => ?_, fun after hsize => ?_⟩
  · rw [built_append]
    exact BuildStep.prefix_apply.trans (prefix_extended after _)
  · have hempty : (built interface name (before ++ step :: after)).constant? (j + 1) =
        some .empty := by
      cases j with
      | zero => cases hj
      | succ j => exact padded_built interface name _ j w hj hw
    refine ⟨hempty, fun hne he => ?_⟩
    cases (he ▸ stays after).symm.trans hempty
    rcases hdc with rfl | ⟨h, -⟩ | ⟨h, -⟩ | ⟨h, -⟩ | ⟨h, -⟩
    · exact hne rfl
    all_goals cases h
  · exact Nat.lt_of_le_of_lt (poolEntry?_le (stays after)) hsize

/-- A wide constant that is asked for again, by a field, and stays what it is. -/
theorem built_denotes_again :
    (BuildStep.addConstantField "x" "J" (.long 7)).index?
        (built false "A" [.addConstant (.long 7), .addConstant (.int 1)]) = some 1 ∧
      (built false "A" [.addConstant (.long 7), .addConstant (.int 1),
        .addConstantField "x" "J" (.long 7), .addConstant (.float 0x7FC00000)]).constant? 1 =
          some (.long 7) := by
  have hi : (BuildStep.addConstantField "x" "J" (.long 7)).index?
      (built false "A" [.addConstant (.long 7), .addConstant (.int 1)]) = some 1 := by decide +kernel
  obtain ⟨⟨d, hd, stays⟩, -⟩ := built_denotes false "A" _ (c := .long 7) rfl hi
  have hlong : d = .long 7 := by
    rcases hd with rfl | ⟨-, h⟩ | ⟨-, h⟩ | ⟨-, h⟩ | ⟨-, h⟩
    · rfl
    all_goals cases h
  exact ⟨hi, hlong ▸ stays [.addConstant (.float 0x7FC00000)]⟩

/-- A negative zero that is asked for after a positive one is not kept apart from it. -/
theorem not_denotes_negative_zero :
    (BuildStep.addConstant (.double 0x8000000000000000)).index?
        (built false "A" [.addConstant (.double 0)]) = some 1 ∧
      (built false "A" [.addConstant (.double 0),
        .addConstant (.double 0x8000000000000000)]).constant? 1 ≠
          some (.double 0x8000000000000000) := by
  decide +kernel

end ClassFile

end GreenVm
