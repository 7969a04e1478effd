/-
  Strings as programs see them.

  * `codeUnits_append`, `stringHash_append`: code units and hashes of a text that is put together
    from two; the hash of the first is moved up by as many places as the second has units.
  * `Machine.HasText m r s`: the object is a string with that text.
  * `Machine.Answers m op r args x`: what an operation of strings answers; it changes nothing.
  * `StringOp.concat_spec`: a concatenation, told by what the operations answer of it and of its
    parts.
-/
import GreenVm.Proofs.ArrayCopy
import GreenVm.Proofs.Faults.Runs

namespace GreenVm

open Exec

/-! ## Texts put together -/

theorem codeUnits_append (s t : String) : codeUnits (s ++ t) = codeUnits s ++ codeUnits t := by
  rw [codeUnits, String.toList_append, List.flatMap_append]
  rfl

theorem unitCount_append (s t : String) : unitCount (s ++ t) = unitCount s + unitCount t := by
  simp only [unitCount_eq_length, codeUnits_append, List.length_append]

/-- Hashing on from some value moves it up by a place for each unit. -/
theorem foldl_hash (units : List UInt16) (h : Int32) :
    units.foldl (fun h u => h * 31 + u.toUInt32.toInt32) h =
      h * 31 ^ units.length + units.foldl (fun h u => h * 31 + u.toUInt32.toInt32) 0 := by
  induction units generalizing h with
  | nil => simp
  | cons u units ih =>
    rw [List.foldl_cons, List.foldl_cons, ih, ih (0 * 31 + u.toUInt32.toInt32), List.length_cons]
    grind

theorem stringHash_append (s t : String) :
    stringHash (s ++ t) = stringHash s * 31 ^ unitCount t + stringHash t := by
  rw [stringHash, codeUnits_append, List.foldl_append, foldl_hash, unitCount_eq_length]
  rfl

/-! ## Units at an index -/

section Units

variable {s t : String} {i : Int32} {n : Nat}

theorem exists_unitAt? (h : n < unitCount s) : ∃ u, unitAt? s n = some u := by
  rw [unitCount_eq_length] at h
  exact ⟨_, (unitAt?_eq_getElem? s n).trans (List.getElem?_eq_getElem h)⟩

theorem unitAt?_append_left (h : n < unitCount s) : unitAt? (s ++ t) n = unitAt? s n := by
  rw [unitCount_eq_length] at h
  rw [unitAt?_eq_getElem?, unitAt?_eq_getElem?, codeUnits_append, List.getElem?_append_left h]

theorem unitAt?_append_right (h : unitCount s ≤ n) :
    unitAt? (s ++ t) n = unitAt? t (n - unitCount s) := by
  rw [unitCount_eq_length] at h ⊢
  rw [unitAt?_eq_getElem?, unitAt?_eq_getElem?, codeUnits_append, List.getElem?_append_right h]

theorem unitAt?_eq_none (h : unitCount s ≤ n) : unitAt? s n = none := by
  rw [unitCount_eq_length] at h
  rw [unitAt?_eq_getElem?, List.getElem?_eq_none h]

theorem unitAt_of_some {u : UInt16} (hi : i.toInt = n) (hu : unitAt? s n = some u) :
    unitAt s i = .ok u := by
  have hnn : ¬ i < 0 := by
    rw [Int32.lt_iff_toInt_lt, hi]
    exact Int.not_lt.2 (Int.natCast_nonneg n)
  rw [unitAt, if_neg hnn, hi, Int.toNat_natCast, hu]

theorem unitAt_of_outside (hi : i.toInt < 0 ∨ unitCount s ≤ i.toInt) :
    unitAt s i = .error (.stringIndex i.toInt (unitCount s)) := by
  rw [unitAt]
  split
  · next u hu =>
    -- a unit that is found is one of the text
    split at hu
    · cases hu
    · next hnn =>
      rw [Int32.lt_iff_toInt_lt] at hnn
      have hle : unitCount s ≤ i.toInt.toNat := by
        have : (0 : Int32).toInt = 0 := rfl
        omega
      cases (unitAt?_eq_none hle).symm.trans hu
  · rfl

end Units

/-! ## String objects -/

/-- The object is a string with that text. -/
def Machine.HasText (m : Machine) (r : Ref) (s : String) : Prop :=
  ∃ o, m.heap.get? r = some o ∧ o.payload.text = some s

/-- The same call, on an object and with other arguments. -/
def NativeCall.on (call : NativeCall) (r : Ref) (args : List Value) : NativeCall :=
  { call with receiver := some r, args }

/-- What an operation of strings answers on an object, whoever calls it.  It changes nothing. -/
def Machine.Answers (m : Machine) (op : StringOp) (r : Ref) (args : List Value)
    (x : Except Fault Value) : Prop :=
  ∀ call : NativeCall, outcome ((Builtin.string op).run (call.on r args)) m = (x.map some, m)

variable {m m' : Machine} {r a b : Ref} {s t : String} {call : NativeCall} {args : List Value}

theorem Exec.outcome_textOf (h : m.HasText r s) : outcome (textOf r) m = (.ok s, m) := by
  obtain ⟨o, ho, hs⟩ := h
  rw [textOf, outcome_bind_ok (outcome_object ho)]
  simp only [hs, outcome_pure]

theorem NativeCall.outcome_this : outcome (liftM (call.on r args).this : Exec Ref) m = (.ok r, m) := rfl

theorem NativeCall.outcome_thisText (h : m.HasText r s) :
    outcome (call.on r args).thisText m = (.ok s, m) := by
  rw [thisText, outcome_bind_ok outcome_this, outcome_textOf h]

theorem NativeCall.outcome_stringArg {i : Nat} (hi : call.args[i]? = some (.ofRef r))
    (h : m.HasText r s) : outcome (call.stringArg i) m = (.ok (some s), m) := by
  have hreference : outcome (liftM (Value.ofRef r).asReference : Exec (Option Ref)) m =
      (.ok (some r), m) := rfl
  rw [stringArg, outcome_bind_ok (Builtin.outcome_arg hi m), outcome_bind_ok hreference]
  simp only [outcome_map, outcome_textOf h, Except.map]

namespace Machine.HasText

/-- Objects that are there keep their texts when one is added. -/
theorem allocate (h : m.HasText r s) (loaded : Loaded) (o : Object) :
    HasText { m with loaded, heap := (m.heap.allocate o).2 } r s :=
  h.imp fun _ ho => ⟨Heap.get?_allocate_of_get? ho.1, ho.2⟩

theorem answers_length (h : m.HasText r s) :
    m.Answers .length r [] (.ok (.int (.ofNat (unitCount s)))) := by
  intro call
  have hrun : outcome ((Builtin.string .length).run (call.on r [])) m = outcome (do
    return some (Value.int (.ofNat (unitCount (← (call.on r []).thisText)))) : Exec _) m := rfl
  rw [hrun, outcome_bind_ok (NativeCall.outcome_thisText h), outcome_pure]
  rfl

theorem answers_hashCode (h : m.HasText r s) :
    m.Answers .hashCode r [] (.ok (.int (stringHash s))) := by
  intro call
  have hrun : outcome ((Builtin.string .hashCode).run (call.on r [])) m = outcome (do
    return some (Value.int (stringHash (← (call.on r []).thisText))) : Exec _) m := rfl
  rw [hrun, outcome_bind_ok (NativeCall.outcome_thisText h), outcome_pure]
  rfl

theorem answers_charAt (h : m.HasText r s) (i : Int32) :
    m.Answers .charAt r [.int i] ((unitAt s i).map fun u => .int u.toUInt32.toInt32) := by
  intro call
  have hrun : outcome ((Builtin.string .charAt).run (call.on r [.int i])) m = outcome (do
    let text ← (call.on r [.int i]).thisText
    let index ← (← (call.on r [.int i]).arg 0).asInt
    let u ← unitAt text index
    return some (Value.int u.toUInt32.toInt32) : Exec _) m := rfl
  rw [hrun, outcome_bind_ok (NativeCall.outcome_thisText h),
    outcome_bind_ok (Builtin.outcome_arg rfl m), outcome_bind_ok (Builtin.outcome_asInt i m)]
  cases unitAt s i <;> rfl

end Machine.HasText

/-! ## Concatenation -/

/-- A concatenation is a string of both texts, one after the other.  Whatever is there stays. -/
theorem StringOp.outcome_concat (hm : m.Complete) (ha : m.HasText a s) (hb : m.HasText b t)
    (call : NativeCall) :
    ∃ c m', outcome ((Builtin.string .concat).run (call.on a [.ofRef b])) m =
        (.ok (some (.ofRef c)), m') ∧
      (∀ r o, m.heap.get? r = some o → m'.heap.get? r = some o) ∧ m'.HasText c (s ++ t) := by
  have hthis : outcome (liftM (call.on a [.ofRef b]).this : Exec Ref) m = (.ok a, m) := rfl
  have hrun : outcome ((Builtin.string .concat).run (call.on a [.ofRef b])) m =
      if t == "" then (.ok (some (.ofRef a)), m)
      else outcome (do return some (.ofRef (← newString (s ++ t))) : Exec (Option Value)) m := by
    rw [Builtin.run, StringOp.run, outcome_bind_ok (NativeCall.outcome_thisText ha),
      outcome_bind_ok (NativeCall.outcome_stringArg rfl hb)]
    dsimp only
    split
    · rw [outcome_bind_ok hthis, outcome_pure]
    · rfl
  by_cases ht : t = ""
  · subst ht
    exact ⟨a, m, hrun, fun _ _ h => h, by rwa [String.append_empty]⟩
  · obtain ⟨c, loaded, hnew⟩ := hm.string (s ++ t)
    rw [if_neg (by simpa using ht), outcome_bind_ok hnew, outcome_pure] at hrun
    exact ⟨_, _, hrun, fun _ _ h => Heap.get?_allocate_of_get? h, _,
      Heap.get?_allocate.trans (if_pos rfl), rfl⟩

section Concatenated

variable {c : Ref} {i : Int32}

/-- The number of units as an int, where it is one. -/
theorem toInt_unitCount (h : unitCount s < 0x80000000) :
    (Int32.ofNat (unitCount s)).toInt = unitCount s := Int32.toInt_ofNat_of_lt h

theorem Machine.HasText.charAt_left (ha : m.HasText a s) (hc : m.HasText c (s ++ t))
    (h0 : 0 ≤ i.toInt) (hi : i.toInt < unitCount s) :
    ∃ u, m.Answers .charAt a [.int i] (.ok (.int u)) ∧
      m.Answers .charAt c [.int i] (.ok (.int u)) := by
  obtain ⟨n, hn⟩ := Int.eq_ofNat_of_zero_le h0
  have hlt : n < unitCount s := by omega
  obtain ⟨u, hu⟩ := exists_unitAt? hlt
  have hfirst := ha.answers_charAt i
  have hboth := hc.answers_charAt i
  rw [unitAt_of_some hn hu] at hfirst
  rw [unitAt_of_some hn ((unitAt?_append_left hlt).trans hu)] at hboth
  exact ⟨_, hfirst, hboth⟩

theorem Machine.HasText.charAt_right (hb : m.HasText b t) (hc : m.HasText c (s ++ t))
    (h0 : unitCount s ≤ i.toInt) (hi : i.toInt < unitCount s + unitCount t) :
    ∃ u, m.Answers .charAt b [.int (i - .ofNat (unitCount s))] (.ok (.int u)) ∧
      m.Answers .charAt c [.int i] (.ok (.int u)) := by
  obtain ⟨n, hn⟩ := Int.eq_ofNat_of_zero_le (Int.le_trans (Int.natCast_nonneg _) h0)
  have hle : unitCount s ≤ n := by omega
  obtain ⟨u, hu⟩ : ∃ u, unitAt? t (n - unitCount s) = some u := exists_unitAt? (by omega)
  have hcount := toInt_unitCount (s := s) (by have := i.toInt_lt; omega)
  have hdiff : (i - Int32.ofNat (unitCount s)).toInt = (n - unitCount s : Nat) := by
    rw [Int32.toInt_sub_of_le _ _ (Int32.le_iff_toInt_le.2 ?_) (Int32.le_iff_toInt_le.2 ?_), hcount]
    · omega
    · rw [hcount]
      exact Int.natCast_nonneg _
    · rwa [hcount]
  have hsecond := hb.answers_charAt (i - Int32.ofNat (unitCount s))
  have hboth := hc.answers_charAt i
  rw [unitAt_of_some hdiff hu] at hsecond
  rw [unitAt_of_some hn ((unitAt?_append_right hle).trans hu)] at hboth
  exact ⟨_, hsecond, hboth⟩

theorem Machine.HasText.charAt_outside (hc : m.HasText c (s ++ t))
    (hi : i.toInt < 0 ∨ unitCount s + unitCount t ≤ i.toInt) :
    m.Answers .charAt c [.int i] (.error (.stringIndex i.toInt (unitCount s + unitCount t))) := by
  have hboth := hc.answers_charAt i
  rw [unitAt_of_outside (by rw [unitCount_append]; omega), unitCount_append] at hboth
  exact hboth

end Concatenated

/-- **A string that is put together from two.**  Concatenation always gives a string and leaves
    everything as it is.  The length of the string is that of both, as an int; it shows the units of
    the first and after them those of the second, a surrogate pair at the seam or not; it throws for
    just the indices that are negative or not below the length; and its hash is that of the first,
    moved up by a place for each unit of the second, and that of the second. -/
theorem StringOp.concat_spec (hm : m.Complete) (ha : m.HasText a s) (hb : m.HasText b t)
    (call : NativeCall) :
    ∃ (c : Ref) (m' : Machine) (la lb : Int32),
      outcome ((Builtin.string .concat).run (call.on a [.ofRef b])) m =
        (.ok (some (.ofRef c)), m') ∧
      (∀ r o, m.heap.get? r = some o → m'.heap.get? r = some o) ∧ m'.HasText c (s ++ t) ∧
      m'.Answers .length a [] (.ok (.int la)) ∧ m'.Answers .length b [] (.ok (.int lb)) ∧
      m'.Answers .length c [] (.ok (.int (la + lb))) ∧
      (unitCount s + unitCount t < 0x80000000 → la.toInt = unitCount s ∧ lb.toInt = unitCount t ∧
        (la + lb).toInt = unitCount s + unitCount t) ∧
      (∀ i : Int32, 0 ≤ i.toInt → i.toInt < unitCount s → ∃ u,
        m'.Answers .charAt a [.int i] (.ok (.int u)) ∧
          m'.Answers .charAt c [.int i] (.ok (.int u))) ∧
      (∀ i : Int32, unitCount s ≤ i.toInt → i.toInt < unitCount s + unitCount t → ∃ u,
        m'.Answers .charAt b [.int (i - la)] (.ok (.int u)) ∧
          m'.Answers .charAt c [.int i] (.ok (.int u))) ∧
      (∀ i : Int32, i.toInt < 0 ∨ unitCount s + unitCount t ≤ i.toInt →
        m'.Answers .charAt c [.int i] (.error (.stringIndex i.toInt (unitCount s + unitCount t)))) ∧
      ∃ x y, m'.Answers .hashCode a [] (.ok (.int x)) ∧ m'.Answers .hashCode b [] (.ok (.int y)) ∧
        m'.Answers .hashCode c [] (.ok (.int (x * 31 ^ unitCount t + y))) := by
  obtain ⟨c, m', hrun, hkept, hc⟩ := outcome_concat hm ha hb call
  have ha' : m'.HasText a s := ha.imp fun _ h => ⟨hkept _ _ h.1, h.2⟩
  have hb' : m'.HasText b t := hb.imp fun _ h => ⟨hkept _ _ h.1, h.2⟩
  have hlength := hc.answers_length
  rw [unitCount_append, Int32.ofNat_add] at hlength
  have hhash := hc.answers_hashCode
  rw [stringHash_append] at hhash
  refine ⟨c, m', .ofNat (unitCount s), .ofNat (unitCount t), hrun, hkept, hc, ha'.answers_length,
    hb'.answers_length, hlength, fun hN => ?_, fun i => ha'.charAt_left hc,
    fun i => hb'.charAt_right hc, fun i => hc.charAt_outside, _, _, ha'.answers_hashCode,
    hb'.answers_hashCode, hhash⟩
  refine ⟨toInt_unitCount (by omega), toInt_unitCount (by omega), ?_⟩
  rw [← Int32.ofNat_add, Int32.toInt_ofNat_of_lt hN, Int.natCast_add]

/-- A machine that has made strings of some texts, one after the other. -/
def Machine.ofTexts (texts : List String) : Machine :=
  (outcome (texts.forM fun text => discard (newString text) : Exec Unit) (.boot {} .empty 0)).2

theorem Machine.complete_ofTexts (texts : List String) : (ofTexts texts).Complete :=
  have booted : Vm.Sound .idle (.boot {} .empty 0) := .boot {} .empty 0
  .kept (.forM fun _ _ => .discard newString_within) _ booted.complete

theorem Machine.hasText_of_any (h : (m.heap.get? r).any (·.payload.text == some s) = true) :
    m.HasText r s := by
  obtain ⟨o, ho, hs⟩ := (Option.any_eq_true _ _).1 h
  exact ⟨o, ho, eq_of_beq hs⟩

/-- Two surrogate pairs meet at the seam. -/
theorem StringOp.concat_spec_pairs :
    (Machine.ofTexts ["x𝄞", "𝄞y"]).Complete ∧
      (Machine.ofTexts ["x𝄞", "𝄞y"]).HasText ⟨0⟩ "x𝄞" ∧
      (Machine.ofTexts ["x𝄞", "𝄞y"]).HasText ⟨1⟩ "𝄞y" ∧
      ∃ (c : Ref) (m' : Machine) (la lb : Int32), m'.HasText c "x𝄞𝄞y" ∧
        (la + lb).toInt = 6 ∧ m'.Answers .length c [] (.ok (.int (la + lb))) ∧
        (∃ u, m'.Answers .charAt ⟨1⟩ [.int (3 - la)] (.ok (.int u)) ∧
          m'.Answers .charAt c [.int 3] (.ok (.int u))) ∧
        m'.Answers .charAt c [.int 6] (.error (.stringIndex 6 6)) := by
  have hm := Machine.complete_ofTexts ["x𝄞", "𝄞y"]
  have h : ((Machine.ofTexts ["x𝄞", "𝄞y"]).heap.get? ⟨0⟩).any (·.payload.text == some "x𝄞") = true ∧
      ((Machine.ofTexts ["x𝄞", "𝄞y"]).heap.get? ⟨1⟩).any (·.payload.text == some "𝄞y") = true := by
    decide +kernel
  have ha := Machine.hasText_of_any h.1
  have hb := Machine.hasText_of_any h.2
  have hs : unitCount "x𝄞" = 3 := by decide +kernel
  have ht : unitCount "𝄞y" = 3 := by decide +kernel
  obtain ⟨c, m', la, lb, -, -, hc, -, -, hlength, hsize, -, right, outside, -⟩ :=
    concat_spec hm ha hb default
  rw [hs, ht] at hsize right outside
  exact ⟨hm, ha, hb, c, m', la, lb, hc, (hsize (by decide)).2.2, hlength,
    right 3 (by decide) (by decide), outside 6 (by decide)⟩

end GreenVm
