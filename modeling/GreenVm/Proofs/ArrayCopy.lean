/-
  Copying between arrays.

  * `Object.Regular`: an object of a class of arrays is an array, and of one of arrays of numbers has
    no class for the elements.
  * `Vm.regular_after`: so is every object in every state that a virtual machine can reach.
  * `Machine.CopyEnds`: how many elements are copied from one array to another.
  * `Builtin.arraycopy_spec`: what comes of `System.arraycopy`, for all arguments.
-/
import GreenVm.Proofs.ElementAccess

namespace GreenVm

open Exec

variable {m m' : Machine} {r r' : Ref} {o s t : Object} {v : Value} {vs : List Value} {host : Host}
  {values values' : Array Value}

/-! ## Regular objects -/

instance : Lasting Object.Shaped where
  of_fills hf hm := hf.shaped hm
  of_same ht hb hs := hs.of_same ht hb
  setElement place v hs := hs.setElement place v

/-- An object of a class of arrays is an array, and of one of arrays of numbers has no class for the
    elements. -/
structure Object.Regular (o : Object) : Prop where
  elements : ∀ t, o.type.declared.component = some t → ∃ values, o.body = .elements values
  primitive : ∀ t, o.type.declared.component = some t → t.isPrimitive = true → o.type.element = none

/-- An object of a class that is defined is regular if it is shaped as its class says. -/
theorem Object.Shaped.regular (hs : o.Shaped) (hd : m.Defines o.type) : o.Regular where
  elements t ht := by
    cases hb : o.body with
    | elements values => exact ⟨values, rfl⟩
    | fields slots =>
      rcases hs slots hb with hn | hn
      · cases ht.symm.trans hn
      · cases (Sources.Defines.isAbstract_of_component hd ht).symm.trans hn
  primitive t ht hp := by
    cases he : o.type.element with
    | none => rfl
    | some e =>
      rw [FieldType.isPrimitive, Sources.Defines.isReference hd ht he] at hp
      cases hp

/-- In every state that a virtual machine can reach, all objects are regular. -/
theorem Vm.regular_after (hh : host.Within KeepsInit) (hs : host.Within (KeepsEach Object.Shaped))
    (config : Config) (classPath : Table String ClassFile) (wallClock : Nat) (as : List Action)
    (ho : ((boot config classPath wallClock).after host as).machine.heap.get? r = some o) :
    o.Regular := by
  obtain ⟨lost, h⟩ := (Initializing.boot config classPath wallClock).after hh as
  exact ((each_after hs config classPath wallClock as).objects r o ho).regular (h.machine.types r o ho)

/-! ## Setting several elements -/

/-- Setting elements in a row changes these and no others. -/
theorem Object.setElements_eq (hb : o.body = .elements values) {place : Nat}
    (hp : place + vs.length ≤ values.size) :
    ∃ new, o.setElements place vs = { o with body := .elements new } ∧ new.size = values.size ∧
      ∀ l, new[l]? = if place ≤ l ∧ l < place + vs.length then vs[l - place]? else values[l]? := by
  induction vs generalizing o values place with
  | nil =>
    refine ⟨values, by rw [setElements, ← hb], rfl, fun l => ?_⟩
    rw [if_neg (by simp only [List.length_nil]; omega)]
  | cons v vs ih =>
    have hset : o.setElement place v =
        { o with body := .elements (values.setIfInBounds place v) } := by
      rw [setElement, hb]
      rfl
    have hnext : (o.setElement place v).body = .elements (values.setIfInBounds place v) := by
      rw [hset]
    rw [List.length_cons] at hp
    have hroom : place + 1 + vs.length ≤ (values.setIfInBounds place v).size := by
      rw [Array.size_setIfInBounds]
      omega
    obtain ⟨new, heq, hsize, hget⟩ := ih hnext hroom
    refine ⟨new, by rw [setElements, heq, hset], by rw [hsize, Array.size_setIfInBounds], fun l => ?_⟩
    rw [hget, Array.getElem?_setIfInBounds, List.length_cons]
    by_cases hl : l = place
    · subst hl
      rw [if_neg (by omega), if_pos rfl, if_pos (by omega), if_pos (by omega), Nat.sub_self]
      rfl
    · rw [if_neg (Ne.symm hl)]
      by_cases hin : place + 1 ≤ l ∧ l < place + 1 + vs.length
      · rw [if_pos hin, if_pos (by omega), show l - place = (l - (place + 1)) + 1 by omega,
          List.getElem?_cons_succ]
      · rw [if_neg hin, if_neg (by omega)]

/-! ## How much is copied -/

/-- Of `n` elements of an array from `i` on, `k` can be copied to another: all before the first that
    the other does not take.  An array takes all of its own. -/
structure Machine.CopyEnds (m : Machine) (r r' : Ref) (t : Object) (values : Array Value)
    (i n k : Nat) : Prop where
  le : k ≤ n
  taken : ∀ l < k, ∀ v, values[i + l]? = some v → r = r' ∨ t.Takes m.heap v
  refused : k < n → ∃ v, values[i + k]? = some v ∧ r ≠ r' ∧ ¬ t.Takes m.heap v

theorem Heap.mayHold_iff {h : Heap} {e : Class} (he : t.type.element = some e) :
    h.mayHold e v = true ↔ t.Takes h v := by
  have taken (hv : ∀ x, v ≠ .ofRef x) : t.Takes h v := fun x _ _ hx => absurd hx (hv x)
  cases v with
  | reference y =>
    cases y with
    | none => exact ⟨fun _ => taken nofun, fun _ => rfl⟩
    | some x =>
      rw [mayHold, Option.all_eq_true]
      refine ⟨fun hall x' k e' hx hk he' => ?_, fun ht k hk => ht x k e rfl hk he⟩
      cases hx
      cases he.symm.trans he'
      exact hall k hk
  | _ => exact ⟨fun _ => taken nofun, fun _ => rfl⟩

/-- The elements of an array in a range. -/
theorem getElem?_extract {i n l : Nat} (hl : l < n) :
    (values.extract i (i + n)).toList[l]? = values[i + l]? := by
  rw [Array.getElem?_toList, Array.getElem?_extract]
  split
  · rfl
  · rw [Array.getElem?_eq_none (by omega)]

/-- What one array takes of another are the elements before the end. -/
theorem takenBy_ends (m : Machine) (t : Object) (r r' : Ref) {i n : Nat}
    (hin : i + n ≤ values.size) :
    ∃ k, takenBy m.heap t (r == r') (values.extract i (i + n)).toList =
        (values.extract i (i + n)).toList.take k ∧ m.CopyEnds r r' t values i n k := by
  have hlength : (values.extract i (i + n)).toList.length = n := by
    rw [Array.length_toList, Array.size_extract]
    omega
  have all (h : ∀ v, r = r' ∨ t.Takes m.heap v) :
      (values.extract i (i + n)).toList = (values.extract i (i + n)).toList.take n ∧
        m.CopyEnds r r' t values i n n :=
    ⟨(List.take_of_length_le hlength.le).symm, le_rfl, fun _ _ v _ => h v, fun hn => by omega⟩
  unfold takenBy
  split
  · next e he =>
    split
    · next hself => exact ⟨n, all fun _ => .inl (beq_iff_eq.1 hself)⟩
    · next hother =>
      have hne : r ≠ r' := fun h => hother (beq_iff_eq.2 h)
      refine ⟨_, List.takeWhile_eq_take_findIdx_not, List.findIdx_le_length.trans hlength.le,
        fun l hl v hv => ?_, fun hk => ?_⟩
      · have hlt := hl.trans_le (List.findIdx_le_length.trans hlength.le)
        have held := List.not_of_lt_findIdx hl
        rw [← getElem?_extract hlt, List.getElem?_eq_some_iff] at hv
        obtain ⟨_, rfl⟩ := hv
        exact .inr ((Heap.mayHold_iff he).1 (by simpa using held))
      · have hlt := hk.trans_eq hlength.symm
        refine ⟨_, (getElem?_extract hk).symm.trans (List.getElem?_eq_getElem hlt), hne, fun ht => ?_⟩
        have refused := List.findIdx_getElem (w := hlt)
        rw [(Heap.mayHold_iff he).2 ht] at refused
        cases refused
  · next hnone =>
    refine ⟨n, all fun v => .inr fun x k e _ _ he => ?_⟩
    cases hnone.symm.trans he

/-! ## Copying -/

namespace Builtin

variable {call : NativeCall} {src dst : Option Ref} {i j n : Int32}

/-! ### The arguments -/

theorem outcome_arg {k : Nat} (h : call.args[k]? = some v) (m : Machine) :
    outcome (liftM (call.arg k) : Exec Value) m = (.ok v, m) := by
  rw [NativeCall.arg, h]
  rfl

theorem outcome_asObject (r : Ref) (m : Machine) :
    outcome (liftM (Value.ofRef r).asObject : Exec Ref) m = (.ok r, m) := rfl

theorem outcome_asInt (i : Int32) (m : Machine) :
    outcome (liftM (Value.int i).asInt : Exec Int32) m = (.ok i, m) := rfl

/-- Without an array to copy from, or one to copy to, nothing is done. -/
theorem outcome_arraycopy_null
    (hargs : call.args = [.reference src, .int i, .reference dst, .int j, .int n])
    (h : src = none ∨ dst = none) (m : Machine) :
    outcome ((Builtin.system .arraycopy).run call) m = (.error .nullPointer, m) := by
  have hrun : outcome ((Builtin.system .arraycopy).run call) m = outcome call.arraycopy m := rfl
  rw [hrun, NativeCall.arraycopy, outcome_bind_ok (outcome_arg (k := 0) (by rw [hargs]; rfl) m)]
  cases src with
  | none => rfl
  | some r =>
    obtain rfl : dst = none := h.resolve_left nofun
    rw [show Value.reference (some r) = .ofRef r from rfl, outcome_bind_ok (outcome_asObject r m),
      outcome_bind_ok (outcome_arg (k := 1) (by rw [hargs]; rfl) m), outcome_bind_ok (outcome_asInt i m),
      outcome_bind_ok (outcome_arg (k := 2) (by rw [hargs]; rfl) m)]
    rfl

/-- Copying between two arrays that are there: two checks, and then the copy of what is taken. -/
theorem outcome_arraycopy
    (hargs : call.args = [.ofRef r, .int i, .ofRef r', .int j, .int n])
    (hs : m.heap.get? r = some s) (ht : m.heap.get? r' = some t) :
    outcome ((Builtin.system .arraycopy).run call) m =
      match checkCopyTypes s.type t.type, checkCopyRange i.toInt n.toInt (s.arrayLength?.getD 0)
        j.toInt (t.arrayLength?.getD 0), s.body, t.body with
      | .error e, _, _, _ => (.error e, m)
      | .ok (), .error e, _, _ => (.error e, m)
      | .ok (), .ok (), .elements values, .elements _ =>
        let asked := (values.extract i.toInt.toNat (i.toInt.toNat + n.toInt.toNat)).toList
        let taken := takenBy m.heap t (r == r') asked
        (if taken.length < asked.length then .error .copyElementMismatch else .ok none,
          { m with heap := m.heap.update r' (·.setElements j.toInt.toNat taken) })
      | .ok (), .ok (), _, _ => (.error (.fatal (.typeMismatch .array .object)), m) := by
  have argument {k : Nat} {v : Value} (h : call.args[k]? = some v) := outcome_arg h m
  have hrun : outcome ((Builtin.system .arraycopy).run call) m = outcome call.arraycopy m := rfl
  rw [hrun, NativeCall.arraycopy,
    outcome_bind_ok (argument (k := 0) (by rw [hargs]; rfl)), outcome_bind_ok (outcome_asObject r m),
    outcome_bind_ok (argument (k := 1) (by rw [hargs]; rfl)), outcome_bind_ok (outcome_asInt i m),
    outcome_bind_ok (argument (k := 2) (by rw [hargs]; rfl)), outcome_bind_ok (outcome_asObject r' m),
    outcome_bind_ok (argument (k := 3) (by rw [hargs]; rfl)), outcome_bind_ok (outcome_asInt j m),
    outcome_bind_ok (argument (k := 4) (by rw [hargs]; rfl)), outcome_bind_ok (outcome_asInt n m),
    outcome_bind_ok (outcome_object hs), outcome_bind_ok (outcome_object ht)]
  rcases checkCopyTypes s.type t.type with e | ⟨⟩
  · exact outcome_bind_error (outcome_liftExcept _ _)
  rw [outcome_bind_ok (outcome_liftExcept _ _)]
  rcases checkCopyRange i.toInt n.toInt (s.arrayLength?.getD 0) j.toInt (t.arrayLength?.getD 0) with
    e | ⟨⟩
  · exact outcome_bind_error (outcome_liftExcept _ _)
  rw [outcome_bind_ok (outcome_liftExcept _ _)]
  cases hb : s.body with
  | fields =>
    simp only [Object.elements, hb]
    rfl
  | elements values =>
    cases hb' : t.body with
    | fields =>
      simp only [Object.elements, hb, hb']
      rfl
    | elements values' =>
      simp only [Object.elements, hb, hb']
      show outcome (do
        let m ← get
        let taken := takenBy m.heap t (r == r')
          (values.extract i.toInt.toNat (i.toInt.toNat + n.toInt.toNat)).toList
        updateObject r' (·.setElements j.toInt.toNat taken)
        if taken.length <
            (values.extract i.toInt.toNat (i.toInt.toNat + n.toInt.toNat)).toList.length then
          throw .copyElementMismatch
        return none : Exec (Option Value)) m = _
      rw [outcome_bind_ok (outcome_get m), outcome_bind_ok (outcome_updateObject _ _ _)]
      split <;> rfl

/-! ### The checks -/

theorem checkCopyTypes_of_not_array {c d : Class}
    (h : c.declared.component = none ∨ d.declared.component = none) :
    checkCopyTypes c d = .error .copyNotArray := by
  unfold checkCopyTypes
  rcases h with h | h
  · rw [h]
  · rw [h]
    cases c.declared.component <;> rfl

theorem checkCopyTypes_of_ne {c d : Class} {a b : FieldType} (ha : c.declared.component = some a)
    (hb : d.declared.component = some b) (hne : a ≠ b)
    (hp : a.isPrimitive = true ∨ b.isPrimitive = true) :
    checkCopyTypes c d = .error (.copyTypeMismatch a.display b.display) := by
  unfold checkCopyTypes
  rw [ha, hb]
  exact if_pos (by simp [hp, hne])

theorem checkCopyTypes_of_alike {c d : Class} {a b : FieldType} (ha : c.declared.component = some a)
    (hb : d.declared.component = some b)
    (h : a = b ∨ a.isReference = true ∧ b.isReference = true) : checkCopyTypes c d = .ok () := by
  unfold checkCopyTypes
  rw [ha, hb]
  refine if_neg ?_
  rcases h with rfl | ⟨ha, hb⟩
  · simp
  · simp [FieldType.isPrimitive, ha, hb]

/-- Copying between ranges that lie in the arrays. -/
theorem outcome_arraycopy_inside {a b : FieldType} {i₀ j₀ n₀ : Nat}
    (hargs : call.args = [.ofRef r, .int i, .ofRef r', .int j, .int n])
    (hs : m.heap.get? r = some s) (ht : m.heap.get? r' = some t) (htr : t.Regular)
    (ha : s.type.declared.component = some a) (hb : t.type.declared.component = some b)
    (halike : a = b ∨ a.isReference = true ∧ b.isReference = true)
    (hv : s.body = .elements values) (hv' : t.body = .elements values') (hi : i.toInt = i₀)
    (hj : j.toInt = j₀) (hn : n.toInt = n₀) (hin : i₀ + n₀ ≤ values.size)
    (hjn : j₀ + n₀ ≤ values'.size) :
    ∃ k m' new, m.CopyEnds r r' t values i₀ n₀ k ∧ (r = r' ∨ b.isPrimitive = true → k = n₀) ∧
      m.Rewrites m' r' t new ∧ new.size = values'.size ∧
      (∀ l, new[l]? = if j₀ ≤ l ∧ l < j₀ + k then values[i₀ + (l - j₀)]? else values'[l]?) ∧
      outcome ((Builtin.system .arraycopy).run call) m =
        (if k < n₀ then .error .copyElementMismatch else .ok none, m') := by
  have hrange : checkCopyRange i.toInt n.toInt (s.arrayLength?.getD 0) j.toInt
      (t.arrayLength?.getD 0) = .ok () := by
    simp only [Object.arrayLength?, hv, hv', Option.getD_some]
    rw [checkCopyRange, if_neg (by omega), if_neg (by omega), if_neg (by omega)]
  obtain ⟨k, htaken, hends⟩ := takenBy_ends m t r r' hin
  have hle := hends.le
  have hasked : (values.extract i₀ (i₀ + n₀)).toList.length = n₀ := by
    rw [Array.length_toList, Array.size_extract]
    omega
  have hlength : ((values.extract i₀ (i₀ + n₀)).toList.take k).length = k := by
    rw [List.length_take, hasked]
    exact min_eq_left hle
  have hroom : j₀ + ((values.extract i₀ (i₀ + n₀)).toList.take k).length ≤ values'.size := by omega
  obtain ⟨new, hset, hsize, hget⟩ := Object.setElements_eq hv' hroom
  refine ⟨k, { m with heap := m.heap.update r' (·.setElements j₀
    ((values.extract i₀ (i₀ + n₀)).toList.take k)) }, new, hends, fun h => ?_,
    ⟨rfl, fun r₁ hr₁ => Heap.get?_update_of_ne hr₁.symm, ?_⟩, hsize, fun l => ?_, ?_⟩
  · refine hle.antisymm (not_lt.1 fun hk => ?_)
    obtain ⟨v, -, hne, hrefused⟩ := hends.refused hk
    rcases h with rfl | hp
    · exact hne rfl
    · exact hrefused fun x k e _ _ he => by cases (htr.primitive b hb hp).symm.trans he
  · exact (Heap.get?_update_self ht).trans (congrArg some hset)
  · rw [hget, hlength]
    by_cases hl : j₀ ≤ l ∧ l < j₀ + k
    · rw [if_pos hl, if_pos hl, List.getElem?_take_of_lt (by omega), getElem?_extract (by omega)]
    · rw [if_neg hl, if_neg hl]
  · rw [outcome_arraycopy hargs hs ht, checkCopyTypes_of_alike ha hb halike, hrange, hv, hv']
    simp only [hi, hj, hn, Int.toNat_natCast, htaken, hlength, hasked]

/-- **Copying from one array to another, or within one.**  Without arrays nothing is done, and neither
    between arrays of different types one of which is of numbers.  If a range does not lie in its
    array, nothing is done either; bounds are those of the integers, and nothing overflows.  Otherwise
    the elements are copied up to the end, as they were before: the elements in the range are the only
    change.  The copy fails if the end comes before the whole range is copied, and it does not come
    before within one array or between arrays of numbers. -/
theorem arraycopy_spec
    (hargs : call.args = [.reference src, .int i, .reference dst, .int j, .int n]) :
    (src = none ∨ dst = none →
      outcome ((Builtin.system .arraycopy).run call) m = (.error .nullPointer, m)) ∧
    ∀ r r' s t, src = some r → dst = some r' → m.heap.get? r = some s → m.heap.get? r' = some t →
      s.Regular → t.Regular →
      (s.type.declared.component = none ∨ t.type.declared.component = none →
        outcome ((Builtin.system .arraycopy).run call) m = (.error .copyNotArray, m)) ∧
      ∀ a b, s.type.declared.component = some a → t.type.declared.component = some b →
        (a ≠ b → a.isPrimitive = true ∨ b.isPrimitive = true →
          outcome ((Builtin.system .arraycopy).run call) m =
            (.error (.copyTypeMismatch a.display b.display), m)) ∧
        (a = b ∨ a.isReference = true ∧ b.isReference = true →
          ∃ values values', s.body = .elements values ∧ t.body = .elements values' ∧
            (n.toInt < 0 → outcome ((Builtin.system .arraycopy).run call) m =
              (.error (.copyNegativeLength n.toInt), m)) ∧
            (0 ≤ n.toInt → i.toInt < 0 ∨ values.size < i.toInt + n.toInt →
              outcome ((Builtin.system .arraycopy).run call) m =
                (.error (.copySourceRange (i.toInt + n.toInt) values.size), m)) ∧
            (0 ≤ n.toInt → 0 ≤ i.toInt → i.toInt + n.toInt ≤ values.size →
              j.toInt < 0 ∨ values'.size < j.toInt + n.toInt →
              outcome ((Builtin.system .arraycopy).run call) m =
                (.error (.copyTargetRange (j.toInt + n.toInt) values'.size), m)) ∧
            ∀ i₀ j₀ n₀ : Nat, i.toInt = i₀ → j.toInt = j₀ → n.toInt = n₀ →
              i₀ + n₀ ≤ values.size → j₀ + n₀ ≤ values'.size →
              ∃ k m' new, m.CopyEnds r r' t values i₀ n₀ k ∧
                (r = r' ∨ b.isPrimitive = true → k = n₀) ∧
                m.Rewrites m' r' t new ∧ new.size = values'.size ∧
                (∀ l, new[l]? =
                  if j₀ ≤ l ∧ l < j₀ + k then values[i₀ + (l - j₀)]? else values'[l]?) ∧
                outcome ((Builtin.system .arraycopy).run call) m =
                  (if k < n₀ then .error .copyElementMismatch else .ok none, m')) := by
  refine ⟨fun h => outcome_arraycopy_null hargs h m, ?_⟩
  rintro r r' s t rfl rfl hs ht hsr htr
  have hcopy := outcome_arraycopy hargs hs ht
  refine ⟨fun h => ?_, fun a b ha hb => ⟨fun hne hp => ?_, fun halike => ?_⟩⟩
  · rw [hcopy, checkCopyTypes_of_not_array h]
  · rw [hcopy, checkCopyTypes_of_ne ha hb hne hp]
  · obtain ⟨values, hv⟩ := hsr.elements a ha
    obtain ⟨values', hv'⟩ := htr.elements b hb
    have hsize : s.arrayLength?.getD 0 = values.size := by rw [Object.arrayLength?, hv]; rfl
    have hsize' : t.arrayLength?.getD 0 = values'.size := by rw [Object.arrayLength?, hv']; rfl
    rw [checkCopyTypes_of_alike ha hb halike, hsize, hsize', hv, hv'] at hcopy
    refine ⟨values, values', hv, hv', fun hn => ?_, fun hn hi => ?_, fun hn hi hin hj => ?_,
      fun i₀ j₀ n₀ hi hj hn hin hjn =>
        outcome_arraycopy_inside hargs hs ht htr ha hb halike hv hv' hi hj hn hin hjn⟩
    · rw [hcopy, checkCopyRange, if_pos hn]
    · rw [hcopy, checkCopyRange, if_neg (by omega), if_pos hi]
      rfl
    · rw [hcopy, checkCopyRange, if_neg (by omega), if_neg (by omega), if_pos hj]
      rfl

end Builtin

/-! ## A program -/

namespace Vm

/-- A virtual machine with a main method that makes an array of three numbers and sets two of them. -/
def ofCounter : Vm :=
  .boot {} (.ofList [("A", { ClassFile.ofClass "A" with
    methods := [
      { flags := .ofList [.staticMember], name := "main", descriptor := "()V"
        code := some (.ofList 4 0 [.literal (.int 3), .newArray .int,
          .dup 1 0, .literal (.int 0), .literal (.int 7), .arrayStore .int,
          .dup 1 0, .literal (.int 1), .literal (.int 8), .arrayStore .int, .pop 1, .leave none]) }] })]) 0

/-- What runs the main method. -/
def counting : List Action := .spawn "A" "main" "()V" [] :: List.replicate 12 .turn

/-- Two elements are moved up by one place, over one of them. -/
theorem arraycopy_spec_overlap :
    ∃ (t : Object) (m m' : Machine) (new : Array Value) (call : NativeCall),
      m = (ofCounter.after .idle counting).machine ∧ m.heap.get? ⟨2⟩ = some t ∧ t.Regular ∧
      call.args = [.ofRef ⟨2⟩, .int 0, .ofRef ⟨2⟩, .int 1, .int 2] ∧
      t.body = .elements #[.int 7, .int 8, .int 0] ∧ m.Rewrites m' ⟨2⟩ t new ∧ new.size = 3 ∧
      new[0]? = some (.int 7) ∧ new[1]? = some (.int 7) ∧ new[2]? = some (.int 8) ∧
      outcome ((Builtin.system .arraycopy).run call) m = (.ok none, m') := by
  have h : ((ofCounter.after .idle counting).machine.heap.get? ⟨2⟩).any fun o =>
      o.type.declared.component = some .int ∧ o.body = .elements #[.int 7, .int 8, .int 0] := by
    decide +kernel
  obtain ⟨t, ht, h⟩ := (Option.any_eq_true _ _).1 h
  obtain ⟨hc, hb⟩ := of_decide_eq_true h
  have regular : t.Regular := regular_after Host.idle_within Host.idle_within _ _ _ counting ht
  let call : NativeCall :=
    { (default : NativeCall) with args := [.ofRef ⟨2⟩, .int 0, .ofRef ⟨2⟩, .int 1, .int 2] }
  have hargs : call.args = [.ofRef ⟨2⟩, .int 0, .ofRef ⟨2⟩, .int 1, .int 2] := rfl
  obtain ⟨values, values', hv, hv', -, -, -, copied⟩ :=
    (((Builtin.arraycopy_spec hargs).2 ⟨2⟩ ⟨2⟩ t t rfl rfl ht ht regular regular).2 .int .int hc
      hc).2 (.inl rfl)
  cases hb.symm.trans hv
  cases hb.symm.trans hv'
  obtain ⟨k, m', new, -, hk, hrewrites, hsize, hget, hx⟩ :=
    copied 0 1 2 rfl rfl rfl (by decide) (by decide)
  obtain rfl := hk (.inl rfl)
  exact ⟨t, _, m', new, _, rfl, ht, regular, rfl, hb, hrewrites, hsize, hget 0, hget 1, hget 2, hx⟩

end Vm

end GreenVm
