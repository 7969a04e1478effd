/-
  Arrays of arrays.

  * `Heap.arraysWithin`: an array and the arrays inside it down to some depth, each as often as it is
    met there.
  * `Machine.Nests m name counts r`: the object is an array of the class of that name with so many
    elements as the first number says, which are arrays again, for the other numbers and of the class
    of the name without its first bracket; at the last number they are defaults.
  * `Machine.Makes m m' name counts`: there is one new array of that kind, and nothing else is new.
  * `Exec.outcome_multiArray`: the arrays are made, one after the other, from the outside in.
  * `Frame.newMultiArray_nests`: what the instruction does with the numbers on the stack.
-/
import GreenVm.Proofs.Assignability
import GreenVm.Proofs.ElementAccess
import GreenVm.Proofs.Faults.Runs

namespace GreenVm

open Exec

/-! ## Lists and references -/

theorem take_succ_set {α : Type} {l : List α} {i : Nat} (h : i < l.length) (a : α) :
    (l.set i a).take (i + 1) = l.take i ++ [a] := by
  have hi : i < (l.set i a).length := by rwa [List.length_set]
  rw [List.take_succ_eq_append_getElem hi, List.take_set_of_le le_rfl, List.getElem_set_self]

/-- The references from one place in the heap up to another. -/
def Ref.between (lo hi : Nat) : List Ref := (List.range' lo (hi - lo)).map .mk

namespace Ref

variable {lo mid hi : Nat} {r : Ref}

theorem mem_between : r ∈ between lo hi ↔ lo ≤ r.index ∧ r.index < hi := by
  obtain ⟨i⟩ := r
  simp only [between, List.mem_map, List.mem_range'_1, mk.injEq, exists_eq_right]
  omega

theorem nodup_between (lo hi : Nat) : (between lo hi).Nodup :=
  List.Nodup.map (fun _ _ h => congrArg Ref.index h) List.nodup_range'

theorem between_append (h : lo ≤ mid) (h' : mid ≤ hi) :
    between lo mid ++ between mid hi = between lo hi := by
  rw [between, between, between, ← List.map_append]
  have hsize : hi - lo = mid - lo + (hi - mid) := by omega
  have hmid : mid = lo + (mid - lo) := by omega
  rw [hsize, ← List.range'_append_1, ← hmid]

theorem between_self (lo : Nat) : between lo lo = [] := by
  rw [between, Nat.sub_self]
  rfl

theorem between_eq_cons (h : lo < hi) : between lo hi = ⟨lo⟩ :: between (lo + 1) hi := by
  rw [between, between, show hi - lo = hi - (lo + 1) + 1 by omega, List.range'_succ]
  rfl

end Ref

/-! ## Arrays inside arrays -/

/-- The object that a value refers to. -/
def Value.ref? : Value → Option Ref
  | .reference r => r
  | _ => none

namespace Heap

variable {h h' : Heap} {r : Ref} {o : Object} {values : Array Value} {depth : Nat}

/-- The objects among the elements of an array, in order. -/
def elementRefs (h : Heap) (r : Ref) : List Ref :=
  match (h.get? r).map Object.body with
  | some (.elements values) => values.toList.filterMap Value.ref?
  | _ => []

/-- An array and the arrays inside it, down to some depth, the outer before the inner. -/
def arraysWithin (h : Heap) : Nat → Ref → List Ref
  | 0, _ => []
  | depth + 1, r => r :: (h.elementRefs r).flatMap (h.arraysWithin depth)

theorem elementRefs_eq (ho : h.get? r = some o) (hb : o.body = .elements values) :
    h.elementRefs r = values.toList.filterMap Value.ref? := by
  rw [elementRefs, ho, Option.map_some, hb]

/-- Only the arrays themselves matter. -/
theorem arraysWithin_congr (same : ∀ x ∈ h.arraysWithin depth r, h'.get? x = h.get? x) :
    h'.arraysWithin depth r = h.arraysWithin depth r := by
  induction depth generalizing r with
  | zero => rfl
  | succ depth ih =>
    obtain ⟨hr, below⟩ := List.forall_mem_cons.1 same
    have refs : h'.elementRefs r = h.elementRefs r := by rw [elementRefs, elementRefs, hr]
    rw [arraysWithin, arraysWithin, refs]
    exact congrArg (r :: ·) (List.flatMap_congr fun a ha =>
      ih fun x hx => below x (List.mem_flatMap.2 ⟨a, ha, hx⟩))

end Heap

namespace Machine

/-- The object is an array with those elements, of the class that the name means. -/
def HasArray (m : Machine) (name : String) (values : Array Value) (r : Ref) : Prop :=
  ∃ o, m.heap.get? r = some o ∧ o.type.name = name ∧ m.Defines o.type ∧ o.body = .elements values

/-- The object is an array of arrays, as deep as there are numbers, with that many elements on each
    level.  The innermost arrays hold defaults. -/
def Nests (m : Machine) : String → List Int32 → Ref → Prop
  | _, [], _ => False
  | name, [n], r => ∃ values t, m.HasArray name values r ∧ values.size = n.toInt ∧
      FieldType.ofClassName? name = some (.array t) ∧ ∀ v ∈ values.toList, v = .default t
  | name, n :: next :: rest, r => ∃ values, m.HasArray name values r ∧ values.size = n.toInt ∧
      ∀ v ∈ values.toList, ∃ a, v = .ofRef a ∧ m.Nests (elementName name) (next :: rest) a

/-- One machine has no more than another but classes that have been loaded and new objects. -/
structure Enlarges (m m' : Machine) : Prop where
  rest : m' = { m with loaded := m'.loaded, heap := m'.heap }
  loaded : m.loaded.Sound (sources m) → m'.loaded.Sound (sources m')
  objects : ∀ r o, m.heap.get? r = some o → m'.heap.get? r = some o

/-- A machine has one new array of arrays, with everything that is in it, and nothing else is new. -/
structure Makes (m m' : Machine) (name : String) (counts : List Int32) : Prop where
  enlarges : m.Enlarges m'
  nests : m'.Nests name counts ⟨m.heap.objects.size⟩
  arrays : m'.heap.arraysWithin counts.length ⟨m.heap.objects.size⟩ =
    Ref.between m.heap.objects.size m'.heap.objects.size

variable {m m' s s' : Machine} {name : String} {r : Ref} {values : Array Value} {n : Int32}
  {counts rest : List Int32}

theorem HasArray.congr (h : m.HasArray name values r) (hs : sources m' = sources m)
    (hr : m'.heap.get? r = m.heap.get? r) : m'.HasArray name values r := by
  obtain ⟨o, ho, hn, hd, hb⟩ := h
  have hd' : m'.Defines o.type := by
    rw [Defines, hs]
    exact hd
  exact ⟨o, hr.trans ho, hn, hd', hb⟩

theorem HasArray.elementRefs (h : m.HasArray name values r) :
    m.heap.elementRefs r = values.toList.filterMap Value.ref? := by
  obtain ⟨o, ho, -, -, hb⟩ := h
  exact Heap.elementRefs_eq ho hb

/-- Only the arrays themselves matter, and what the names of their classes mean. -/
theorem Nests.congr (hs : sources m' = sources m) :
    ∀ {counts : List Int32} {name : String} {r : Ref}, m.Nests name counts r →
      (∀ x ∈ m.heap.arraysWithin counts.length r, m'.heap.get? x = m.heap.get? x) →
        m'.Nests name counts r
  | [_], _, _, ⟨values, t, ha, hsize, ht, hv⟩, same =>
    ⟨values, t, ha.congr hs (same _ List.mem_cons_self), hsize, ht, hv⟩
  | _ :: next :: rest, _, _, ⟨values, ha, hsize, hv⟩, same => by
    obtain ⟨hr, below⟩ := List.forall_mem_cons.1 same
    refine ⟨values, ha.congr hs hr, hsize, fun v hmem => ?_⟩
    obtain ⟨a, rfl, hn⟩ := hv v hmem
    rw [ha.elementRefs] at below
    have inside : a ∈ values.toList.filterMap Value.ref? := List.mem_filterMap.2 ⟨_, hmem, rfl⟩
    exact ⟨a, rfl, hn.congr hs fun x hx => below x (List.mem_flatMap.2 ⟨a, inside, hx⟩)⟩

namespace Enlarges

theorem sources_eq (h : m.Enlarges m') : sources m' = sources m := by
  rw [h.rest]
  rfl

theorem size_le (h : m.Enlarges m') : m.heap.objects.size ≤ m'.heap.objects.size := by
  by_contra hlt
  have hlt : m'.heap.objects.size < m.heap.objects.size := Nat.not_le.1 hlt
  have ho : m.heap.get? ⟨m'.heap.objects.size⟩ = some m.heap.objects[m'.heap.objects.size] :=
    Heap.get?_eq_some_iff.2 ⟨hlt, rfl⟩
  exact absurd (Heap.lt_size_of_get? (h.objects _ _ ho)) (lt_irrefl _)

theorem trans (h : m.Enlarges s) (h' : s.Enlarges m') : m.Enlarges m' where
  rest := by rw [h'.rest, h.rest]
  loaded := h'.loaded ∘ h.loaded
  objects r o ho := h'.objects r o (h.objects r o ho)

theorem get?_eq (h : m.Enlarges m') (hr : r.index < m.heap.objects.size) :
    m'.heap.get? r = m.heap.get? r := by
  have ho : m.heap.get? r = some m.heap.objects[r.index] := Heap.get?_eq_some_iff.2 ⟨hr, rfl⟩
  rw [ho, h.objects _ _ ho]

/-- An array that is new may be changed. -/
theorem rewrites {o : Object} (h : m.Enlarges s) (hw : s.Rewrites m' r o values)
    (hr : m.heap.objects.size ≤ r.index) : m.Enlarges m' where
  rest := by rw [hw.rest, h.rest]
  loaded hl := by
    rw [hw.rest]
    exact h.loaded hl
  objects x k hk := by
    have hne : x ≠ r := fun e => by
      have := Heap.lt_size_of_get? hk
      rw [e] at this
      omega
    rw [hw.others x hne, h.objects x k hk]

end Enlarges

namespace Rewrites

variable {o o' : Object}

theorem sources_eq (h : m.Rewrites m' r o values) : sources m' = sources m := by
  rw [h.rest]
  rfl

/-- Changing the elements of an array adds no objects. -/
theorem size_eq (h : m.Rewrites m' r o values) (ho : m.heap.get? r = some o') :
    m'.heap.objects.size = m.heap.objects.size := by
  refine eq_of_forall_lt_iff fun i => ?_
  have there (m : Machine) : i < m.heap.objects.size ↔ (m.heap.get? ⟨i⟩).isSome = true := by
    simp [Heap.get?]
  rw [there, there]
  by_cases hi : ⟨i⟩ = r
  · rw [hi, h.array, ho]
    rfl
  · rw [h.others _ hi]

end Rewrites

/-- No array is met twice. -/
theorem Makes.nodup (h : m.Makes m' name counts) :
    (m'.heap.arraysWithin counts.length ⟨m.heap.objects.size⟩).Nodup := by
  rw [h.arrays]
  exact Ref.nodup_between _ _

/-- All arrays are new. -/
theorem Makes.get?_eq_none (h : m.Makes m' name counts)
    (hr : r ∈ m'.heap.arraysWithin counts.length ⟨m.heap.objects.size⟩) :
    m.heap.get? r = none := by
  rw [h.arrays] at hr
  exact Array.getElem?_eq_none (Ref.mem_between.1 hr).1

/-- What has been made stays as it is when an older array is changed. -/
theorem Makes.rewrites {o : Object} (h : m.Makes s name counts) (hw : s.Rewrites m' r o values)
    (hr : r.index < m.heap.objects.size) :
    m'.Nests name counts ⟨m.heap.objects.size⟩ ∧
      m'.heap.arraysWithin counts.length ⟨m.heap.objects.size⟩ =
        Ref.between m.heap.objects.size s.heap.objects.size := by
  have same (x : Ref) (hx : x ∈ s.heap.arraysWithin counts.length ⟨m.heap.objects.size⟩) :
      m'.heap.get? x = s.heap.get? x := by
    rw [h.arrays] at hx
    exact hw.others x fun e => absurd (e ▸ (Ref.mem_between.1 hx).1) (Nat.not_le.2 hr)
  exact ⟨h.nests.congr hw.sources_eq same, (Heap.arraysWithin_congr same).trans h.arrays⟩

/-! ## Making them -/

/-- An array of arrays in the making: so far the arrays `as` are in it, one made after the other. -/
structure Underway (m s : Machine) (name : String) (n : Int32) (rest : List Int32) (as : List Ref) :
    Prop where
  enlarges : m.Enlarges s
  array : ∃ values, s.HasArray name values ⟨m.heap.objects.size⟩ ∧ values.size = n.toInt ∧
    values.toList.take as.length = as.map Value.ofRef
  nests : ∀ a ∈ as, s.Nests (elementName name) rest a
  arrays : as.flatMap (s.heap.arraysWithin rest.length) =
    Ref.between (m.heap.objects.size + 1) s.heap.objects.size

namespace Underway

variable {as : List Ref} {next : Int32}

theorem lt_size (h : m.Underway s name n rest as) : m.heap.objects.size < s.heap.objects.size := by
  obtain ⟨values, ⟨o, ho, -⟩, -⟩ := h.array
  exact Heap.lt_size_of_get? ho

/-- A new array has no others inside it. -/
theorem start (h : m.Makes s name [n]) (hsize : s.heap.objects.size = m.heap.objects.size + 1) :
    m.Underway s name n rest [] := by
  obtain ⟨values, t, harray, hcount, -⟩ := h.nests
  refine ⟨h.enlarges, ⟨values, harray, hcount, rfl⟩, fun a ha => absurd ha List.not_mem_nil, ?_⟩
  rw [hsize, Ref.between_self]
  rfl

/-- The arrays that are in it stay as they are when more is made and the outer array is changed. -/
theorem rewrites {o : Object} (h : m.Underway s name n rest as) (he : s.Enlarges s')
    (hw : s'.Rewrites m' ⟨m.heap.objects.size⟩ o values) :
    (∀ a ∈ as, m'.Nests (elementName name) rest a) ∧
      as.flatMap (m'.heap.arraysWithin rest.length) =
        Ref.between (m.heap.objects.size + 1) s.heap.objects.size := by
  have same (a : Ref) (ha : a ∈ as) (x : Ref) (hx : x ∈ s.heap.arraysWithin rest.length a) :
      m'.heap.get? x = s.heap.get? x := by
    have hmem := h.arrays ▸ List.mem_flatMap.2 ⟨a, ha, hx⟩
    obtain ⟨hlo, hhi⟩ := Ref.mem_between.1 hmem
    rw [hw.others x fun e => Nat.not_succ_le_self _ (e ▸ hlo), he.get?_eq hhi]
  refine ⟨fun a ha => (h.nests a ha).congr (hw.sources_eq.trans he.sources_eq) (same a ha), ?_⟩
  rw [← h.arrays]
  exact List.flatMap_congr fun a ha => Heap.arraysWithin_congr (same a ha)

/-- With one more array inside. -/
theorem store (h : m.Underway s name n rest as) (hi : (as.length : Int) < n.toInt)
    (hmakes : s.Makes s' (elementName name) rest) :
    ∃ m', outcome (arrayStore ⟨m.heap.objects.size⟩ (.ofNat as.length)
        (.ofRef ⟨s.heap.objects.size⟩)) s' = (.ok (), m') ∧
      m.Underway m' name n rest (as ++ [⟨s.heap.objects.size⟩]) := by
  obtain ⟨values, ⟨o, ho, hname, hd, hb⟩, hsize, hfirst⟩ := h.array
  have hbound : as.length < values.size := by omega
  have hindex : (Int32.ofNat as.length).toInt = as.length :=
    Int32.toInt_ofNat_of_lt (by have := n.toInt_lt; omega)
  have ho' := hmakes.enlarges.objects _ _ ho
  obtain ⟨m', hstore, hw⟩ :=
    outcome_arrayStore (w := .ofRef ⟨s.heap.objects.size⟩) ho' hb hindex hbound
  obtain ⟨hnests, harrays⟩ := h.rewrites hmakes.enlarges hw
  obtain ⟨hlast, hnew⟩ := hmakes.rewrites hw h.lt_size
  have hdefined : m'.Defines o.type := by
    rw [Defines, hw.sources_eq, hmakes.enlarges.sources_eq]
    exact hd
  refine ⟨m', hstore, ⟨(h.enlarges.trans hmakes.enlarges).rewrites hw le_rfl,
    ⟨_, ⟨_, hw.array, hname, hdefined, rfl⟩, ?_, ?_⟩, fun a ha => ?_, ?_⟩⟩
  · rw [Array.size_setIfInBounds]
    exact hsize
  · rw [Array.toList_setIfInBounds, List.length_append, List.length_singleton, List.map_append,
      take_succ_set (by rwa [Array.length_toList]), hfirst]
    rfl
  · rcases List.mem_append.1 ha with ha | ha
    · exact hnests a ha
    · exact List.mem_singleton.1 ha ▸ hlast
  · rw [List.flatMap_append, List.flatMap_singleton, harrays, hnew, hw.size_eq ho',
      Ref.between_append h.lt_size hmakes.enlarges.size_le]

/-- With all arrays inside. -/
theorem makes (h : m.Underway s name n (next :: rest) as) (hn : as.length = n.toInt) :
    m.Makes s name (n :: next :: rest) := by
  obtain ⟨values, ha, hsize, hall⟩ := h.array
  rw [List.take_of_length_le (by rw [Array.length_toList]; omega)] at hall
  refine ⟨h.enlarges, ⟨values, ha, hsize, fun v hv => ?_⟩, ?_⟩
  · rw [hall] at hv
    obtain ⟨a, hmem, rfl⟩ := List.mem_map.1 hv
    exact ⟨a, rfl, h.nests a hmem⟩
  · have refs : s.heap.elementRefs ⟨m.heap.objects.size⟩ = as := by
      rw [ha.elementRefs, hall, List.filterMap_map]
      exact List.filterMap_some
    rw [List.length_cons, Heap.arraysWithin, refs, Ref.between_eq_cons h.lt_size]
    exact congrArg _ h.arrays

end Underway

end Machine

theorem dimensionsOf_pos {name : String} (h : isArrayName name = true) : 0 < dimensionsOf name := by
  unfold isArrayName at h
  unfold dimensionsOf
  cases hl : name.toList with
  | nil => simp [hl] at h
  | cons c cs => simp [show c = '[' by simpa [hl] using h]

namespace Sources.Defines

variable {s : Sources} {name : String} {c : Class}

theorem component_named (hc : s.Defines name c) (hn : isArrayName name = true) :
    ∃ t, FieldType.ofClassName? name = some (.array t) ∧ c.declared.component = some t := by
  cases hc with
  | array ht => exact ⟨_, ht, rfl⟩
  | file hp => exact absurd hn (by simp [hp])

/-- The classes of the arrays inside are defined, too. -/
theorem inner (hc : s.Defines name c) (hn : isArrayName name = true)
    (he : isArrayName (elementName name) = true) : ∃ e, s.Defines (elementName name) e := by
  obtain ⟨e, hsome, hname⟩ := hc.element_elementName hn he
  exact ⟨e, hname ▸ hc.element hsome⟩

end Sources.Defines

namespace Exec

variable {m : Machine} {name : String} {c : Class} {n : Int32}

/-- A new array of a class that is defined. -/
theorem outcome_newArray (hl : m.loaded.Sound (sources m)) (hc : (sources m).Defines name c)
    (ha : isArrayName name = true) (hn : 0 ≤ n.toInt) :
    ∃ m', outcome (newArray name n) m = (.ok ⟨m.heap.objects.size⟩, m') ∧ m.Makes m' name [n] ∧
      m'.heap.objects.size = m.heap.objects.size + 1 := by
  obtain ⟨t, ht, hcomponent⟩ := hc.component_named ha
  let loaded := (outcome (Loader.load (sources m) [] name) m.loaded).2
  let o := Object.ofArrayClass c n.toInt.toNat
  have hload : outcome (loadClass name) m = (.ok c, { m with loaded }) :=
    Prod.ext ((Loader.load_iff hl).2 hc) rfl
  have hsigned : ¬ n < 0 := by
    rw [Int32.lt_iff_toInt_lt]
    exact Int.not_lt.2 hn
  have hnew : (m.heap.allocate o).2.get? ⟨m.heap.objects.size⟩ = some o :=
    Heap.get?_allocate.trans (if_pos rfl)
  have hdefined : (sources m).Defines c.name c := by
    rw [hc.name_eq]
    exact hc
  have hbody : o.body = .elements (Array.replicate n.toInt.toNat (.default t)) := by
    simp only [o, Object.ofArrayClass, hcomponent, Option.map_some, Option.getD_some]
  have hsize : (m.heap.allocate o).2.objects.size = m.heap.objects.size + 1 := Array.size_push _
  refine ⟨{ m with loaded, heap := (m.heap.allocate o).2 }, ?_,
    ⟨⟨rfl, (loadClass_grows m name).sound, fun _ _ ho => Heap.get?_allocate_of_get? ho⟩,
      ⟨_, t, ⟨o, hnew, hc.name_eq, hdefined, hbody⟩, ?_, ht, fun v hv => ?_⟩, ?_⟩, hsize⟩
  · rw [newArray, outcome_bind_ok hload, instantiateArray, if_neg hsigned]
    rfl
  · rw [Array.size_replicate, Int.toNat_of_nonneg hn]
  · exact List.eq_of_mem_replicate (Array.toList_replicate ▸ hv)
  · rw [hsize, Ref.between_eq_cons (Nat.lt_succ_self _), Ref.between_self]
    simp [Heap.arraysWithin]

/-- Arrays of arrays of a class that is defined are made, as deep as there are numbers. -/
theorem outcome_multiArray : ∀ {counts : List Int32} {name : String} {m : Machine} {c : Class},
    counts ≠ [] → counts.length ≤ dimensionsOf name → (∀ n ∈ counts, 0 ≤ n.toInt) →
    m.loaded.Sound (sources m) → (sources m).Defines name c →
    ∃ m', outcome (multiArray name counts) m = (.ok ⟨m.heap.objects.size⟩, m') ∧
      m.Makes m' name counts
  | [], _, _, _, h, _, _, _, _ => absurd rfl h
  | [n], _, _, _, _, hdim, hcounts, hl, hc => by
    obtain ⟨m', hnew, hmakes, -⟩ := outcome_newArray hl hc (isArrayName_of_dimensionsOf hdim)
      (hcounts n List.mem_cons_self)
    exact ⟨m', hnew, hmakes⟩
  | n :: next :: rest, name, m, c, _, hdim, hcounts, hl, hc => by
    obtain ⟨hn, hrest⟩ := List.forall_mem_cons.1 hcounts
    rw [List.length_cons] at hdim
    have hbelow : (next :: rest).length ≤ dimensionsOf (elementName name) := by
      rcases dimensionsOf_elementName name with h | h <;> omega
    have ha := isArrayName_of_dimensionsOf (lt_of_lt_of_le (Nat.succ_pos _) hdim)
    obtain ⟨e, he⟩ :=
      hc.inner ha (isArrayName_of_dimensionsOf (lt_of_lt_of_le (Nat.succ_pos _) hbelow))
    obtain ⟨m₁, hnew, hfirst, hsize⟩ := outcome_newArray hl hc ha hn
    -- every round makes one more array and puts it in its place
    have round (i : Nat) (s : Machine) (hi : i < n.toInt.toNat)
        (hs : ∃ as, as.length = i ∧ m.Underway s name n (next :: rest) as) :
        ∃ s', outcome (do
            let element ← multiArray (elementName name) (next :: rest)
            arrayStore ⟨m.heap.objects.size⟩ (Int32.ofNat i) (.ofRef element) : Exec Unit) s =
              (.ok (), s') ∧
          ∃ as, as.length = i + 1 ∧ m.Underway s' name n (next :: rest) as := by
      obtain ⟨as, rfl, hunderway⟩ := hs
      have hsources := hunderway.enlarges.sources_eq
      obtain ⟨s₁, hmake, hmakes⟩ := outcome_multiArray (List.cons_ne_nil next rest) hbelow hrest
        (hunderway.enlarges.loaded hl) (hsources ▸ he)
      obtain ⟨s', hstore, hmore⟩ := hunderway.store (by omega) hmakes
      exact ⟨s', by rw [outcome_bind_ok hmake, hstore], _, List.length_append, hmore⟩
    obtain ⟨m', hloop, as, hlength, hunderway⟩ :=
      exists_outcome_forM_range round ⟨[], rfl, .start hfirst hsize⟩
    refine ⟨m', ?_, hunderway.makes (by omega)⟩
    rw [multiArray, outcome_bind_ok hnew]
    · rw [outcome_bind_ok hloop, outcome_pure]
    · exact fun h => by cases h

/-- Whoever makes arrays of arrays knows their class and how many they are to be. -/
theorem multiArray_defines {counts : List Int32} {r : Ref} {m' : Machine}
    (hl : m.loaded.Sound (sources m)) (h : outcome (multiArray name counts) m = (.ok r, m')) :
    counts ≠ [] ∧ ∃ c, (sources m).Defines name c := by
  have of_newArray {n : Int32} {r : Ref} {m' : Machine}
      (h : outcome (newArray name n) m = (.ok r, m')) : ∃ c, (sources m).Defines name c := by
    obtain ⟨c, m₁, hload, -⟩ := outcome_bind_eq_ok h
    exact ⟨c, (Loader.load_iff hl).1 (congrArg Prod.fst hload)⟩
  cases counts with
  | nil => cases (outcome_throw _ _).symm.trans h
  | cons n rest =>
    refine ⟨List.cons_ne_nil n rest, ?_⟩
    cases rest with
    | nil => exact of_newArray h
    | cons next rest =>
      obtain ⟨array, m₁, hnew, -⟩ := outcome_bind_eq_ok h
      exact of_newArray hnew

theorem multiArray_ok {counts : List Int32} {r : Ref} {m' : Machine}
    (hdim : counts.length ≤ dimensionsOf name) (hcounts : ∀ n ∈ counts, 0 ≤ n.toInt)
    (hl : m.loaded.Sound (sources m)) (h : outcome (multiArray name counts) m = (.ok r, m')) :
    r = ⟨m.heap.objects.size⟩ ∧ m.Makes m' name counts := by
  obtain ⟨hne, c, hc⟩ := multiArray_defines hl h
  obtain ⟨m₁, hmade, hmakes⟩ := outcome_multiArray hne hdim hcounts hl hc
  cases hmade.symm.trans h
  exact ⟨rfl, hmakes⟩

end Exec

/-! ## The instruction -/

namespace FrameM

variable {f : Frame} {m : Machine} {index : Nat} {name : String} {counts : List Int32}
  {vs : List Value}

theorem outcome_constant {k : Constant} (hk : f.owner.constant index = .ok k) (m : Machine) :
    outcome (constant index) (f, m) = (.ok k, f, m) := by
  rw [constant, outcome_bind_ok (outcome_owner _), hk]
  rfl

theorem outcome_classNameAt (hk : f.owner.constant index = .ok (.classRef name)) (m : Machine) :
    outcome (classNameAt index) (f, m) = (.ok name, f, m) := by
  rw [classNameAt, outcome_bind_ok (outcome_constant hk m)]
  rfl

theorem totalSlots_map_int (counts : List Int32) :
    totalSlots (counts.map Value.int) = counts.length := by
  induction counts with
  | nil => rfl
  | cons n counts ih =>
    rw [totalSlots] at ih
    rw [totalSlots, List.map_cons, List.foldr_cons, ih, List.length_cons, Nat.add_comm]
    rfl

/-- Ints are taken for what they are. -/
theorem outcome_mapM_asInt (counts : List Int32) (s : Frame × Machine) :
    outcome ((counts.map Value.int).mapM fun v => (liftM v.asInt : FrameM Int32)) s =
      (.ok counts, s) := by
  induction counts with
  | nil => rfl
  | cons n counts ih =>
    have hn : outcome (liftM (Value.int n).asInt : FrameM Int32) s = (.ok n, s) := rfl
    rw [List.map_cons, List.mapM_cons, outcome_bind_ok hn, outcome_bind_ok ih, outcome_pure]

/-- The numbers are taken from the stack, and all are looked at before anything is made. -/
theorem outcome_newMultiArray (hk : f.owner.constant index = .ok (.classRef name))
    (hf : f.stack.values = (counts.map Value.int).reverse ++ vs) (m : Machine) :
    ∃ stack : OperandStack, stack.values = vs ∧ stack.max = f.stack.max ∧
      stack.depth = f.stack.depth - counts.length ∧
      (∀ n, counts.find? (· < 0) = some n → outcome (newMultiArray index counts.length) (f, m) =
        (.error (.negativeArraySize n.toInt), { f with stack }, m)) ∧
      (counts.find? (· < 0) = none → outcome (newMultiArray index counts.length) (f, m) =
        outcome (do push (.ofRef (← Exec.multiArray name (counts.take (dimensionsOf name)))) :
          FrameM Unit) ({ f with stack }, m)) := by
  have hpop : f.stack.popArgs counts.length = .ok (counts.map .int,
      { f.stack with values := vs, depth := f.stack.depth - counts.length }) := by
    have hlength : counts.length = (counts.map Value.int).reverse.length := by
      rw [List.length_reverse, List.length_map]
    have hroom : ¬ f.stack.values.length < counts.length := by
      rw [hf, List.length_append, ← hlength]
      exact Nat.not_lt.2 (Nat.le_add_right _ _)
    have hargs : (f.stack.values.take counts.length).reverse = counts.map Value.int := by
      rw [hf, List.take_left' hlength.symm, List.reverse_reverse]
    rw [OperandStack.popArgs, if_neg hroom, hargs, hf, List.drop_left' hlength.symm]
    dsimp only
    rw [totalSlots_map_int]
  let stack : OperandStack := { f.stack with values := vs, depth := f.stack.depth - counts.length }
  have htake : outcome (takeOff (·.popArgs counts.length)) (f, m) =
      (.ok (counts.map .int), { f with stack }, m) := by
    rw [takeOff, outcome_bind_ok (outcome_getFrame _), hpop]
    rfl
  refine ⟨stack, rfl, rfl, rfl, fun n hn => ?_, fun hn => ?_⟩
  · rw [newMultiArray, outcome_bind_ok (outcome_classNameAt hk m), outcome_bind_ok htake,
      outcome_bind_ok (outcome_mapM_asInt counts _), hn]
    exact outcome_bind_error (outcome_throw _ _)
  · rw [newMultiArray, outcome_bind_ok (outcome_classNameAt hk m), outcome_bind_ok htake,
      outcome_bind_ok (outcome_mapM_asInt counts _), hn]

/-- Pushing fails, or does what it says and no more. -/
theorem push_ok {v : Value} {f' : Frame} {m' : Machine}
    (h : outcome (push v) (f, m) = (.ok (), f', m')) :
    m' = m ∧ ∃ stack : OperandStack,
      f' = { f with stack } ∧ stack.values = v :: f.stack.values := by
  rw [push, onStack, outcome_bind_ok (outcome_getFrame _), OperandStack.push] at h
  split at h
  · cases h
    exact ⟨rfl, _, rfl, rfl⟩
  · cases h

theorem outcome_push {v : Value} (h : f.stack.depth + v.slots ≤ f.stack.max) (m : Machine) :
    ∃ f', outcome (push v) (f, m) = (.ok (), f', m) := by
  rw [push, onStack, outcome_bind_ok (outcome_getFrame _), OperandStack.push, if_pos h]
  exact ⟨_, rfl⟩

theorem toInt_nonneg_of_take (h : ∀ n ∈ counts, ¬ n < 0) {k : Nat} (n : Int32)
    (hn : n ∈ counts.take k) : 0 ≤ n.toInt := by
  have := h n (List.mem_of_mem_take hn)
  rw [Int32.lt_iff_toInt_lt] at this
  exact Int.not_lt.1 this

/-- If no number is negative, what is put on the stack is a new array of arrays. -/
theorem newMultiArray_ok (hl : m.loaded.Sound (sources m))
    (hk : f.owner.constant index = .ok (.classRef name))
    (hf : f.stack.values = (counts.map Value.int).reverse ++ vs) (hcounts : ∀ n ∈ counts, ¬ n < 0)
    {f' : Frame} {m' : Machine}
    (h : outcome (newMultiArray index counts.length) (f, m) = (.ok (), f', m')) :
    m.Makes m' name (counts.take (dimensionsOf name)) ∧ ∃ stack : OperandStack,
      f' = { f with stack } ∧ stack.values = .ofRef ⟨m.heap.objects.size⟩ :: vs := by
  obtain ⟨stack, rfl, -, -, -, hmakes⟩ := outcome_newMultiArray hk hf m
  have hrun := hmakes (List.find?_eq_none.2 fun n hn => by simpa using hcounts n hn)
  obtain ⟨r, m₂, hmulti, hpush⟩ := outcome_frame_bind_eq_ok (hrun.symm.trans h)
  obtain ⟨rfl, stack', rfl, hstack⟩ := push_ok hpush
  obtain ⟨rfl, hall⟩ :=
    Exec.multiArray_ok (List.length_take_le ..) (toInt_nonneg_of_take hcounts) hl hmulti
  exact ⟨hall, stack', rfl, hstack⟩

/-- With a class that is defined, a number and room on the stack, it is made. -/
theorem exists_newMultiArray (hl : m.loaded.Sound (sources m))
    (hk : f.owner.constant index = .ok (.classRef name))
    (hf : f.stack.values = (counts.map Value.int).reverse ++ vs) (hcounts : ∀ n ∈ counts, ¬ n < 0)
    {c : Class} (hc : (sources m).Defines name c) (ha : isArrayName name = true)
    (hne : counts ≠ []) (hroom : f.stack.depth - counts.length < f.stack.max) :
    ∃ f' m', outcome (newMultiArray index counts.length) (f, m) = (.ok (), f', m') := by
  obtain ⟨stack, -, hmax, hdepth, -, hmakes⟩ := outcome_newMultiArray hk hf m
  have hrun := hmakes (List.find?_eq_none.2 fun n hn => by simpa using hcounts n hn)
  have htake : counts.take (dimensionsOf name) ≠ [] := by
    rw [ne_eq, List.take_eq_nil_iff, not_or]
    exact ⟨Nat.pos_iff_ne_zero.1 (dimensionsOf_pos ha), hne⟩
  obtain ⟨m', hmade, -⟩ := Exec.outcome_multiArray htake (List.length_take_le ..)
    (toInt_nonneg_of_take hcounts) hl hc
  have hfits : stack.depth + (Value.ofRef ⟨m.heap.objects.size⟩).slots ≤ stack.max := by
    rw [hdepth, hmax]
    exact hroom
  obtain ⟨f', hpush⟩ := outcome_push (f := { f with stack }) hfits m'
  exact ⟨f', m', hrun.trans ((outcome_frame_bind_ok hmade).trans hpush)⟩

end FrameM

namespace Frame

variable {f : Frame} {m : Machine} {index : Nat} {name : String} {counts : List Int32}
  {vs : List Value}

/-- **The instruction for arrays of arrays.**  It takes as many numbers from the stack as it is told.
    If any of them is negative, it throws for the first, and the machine is as it was.  Otherwise what
    it puts on the stack instead is an array of the named class, nested as deep as there are numbers
    and as the name has dimensions, whichever is less; numbers that are left over mean nothing.  Every
    array in it is new, and none is met twice; all objects that were there are as they were.  It does
    so whenever the class is defined, there is a number, and the stack has room. -/
theorem newMultiArray_nests (hl : m.loaded.Sound (sources m))
    (hk : f.owner.constant index = .ok (.classRef name))
    (hf : f.stack.values = (counts.map Value.int).reverse ++ vs) :
    ((∃ n ∈ counts, n < 0) → ∃ n ∈ counts, n < 0 ∧
      f.Refuses (.newMultiArray index counts.length) m (.negativeArraySize n.toInt)) ∧
    ((∀ n ∈ counts, ¬ n < 0) → ∀ host id,
      (∀ next f' m',
        outcome (FrameM.execute host id (.newMultiArray index counts.length)) (f, m) =
          (.ok next, f', m') →
        next = .advance ∧ ∃ (r : Ref) (stack : OperandStack), f' = { f with stack } ∧
          stack.values = .ofRef r :: vs ∧ m'.Nests name (counts.take (dimensionsOf name)) r ∧
          (m'.heap.arraysWithin (counts.take (dimensionsOf name)).length r).Nodup ∧
          (∀ x ∈ m'.heap.arraysWithin (counts.take (dimensionsOf name)).length r,
            m.heap.get? x = none) ∧ m.Enlarges m') ∧
      (∀ c, (sources m).Defines name c → isArrayName name = true → counts ≠ [] →
        f.stack.depth - counts.length < f.stack.max → ∃ f' m',
          outcome (FrameM.execute host id (.newMultiArray index counts.length)) (f, m) =
            (.ok .advance, f', m'))) := by
  constructor
  · rintro ⟨n, hmem, hn⟩
    obtain ⟨stack, -, -, -, hnegative, -⟩ := FrameM.outcome_newMultiArray hk hf m
    obtain ⟨k, hfind⟩ : ∃ k, counts.find? (· < 0) = some k :=
      Option.isSome_iff_exists.1 (List.find?_isSome.2 ⟨n, hmem, decide_eq_true hn⟩)
    have hfirst : k < 0 := by simpa using List.find?_some hfind
    exact ⟨k, List.mem_of_find?_eq_some hfind, hfirst,
      fun host id => ⟨stack, outcome_bind_error (hnegative k hfind)⟩⟩
  · intro hcounts host id
    constructor
    · intro next f' m' h
      obtain ⟨_, ⟨f₁, m₁⟩, hdone, hnext⟩ := outcome_bind_eq_ok h
      cases (outcome_pure _ _).symm.trans hnext
      obtain ⟨hmakes, stack, hf', hstack⟩ := FrameM.newMultiArray_ok hl hk hf hcounts hdone
      exact ⟨rfl, _, stack, hf', hstack, hmakes.nests, hmakes.nodup,
        fun x hx => hmakes.get?_eq_none hx, hmakes.enlarges⟩
    · intro c hc ha hne hroom
      obtain ⟨f', m', h⟩ := FrameM.exists_newMultiArray hl hk hf hcounts hc ha hne hroom
      exact ⟨f', m', outcome_bind_ok h⟩

end Frame

/-! ## A program -/

namespace Vm

/-- A virtual machine with a main method that makes arrays of arrays of ints, from one number more
    than the class has dimensions. -/
def ofNester : Vm :=
  .boot {} (.ofList [("A", { ClassFile.ofClass "A" with
    pool := [.classRef "[[I"]
    methods := [
      { flags := .ofList [.staticMember], name := "main", descriptor := "()V"
        code := some (.ofList 3 0 [.literal (.int 2), .literal (.int 3), .literal (.int 7),
          .newMultiArray 1 3, .leave none]) }] })]) 0

/-- What runs the main method until it comes to the arrays. -/
def nesting : List Action := .spawn "A" "main" "()V" [] :: List.replicate 4 .turn

/-- Two arrays of three ints come to be, and the third number means nothing. -/
theorem newMultiArray_nests_twice :
    ∃ (f f' : Frame) (m m' : Machine) (r : Ref), m = (ofNester.after .idle nesting).machine ∧
      m.loaded.Sound (sources m) ∧ f.owner.constant 1 = .ok (.classRef "[[I") ∧
      f.stack.values = [.int 7, .int 3, .int 2] ∧
      outcome (FrameM.execute .idle ⟨0⟩ (.newMultiArray 1 3)) (f, m) = (.ok .advance, f', m') ∧
      f'.stack.values = [.ofRef r] ∧ m'.Nests "[[I" [2, 3] r ∧
      (m'.heap.arraysWithin 2 r).Nodup := by
  generalize hvm : ofNester.after .idle nesting = vm
  have h : vm.threads[0]?.any fun t => t.frames.head?.any fun f =>
      (f.owner.constant 1).toOption.any (· == .classRef "[[I") &&
        f.stack.values == [.int 7, .int 3, .int 2] &&
        (outcome (FrameM.execute .idle ⟨0⟩ (.newMultiArray 1 3))
          (f, vm.machine)).1.toOption.any fun _ => true := by
    rw [← hvm]
    decide +kernel
  have hl : vm.machine.loaded.Sound (sources vm.machine) :=
    hvm ▸ ((Sound.boot _ _ _).after Host.idle_within nesting).complete.grounded.loaded
  obtain ⟨t, -, h⟩ := (Option.any_eq_true _ _).1 h
  obtain ⟨f, -, h⟩ := (Option.any_eq_true _ _).1 h
  simp only [Bool.and_eq_true] at h
  obtain ⟨⟨hk, hf⟩, hran⟩ := h
  obtain ⟨k, hconstant, hk⟩ := except_any_toOption.1 hk
  obtain rfl := eq_of_beq hk
  have hvalues : f.stack.values = ([2, 3, 7].map Value.int).reverse ++ [] := eq_of_beq hf
  have hall : ([2, 3, 7] : List Int32).all (fun n => !decide (n < 0)) = true := by decide +kernel
  have hcounts (n : Int32) (hn : n ∈ ([2, 3, 7] : List Int32)) : ¬ n < 0 := by
    simpa using List.all_eq_true.1 hall n hn
  obtain ⟨x, ⟨f', m'⟩, hrun⟩ : ∃ x s, outcome (FrameM.execute .idle ⟨0⟩ (.newMultiArray 1 3))
      (f, vm.machine) = (.ok x, s) := by
    obtain ⟨x, hx, -⟩ := except_any_toOption.1 hran
    exact ⟨x, _, Prod.ext hx rfl⟩
  obtain ⟨rfl, r, stack, rfl, hstack, hnests, hnodup, -⟩ :=
    ((Frame.newMultiArray_nests hl hconstant hvalues).2 hcounts .idle ⟨0⟩).1 x f' m' hrun
  exact ⟨f, _, _, m', r, rfl, hl, hconstant, eq_of_beq hf, hrun, hstack, hnests, hnodup⟩

end Vm

end GreenVm
