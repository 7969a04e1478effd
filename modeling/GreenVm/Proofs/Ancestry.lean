/-
  What fields, methods and initializers of a class are found in.

  Whatever holds of a class and of all classes and interfaces above it holds of the classes in which
  its members are found.
-/
import GreenVm.Execute.Members
import Mathlib.Tactic.Common

namespace GreenVm

/-! ## What is reached -/

namespace Class

variable {P : Class → Prop} {up : Bool}

/-- The class itself is on its lineage. -/
theorem mem_lineage_self (c : Class) : c ∈ c.lineage := by
  obtain ⟨declared, superClass, interfaces, element⟩ := c
  cases superClass <;> simp [lineage]

/-- The lineage of the superclass goes on that of the class. -/
theorem lineage_superClass {c s k : Class} (hs : c.superClass = some s) (hk : k ∈ s.lineage) :
    k ∈ c.lineage := by
  obtain ⟨declared, superClass, interfaces, element⟩ := c
  cases hs
  rw [lineage]
  exact List.mem_cons_of_mem _ hk

/-- What passes on along superclasses holds on the whole lineage. -/
theorem lineage_of (hs : ∀ c s : Class, P c → c.superClass = some s → P s) :
    ∀ {c : Class}, P c → ∀ k ∈ c.lineage, P k
  | ⟨declared, some s, interfaces, element⟩, hc, k, hk => by
    rw [Class.lineage] at hk
    rcases List.mem_cons.1 hk with rfl | hk
    · exact hc
    · exact lineage_of hs (hs _ s hc rfl) k hk
  | ⟨declared, none, interfaces, element⟩, hc, k, hk => by
    rw [Class.lineage] at hk
    obtain rfl := List.mem_singleton.1 hk
    exact hc

section Reached

variable (hi : ∀ c i : Class, P c → i ∈ c.interfaces → P i)
  (hs : up = true → ∀ c s : Class, P c → c.superClass = some s → P s)

include hi hs

set_option linter.unusedSectionVars false in
mutual

/-- What passes on along interfaces, and along superclasses if they are followed, holds of all that is
    reached. -/
theorem reached_of {seen : List String} : ∀ {c : Class}, P c → ∀ k ∈ c.reached up seen, P k
  | ⟨declared, superClass, interfaces, element⟩, hc, k, hk => by
    rw [Class.reached] at hk
    split at hk
    · simp at hk
    · rcases List.mem_cons.1 hk with rfl | hk
      · exact hc
      · rcases List.mem_append.1 hk with hk | hk
        · exact reachedAmong_of (fun i h => hi _ i hc h) k hk
        · split at hk
          · next hup =>
            cases superClass with
            | none => simp [Class.reachedAbove] at hk
            | some s => exact reachedAbove_of (hs hup _ s hc rfl) k hk
          · simp at hk

theorem reachedAmong_of {seen : List String} : ∀ {cs : List Class}, (∀ c ∈ cs, P c) →
    ∀ k ∈ Class.reachedAmong up seen cs, P k
  | [], _, k, hk => by simp [Class.reachedAmong] at hk
  | c :: cs, hcs, k, hk => by
    rw [Class.reachedAmong] at hk
    rcases List.mem_append.1 hk with hk | hk
    · exact reached_of (hcs c (by simp)) k hk
    · exact reachedAmong_of (fun d hd => hcs d (List.mem_cons_of_mem _ hd)) k hk

theorem reachedAbove_of {seen : List String} : ∀ {s : Class}, P s →
    ∀ k ∈ Class.reachedAbove up seen (some s), P k
  | s, hc, k, hk => by
    rw [Class.reachedAbove] at hk
    exact reached_of hc k hk

end

end Reached

end Class

/-! ## Methods -/

/-- Something holds of the superclasses of a class, it included, and of the interfaces of those of
    them that are no array classes. -/
structure Class.Covers (P : Class → Prop) (c : Class) : Prop where
  lineage : ∀ k ∈ c.lineage, P k
  offered : ∀ d ∈ c.lineage, d.declared.component = none → ∀ k ∈ d.allInterfaces, P k

namespace Class.Covers

variable {P : Class → Prop} {c : Class} {key name descriptor : String} {r : MethodRef}

theorem superClass {s : Class} (h : Covers P c) (hs : c.superClass = some s) : Covers P s where
  lineage k hk := h.lineage k (lineage_superClass hs hk)
  offered d hd := h.offered d (lineage_superClass hs hd)

theorem self (h : Covers P c) : P c := h.lineage c c.mem_lineage_self

theorem declaredMethod? (hc : P c) (h : c.declaredMethod? name descriptor = some r) : P r.owner := by
  obtain ⟨method, -, rfl⟩ := Option.map_eq_some_iff.1 h
  exact hc

theorem ownSelected? (hc : P c) (h : c.ownSelected? key = some r) : P r.owner := by
  obtain ⟨method, -, rfl⟩ := Option.map_eq_some_iff.1 h
  exact hc

theorem firstConcrete? {rs : List MethodRef} (hrs : ∀ r ∈ rs, P r.owner)
    (h : firstConcrete? rs = some r) : P r.owner := by
  refine hrs r ?_
  rcases Option.or_eq_some_iff.1 h with h | ⟨-, h⟩
  · exact List.mem_of_find?_eq_some h
  · exact List.mem_of_head? h

theorem selectOver {inherited : Option MethodRef} (hc : Covers P c)
    (hi : ∀ r, inherited = some r → P r.owner) (h : c.selectOver key inherited = some r) :
    P r.owner := by
  unfold Class.selectOver at h
  split at h
  · exact hi r h
  · next hn =>
    have hoffered : ∀ r ∈ c.offered key, P r.owner := by
      intro r hr
      obtain ⟨k, hk, hr⟩ := List.mem_filterMap.1 hr
      exact ownSelected? (hc.offered c c.mem_lineage_self (by simpa using hn) k hk) hr
    dsimp only at h
    split at h
    · exact firstConcrete? hoffered h
    · next r' hr' =>
      have hown : P r'.owner := by
        rcases Option.or_eq_some_iff.1 hr' with hr' | ⟨-, hr'⟩
        · exact ownSelected? hc.self hr'
        · split at hr'
          · cases hr'
          · exact hi r' hr'
      split at h
      · exact firstConcrete? (List.forall_mem_cons.2 ⟨hown, hoffered⟩) h
      · cases h
        exact hown

theorem select? : ∀ {c : Class} {r : MethodRef}, Covers P c → c.select? key = some r → P r.owner
  | ⟨declared, some s, interfaces, element⟩, r, hc, h => by
    rw [Class.select?] at h
    exact hc.selectOver (fun _ hr => select? (hc.superClass rfl) hr) h
  | ⟨declared, none, interfaces, element⟩, r, hc, h => by
    rw [Class.select?] at h
    exact hc.selectOver (fun _ hr => by cases hr) h

theorem findHere? (hc : Covers P c) (h : c.findHere? name descriptor = some r) : P r.owner := by
  rcases Option.or_eq_some_iff.1 h with h | ⟨-, h⟩
  · exact hc.select? h
  · exact declaredMethod? hc.self h

/-- Whatever holds so holds of the class in which a method is found. -/
theorem findMethod? : ∀ {c : Class} {r : MethodRef}, Covers P c →
    c.findMethod? name descriptor = some r → P r.owner
  | ⟨declared, some s, interfaces, element⟩, r, hc, h => by
    rw [Class.findMethod?] at h
    rcases Option.or_eq_some_iff.1 h with h | ⟨-, h⟩
    · exact hc.findHere? h
    · exact findMethod? (hc.superClass rfl) h
  | ⟨declared, none, interfaces, element⟩, r, hc, h => by
    rw [Class.findMethod?] at h
    exact hc.findHere? h

end Class.Covers

/-- What passes on from a class to the classes and interfaces directly above it. -/
structure Class.Ascends (P : Class → Prop) : Prop where
  superClass : ∀ c s : Class, P c → c.superClass = some s → P s
  interface : ∀ c i : Class, P c → i ∈ c.interfaces → P i

namespace Class.Ascends

variable {P : Class → Prop} (hP : Class.Ascends P)

include hP

theorem lineage {c : Class} (hc : P c) : ∀ k ∈ c.lineage, P k := lineage_of hP.superClass hc

theorem reached {up : Bool} {seen : List String} {c : Class} (hc : P c) :
    ∀ k ∈ c.reached up seen, P k := reached_of hP.interface (fun _ => hP.superClass) hc

theorem covers {c : Class} (hc : P c) : Covers P c where
  lineage := hP.lineage hc
  offered d hd _ := reachedAmong_of hP.interface (fun _ => hP.superClass)
    fun i hi => hP.interface d i (hP.lineage hc d hd) hi

theorem findMethod? {c : Class} {name descriptor : String} {r : MethodRef} (hc : P c)
    (h : c.findMethod? name descriptor = some r) : P r.owner := (hP.covers hc).findMethod? h

theorem specialTarget {current : Class} {resolved : MethodRef} (hc : P current)
    (hr : P resolved.owner) : P (specialTarget current resolved).owner := by
  unfold GreenVm.specialTarget
  dsimp only
  split
  · exact hr
  · split
    · next s hs =>
      cases hm : s.findMethod? resolved.method.name resolved.method.descriptor with
      | none => exact hr
      | some r => exact hP.findMethod? (hP.superClass _ s hc hs) hm
    · exact hr

theorem virtualTarget {receiver : Class} {resolved : MethodRef} (hc : P receiver)
    (hr : P resolved.owner) : P (virtualTarget receiver resolved).owner := by
  unfold GreenVm.virtualTarget
  split
  · exact hr
  · cases hm : receiver.findMethod? resolved.method.name resolved.method.descriptor with
    | none => exact hr
    | some r => exact hP.findMethod? hc hm

/-! ## Fields -/

theorem staticSite? {c k : Class} {name descriptor : String} {index : Nat} (hc : P c)
    (h : c.staticSite? name descriptor = some (.staticSlot k index)) : P k := by
  obtain ⟨d, hd, h⟩ := List.exists_of_findSome?_eq_some h
  obtain ⟨i, -, h⟩ := Option.map_eq_some_iff.1 h
  cases h
  exact hP.reached hc _ hd

theorem fieldSite {c k : Class} {name descriptor : String} {index : Nat} (hc : P c)
    (h : c.fieldSite name descriptor = .ok (.staticSlot k index)) : P k := by
  unfold Class.fieldSite at h
  split at h
  · next site hs =>
    cases h
    obtain ⟨d, hd, hs⟩ := List.exists_of_findSome?_eq_some hs
    have hd := hP.lineage hc d hd
    unfold Class.fieldSiteHere? at hs
    split at hs
    · dsimp only at hs
      split at hs <;> cases hs
    · obtain ⟨site, hs, he⟩ := Option.map_eq_some_iff.1 hs
      cases he
      exact hP.staticSite? hd hs
  · cases h
  · cases h

end Class.Ascends

/-! ## The methods that are found -/

namespace Class

variable {c : Class} {key name descriptor : String} {r : MethodRef}

theorem firstConcrete?_mem {rs : List MethodRef} (h : firstConcrete? rs = some r) : r ∈ rs := by
  rcases Option.or_eq_some_iff.1 h with h | ⟨-, h⟩
  · exact List.mem_of_find?_eq_some h
  · exact List.mem_of_head? h

section Found

variable {P : MethodRef → Prop} (ho : ∀ c r, ownSelected? c key = some r → P r)

include ho

theorem offered_of (h : r ∈ c.offered key) : P r := by
  obtain ⟨k, -, hr⟩ := List.mem_filterMap.1 h
  exact ho k r hr

theorem selectOver_of {inherited : Option MethodRef} (hi : ∀ r, inherited = some r → P r)
    (h : c.selectOver key inherited = some r) : P r := by
  unfold selectOver at h
  split at h
  · exact hi r h
  · dsimp only at h
    split at h
    · exact offered_of ho (firstConcrete?_mem h)
    · next r' hr' =>
      have hown : P r' := by
        rcases Option.or_eq_some_iff.1 hr' with hr' | ⟨-, hr'⟩
        · exact ho c r' hr'
        · split at hr'
          · cases hr'
          · exact hi r' hr'
      split at h
      · rcases List.mem_cons.1 (firstConcrete?_mem h) with rfl | h
        · exact hown
        · exact offered_of ho h
      · cases h
        exact hown

/-- What holds of the methods that classes select among their own holds of all that they select. -/
theorem select?_of : ∀ {c : Class} {r : MethodRef}, c.select? key = some r → P r
  | ⟨_, some _, _, _⟩, _, h => selectOver_of ho (fun _ hr => select?_of hr) h
  | ⟨_, none, _, _⟩, _, h => selectOver_of ho (fun _ hr => by cases hr) h

end Found

section Found

variable {P : MethodRef → Prop} (hd : ∀ c r, declaredMethod? c name descriptor = some r → P r)
  (ho : ∀ c r, ownSelected? c (name ++ descriptor) = some r → P r)

include hd ho

theorem findHere?_of (h : c.findHere? name descriptor = some r) : P r := by
  rcases Option.or_eq_some_iff.1 h with h | ⟨-, h⟩
  · exact select?_of ho h
  · exact hd c r h

/-- What holds of the methods that classes declare under some name and descriptor holds of the method
    that these mean. -/
theorem findMethod?_of : ∀ {c : Class} {r : MethodRef}, c.findMethod? name descriptor = some r → P r
  | ⟨_, some s, _, _⟩, r, h => by
    rw [findMethod?] at h
    rcases Option.or_eq_some_iff.1 h with h | ⟨-, h⟩
    · exact findHere?_of hd ho h
    · exact findMethod?_of h
  | ⟨_, none, _, _⟩, r, h => by
    rw [findMethod?] at h
    exact findHere?_of hd ho h

end Found

theorem ownSelected?_key (h : c.ownSelected? key = some r) : r.method.key = key := by
  obtain ⟨m, hm, rfl⟩ := Option.map_eq_some_iff.1 h
  have := (List.mem_filter.1 (List.mem_of_getLast? hm)).2
  simpa using (Bool.and_eq_true_iff.1 this).2

/-- The method that a name and descriptor mean has them as its key. -/
theorem findMethod?_key (h : c.findMethod? name descriptor = some r) :
    r.method.key = name ++ descriptor := by
  refine findMethod?_of (P := fun r => r.method.key = name ++ descriptor) (fun c r hr => ?_)
    (fun _ _ => ownSelected?_key) h
  obtain ⟨m, hm, rfl⟩ := Option.map_eq_some_iff.1 hr
  have := List.find?_some hm
  simp only [Method.isNamed, Bool.and_eq_true, beq_iff_eq] at this
  rw [Method.key, this.1, this.2]

end Class

/-- The method is one that its owner declares. -/
def MethodRef.IsDeclared (r : MethodRef) : Prop := r.method ∈ r.owner.declared.methods

/-- A method that a class finds is one that some class declares. -/
theorem Class.findMethod?_isDeclared {c : Class} {name descriptor : String} {r : MethodRef}
    (h : c.findMethod? name descriptor = some r) : r.IsDeclared := by
  refine findMethod?_of (fun c r hr => ?_) (fun c r hr => ?_) h
  · obtain ⟨m, hm, rfl⟩ := Option.map_eq_some_iff.1 hr
    exact List.mem_of_find?_eq_some hm
  · obtain ⟨m, hm, rfl⟩ := Option.map_eq_some_iff.1 hr
    exact (List.mem_filter.1 (List.mem_of_getLast? hm)).1

end GreenVm
