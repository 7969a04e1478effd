/-
  Which of several default methods is selected.

  * `Class.findMethod?_origin`, `Class.offered_first`: a method of an interface that is found in a class,
    and is not abstract, is the first such that the search of the interfaces of the class, or of one of
    its superclasses, meets.
  * `Class.Rooted`: whatever such a search meets stands directly above something that it has met before,
    or above the class itself.
  * `Sources.Defines.findMethod?_overridden`: so the method of an interface gives way to that of an
    interface that extends it, unless the search meets the former first, by a way that avoids the
    latter.  Classes that name both in this order, or inherit the former, select it all the same.
-/
import GreenVm.Proofs.OwnMethods

namespace GreenVm

open Relation

namespace Class

variable {c d i j k x : Class} {key name descriptor : String} {m : Method} {r : MethodRef}
  {roots roots' : List Class}

/-! ## Where methods come from -/

/-- The first method that is not abstract, if there is one. -/
theorem find?_of_firstConcrete? {rs : List MethodRef} (h : firstConcrete? rs = some r)
    (ha : r.method.isAbstract = false) : rs.find? (!·.method.isAbstract) = some r := by
  rcases Option.or_eq_some_iff.1 h with h | ⟨hnone, h⟩
  · exact h
  · have := List.find?_eq_none.1 hnone r (List.mem_of_head? h)
    simp [ha] at this

theorem findHere?_origin (h : c.findHere? name descriptor = some r) :
    ∃ d ∈ c.lineage, r.owner = d ∨
      firstConcrete? (d.offered (name ++ descriptor)) = some r := by
  rcases Option.or_eq_some_iff.1 h with h | ⟨-, h⟩
  · obtain ⟨d, hd, -, hown | ⟨-, hoffered⟩⟩ := select?_origin h
    · exact ⟨d, hd, .inl (declares_of_ownSelected? hown).1⟩
    · exact ⟨d, hd, .inr hoffered⟩
  · obtain ⟨m, -, rfl⟩ := Option.map_eq_some_iff.1 h
    exact ⟨c, c.mem_lineage_self, .inl rfl⟩

/-- A method that is found is that of a class on the way up, or the one that its interfaces offer. -/
theorem findMethod?_origin : ∀ {c : Class} {r : MethodRef},
    c.findMethod? name descriptor = some r → ∃ d ∈ c.lineage, r.owner = d ∨
      firstConcrete? (d.offered (name ++ descriptor)) = some r
  | ⟨_, some s, _, _⟩, r, h => by
    rw [findMethod?] at h
    rcases Option.or_eq_some_iff.1 h with h | ⟨-, h⟩
    · exact findHere?_origin h
    · obtain ⟨d, hd, h⟩ := findMethod?_origin h
      exact ⟨d, lineage_superClass rfl hd, h⟩
  | ⟨_, none, _, _⟩, r, h => by
    rw [findMethod?] at h
    exact findHere?_origin h

/-- Before the interface of the first method that is not abstract the search meets no such method. -/
theorem offered_first (h : firstConcrete? (c.offered key) = some r)
    (ha : r.method.isAbstract = false) :
    ∃ before after, c.allInterfaces = before ++ r.owner :: after ∧
      ∀ k ∈ before, ∀ m, k.Declares key m → m.isAbstract = true := by
  obtain ⟨-, earlier, later, hoffered, habstract⟩ := List.find?_eq_some_iff_append.1
    (find?_of_firstConcrete? h ha)
  obtain ⟨before, others, hall, hbefore, hothers⟩ := List.filterMap_eq_append_iff.1 hoffered
  obtain ⟨lacking, i, after, rfl, hlacking, hi, -⟩ := List.filterMap_eq_cons_iff.1 hothers
  obtain rfl := (declares_of_ownSelected? hi).1
  refine ⟨before ++ lacking, after, by simp [hall], fun k hk m hm => ?_⟩
  rcases List.mem_append.1 hk with hk | hk
  · have hmem : (⟨k, m⟩ : MethodRef) ∈ earlier :=
      hbefore ▸ List.mem_filterMap.2 ⟨k, hk, hm.ownSelected?⟩
    simpa using habstract _ hmem
  · cases (hlacking k hk).symm.trans hm.ownSelected?

/-! ## Ways up -/

/-- An interface stands directly above a class. -/
def Extends (c i : Class) : Prop := i ∈ c.interfaces

theorem Extends.sizeOf_lt (h : c.Extends i) : sizeOf i < sizeOf c := by
  obtain ⟨declared, superClass, interfaces, element⟩ := c
  have : sizeOf i < sizeOf interfaces := List.sizeOf_lt_of_mem h
  simp only [mk.sizeOf_spec]
  omega

/-- Nothing is above itself. -/
theorem sizeOf_lt_of_above (h : TransGen Extends c i) : sizeOf i < sizeOf c := by
  induction h with
  | single h => exact h.sizeOf_lt
  | tail _ h ih => exact h.sizeOf_lt.trans ih

theorem sizeOf_le_of_mem_lineage (h : d ∈ c.lineage) : sizeOf d ≤ sizeOf c := by
  refine lineage_of (P := fun k => sizeOf k ≤ sizeOf c) (fun k s hk hs => ?_) le_rfl d h
  obtain ⟨declared, superClass, interfaces, element⟩ := k
  cases hs
  simp only [mk.sizeOf_spec, Option.some.sizeOf_spec] at hk
  omega

/-- Each class of the list is one of some classes, or directly above one that is before it. -/
inductive Rooted : List Class → List Class → Prop
  | nil {roots : List Class} : Rooted roots []
  | cons {roots met : List Class} {c : Class} (hc : c ∈ roots)
    (h : Rooted (c.interfaces ++ roots) met) : Rooted roots (c :: met)

namespace Rooted

variable {met met' : List Class}

theorem mono (h : Rooted roots met) (hr : roots ⊆ roots') : Rooted roots' met := by
  induction h generalizing roots' with
  | nil => exact .nil
  | cons hc _ ih => exact .cons (hr hc) (ih (List.append_subset.2
      ⟨List.subset_append_left _ _, List.subset_append_of_subset_right _ hr⟩))

theorem append (h : Rooted roots met) (h' : Rooted roots met') : Rooted roots (met ++ met') := by
  induction h with
  | nil => exact h'
  | cons hc _ ih => exact .cons hc (ih (h'.mono (List.subset_append_right _ _)))

end Rooted

mutual

/-- A search goes up from what it has met. -/
theorem rooted_reached (seen : List String) : ∀ c : Class, Rooted [c] (c.reached false seen)
  | ⟨declared, superClass, interfaces, element⟩ => by
    rw [reached]
    split
    · exact .nil
    · simp only [Bool.false_eq_true, if_false, List.append_nil]
      refine .cons List.mem_cons_self ?_
      exact (rooted_reachedAmong seen interfaces).mono (List.subset_append_left _ _)

theorem rooted_reachedAmong (seen : List String) : ∀ cs : List Class,
    Rooted cs (reachedAmong false seen cs)
  | [] => by
    rw [reachedAmong]
    exact .nil
  | c :: cs => by
    rw [reachedAmong]
    refine .append ((rooted_reached seen c).mono (by simp)) ?_
    exact (rooted_reachedAmong _ cs).mono (List.subset_cons_self _ _)

end

/-- A way up that avoids a class. -/
def Around (j : Class) : Class → Class → Prop := TransGen fun c i => c.Extends i ∧ i ≠ j

/-- What a search has met by the time it meets a class is a way up to it. -/
theorem Rooted.around {met before after : List Class} (h : Rooted roots met)
    (hmet : met = before ++ i :: after) (hj : j ∉ before) (hi : i ≠ j)
    (hroots : ∀ k ∈ roots, k ≠ j → Around j c k) : Around j c i := by
  induction h generalizing before with
  | nil => simp at hmet
  | @cons roots met k hk _ ih =>
    cases before with
    | nil =>
      obtain ⟨rfl, -⟩ := List.cons.inj hmet
      exact hroots k hk hi
    | cons k' before =>
      obtain ⟨rfl, rfl⟩ := List.cons.inj hmet
      obtain ⟨hkj, hj⟩ := not_or.1 (List.mem_cons.not.1 hj)
      refine ih rfl hj fun p hp hpj => ?_
      rcases List.mem_append.1 hp with hp | hp
      · exact (hroots k hk (Ne.symm hkj)).tail ⟨hp, hpj⟩
      · exact hroots p hp hpj

end Class

/-! ## Which one is selected -/

/-- **Overridden default methods.**  If a method of an interface is found that is not abstract, although
    an interface above the class or one of its superclasses extends that interface and declares a
    callable method under the same key that is not abstract either, then there is one of these classes
    whose interfaces are searched for it: the search meets no such method before the one that is found,
    and there is a way up to this one that avoids the overriding interface. -/
theorem Sources.Defines.findMethod?_overridden {s : Sources} {c d i j : Class}
    {name descriptor : String} {m m' : Method} (h : s.Defines c.name c)
    (hfound : c.findMethod? name descriptor = some ⟨i, m⟩) (hi : i.isInterface = true)
    (hm : m.isAbstract = false) (hd : d ∈ c.lineage) (hj : TransGen Class.Extends d j)
    (hji : TransGen Class.Extends j i) (hm' : j.Declares (name ++ descriptor) m')
    (ha : m'.isAbstract = false) :
    ∃ k ∈ c.lineage, Class.Around j k i ∧ ∃ before after,
      k.allInterfaces = before ++ i :: after ∧ j ∉ before ∧
      ∀ p ∈ before, ∀ m'', p.Declares (name ++ descriptor) m'' → m''.isAbstract = true := by
  have below : sizeOf i < sizeOf c :=
    (Class.sizeOf_lt_of_above hji).trans
      ((Class.sizeOf_lt_of_above hj).trans_le (Class.sizeOf_le_of_mem_lineage hd))
  obtain ⟨k, hk, howner | hoffered⟩ := Class.findMethod?_origin hfound
  · obtain rfl : i = k := howner
    rcases h.isInterface_lineage hk with rfl | hclass
    · exact absurd below (lt_irrefl _)
    · rw [hi] at hclass
      cases hclass
  · obtain ⟨before, after, hall, habstract⟩ := Class.offered_first hoffered hm
    have hjbefore : j ∉ before := fun hmem => by
      have := habstract j hmem m' hm'
      rw [ha] at this
      cases this
    have hne : i ≠ j := by
      rintro rfl
      exact lt_irrefl _ (Class.sizeOf_lt_of_above hji)
    refine ⟨k, hk, ?_, before, after, hall, hjbefore, habstract⟩
    exact (Class.rooted_reachedAmong [] k.interfaces).around hall hjbefore hne
      fun p hp hpj => .single ⟨hp, hpj⟩

/-! ## Programs -/

namespace Sources

variable {s : Sources}

/-- An interface `I` with the method `f`, and an interface `J` that extends `I` and overrides it. -/
def specialized : List ClassFile :=
  [{ ClassFile.ofInterface "I" with methods := [method [.publicAccess]] },
    { (ClassFile.ofInterface "J").implementing "I" with methods := [method [.publicAccess]] }]

/-- The class `C` implements the interface `J`, which extends `I`; both have a method `f` that is not
    abstract, and in `C` that of `I` is found. -/
structure Misses (s : Sources) (c i j : Class) (m m' : Method) : Prop where
  defines : s.Defines "C" c
  implements : c.Extends j
  overrides : j.Extends i
  isInterface : i.isInterface = true
  declares : j.Declares "f()V" m'
  isNamed : m'.isNamed "f" "()V" = true
  declared_concrete : m'.isAbstract = false
  found : c.findMethod? "f" "()V" = some ⟨i, m⟩
  found_concrete : m.isAbstract = false

/-- This can be computed. -/
def misses (s : Sources) : Bool :=
  (s.class? "C").any fun c =>
    (c.interfaces.any fun j => j.interfaces.any (·.name == "I") &&
      (j.ownSelected? "f()V").any fun r => r.method.isNamed "f" "()V" && !r.method.isAbstract) &&
    (c.findMethod? "f" "()V").any fun r =>
      r.owner.name == "I" && r.owner.isInterface && !r.method.isAbstract

theorem exists_misses (h : s.misses = true) : ∃ c i j m m', s.Misses c i j m m' := by
  obtain ⟨c, hc, h⟩ := (Option.any_eq_true _ _).1 h
  obtain ⟨hj, hr⟩ := Bool.and_eq_true_iff.1 h
  obtain ⟨j, hcj, hj⟩ := List.any_eq_true.1 hj
  obtain ⟨r, hfound, hr⟩ := (Option.any_eq_true _ _).1 hr
  simp only [Bool.and_eq_true, List.any_eq_true, Option.any_eq_true, beq_iff_eq,
    Bool.not_eq_true'] at hj hr
  obtain ⟨⟨i, hji, hi⟩, r', hr', hnamed, ha'⟩ := hj
  obtain ⟨⟨hname, hinterface⟩, ha⟩ := hr
  have hdef := defines_of_class? hc
  obtain rfl : i = r.owner := ((hdef.interface hcj).interface hji).unique
    (hi.trans hname.symm ▸ hdef.findMethod? hfound)
  exact ⟨c, r.owner, j, r.method, r'.method, class?_eq_some.1 hc, hcj, hji, hinterface,
    (Class.declares_of_ownSelected? hr').2, hnamed, ha', hfound, ha⟩

/-- A class `C` that implements `J` below a class that implements `I`. -/
def inherited : Sources :=
  ofFiles (specialized ++ [(ClassFile.ofClass "B").implementing "I",
    ((ClassFile.ofClass "C").extending "B").implementing "J"])

/-- There is a way up to `I` that avoids `J`: by the superclass. -/
theorem Defines.findMethod?_overridden_inherited :
    ∃ c i j m m' k, inherited.Misses c i j m m' ∧ k ∈ c.lineage ∧ Class.Around j k i := by
  obtain ⟨c, i, j, m, m', h⟩ := exists_misses (s := inherited) (by decide +kernel)
  obtain ⟨k, hk, haround, -⟩ := Defines.findMethod?_overridden (h.defines.name_eq.symm ▸ h.defines)
    h.found h.isInterface h.found_concrete c.mem_lineage_self (.single h.implements)
    (.single h.overrides) h.declares h.declared_concrete
  exact ⟨c, i, j, m, m', k, h, hk, haround⟩

/-- A class `C` that implements `I` and `J`, in this order. -/
def listed : Sources :=
  ofFiles (specialized ++ [((ClassFile.ofClass "C").implementing "I").implementing "J"])

/-- It has the method of `I`. -/
theorem misses_listed : ∃ c i j m m', listed.Misses c i j m m' :=
  exists_misses (by decide +kernel)

end Sources

end GreenVm
