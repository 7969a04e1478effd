/-
  Whether a class finds the methods that it declares itself.

  * `Class.Draws c k`: the table of `c` has been made from the methods of `k`.
  * `Sources.Defines.select?_eq_none_iff`: a class selects no method under a key if none of the classes
    that it draws from declares a callable one.
  * `Sources.Defines.findMethod?_own`: a class finds the method that it declares under some name and
    descriptor if this is callable, or if it selects none under their key.  A static or private method
    is hidden by every callable one that the class inherits.
-/
import GreenVm.Proofs.Loading.History
import GreenVm.Proofs.Overriding

namespace GreenVm

/-! ## What a class draws from -/

namespace Class

variable {a b c i k : Class} {key name descriptor : String} {m : Method} {r : MethodRef}

/-- The class and those that its methods come from: along superclasses, but for interfaces, and along
    interfaces, but for arrays. -/
inductive Draws : Class → Class → Prop
  | self (c : Class) : Draws c c
  | superClass {c d k : Class} (hc : c.declared.component.isSome = true ∨ c.isInterface = false)
    (hd : c.superClass = some d) (h : Draws d k) : Draws c k
  | interface {c i k : Class} (hc : c.declared.component = none) (hi : i ∈ c.interfaces)
    (h : Draws i k) : Draws c k

theorem Draws.trans (hab : Draws a b) (hbc : Draws b c) : Draws a c := by
  induction hab with
  | self => exact hbc
  | superClass hc hd _ ih => exact .superClass hc hd (ih hbc)
  | interface hc hi _ ih => exact .interface hc hi (ih hbc)

/-- What a class selects is declared by a class on the way up that it draws from, or offered by the
    interfaces of one. -/
theorem select?_origin : ∀ {c : Class} {r : MethodRef}, c.select? key = some r →
    ∃ d ∈ c.lineage, c.Draws d ∧ (d.ownSelected? key = some r ∨
      d.declared.component = none ∧ firstConcrete? (d.offered key) = some r)
  | ⟨_, some s, _, _⟩, r, h => by
    rcases selectOver_cases h with ⟨hc, h⟩ | h
    · obtain ⟨d, hd, hdraws, h⟩ := select?_origin h
      exact ⟨d, lineage_superClass rfl hd, .superClass hc rfl hdraws, h⟩
    · exact ⟨_, mem_lineage_self _, .self _, h⟩
  | ⟨_, none, _, _⟩, r, h => by
    rcases selectOver_cases h with ⟨-, h⟩ | h
    · cases h
    · exact ⟨_, mem_lineage_self _, .self _, h⟩

/-- The class declares one method of that name and descriptor. -/
def DeclaresOnce (c : Class) (name descriptor : String) (m : Method) : Prop :=
  c.declared.methods.filter (·.isNamed name descriptor) = [m]

theorem DeclaresOnce.declaredMethod? (h : c.DeclaresOnce name descriptor m) :
    c.declaredMethod? name descriptor = some ⟨c, m⟩ := by
  rw [Class.declaredMethod?, ← List.head?_filter, h]
  rfl

theorem DeclaresOnce.mem (h : c.DeclaresOnce name descriptor m) :
    m ∈ c.declared.methods ∧ m.key = name ++ descriptor := by
  have hm : m ∈ c.declared.methods.filter (·.isNamed name descriptor) := by
    rw [h]
    exact List.mem_singleton_self m
  obtain ⟨hmem, hnamed⟩ := List.mem_filter.1 hm
  simp only [Method.isNamed, Bool.and_eq_true, beq_iff_eq] at hnamed
  exact ⟨hmem, by rw [Method.key, hnamed.1, hnamed.2]⟩

theorem lacks_of_ownSelected? (h : c.ownSelected? key = none) : c.Lacks key := by
  intro m hm hv hk
  have hfilter := List.getLast?_eq_none_iff.1 (Option.map_eq_none_iff.1 h)
  have := List.filter_eq_nil_iff.1 hfilter m hm
  simp [hv, hk] at this

end Class

namespace Sources.Defines

variable {s : Sources} {c i k : Class} {key name descriptor : String} {m : Method} {r : MethodRef}

theorem draws_allInterfaces (h : s.Defines c.name c) (hc : c.declared.component = none)
    (hk : k ∈ c.allInterfaces) : c.Draws k := by
  let P (k : Class) : Prop := s.Defines k.name k ∧ k.isInterface = true ∧ c.Draws k
  have interface (k i : Class) (hk : P k) (hi : i ∈ k.interfaces) : P i := by
    obtain ⟨hdef, hiface, hdraws⟩ := hk
    exact ⟨hdef.interface hi, hdef.isInterface_interface hi,
      hdraws.trans (.interface (hdef.component_of_isInterface hiface) hi (.self i))⟩
  have own (i : Class) (hi : i ∈ c.interfaces) : P i :=
    ⟨h.interface hi, h.isInterface_interface hi, .interface hc hi (.self i)⟩
  have reached : ∀ k ∈ Class.reachedAmong false [] c.interfaces, P k :=
    Class.reachedAmong_of interface (by simp) own
  exact (reached k hk).2.2

/-- The method that a class selects is declared by a class that it draws from. -/
theorem select?_drawn (h : s.Defines c.name c) (hr : c.select? key = some r) :
    c.Draws r.owner ∧ r.owner.Declares key r.method := by
  obtain ⟨d, hd, hdraws, hown | ⟨hplain, hoffered⟩⟩ := Class.select?_origin hr
  · obtain ⟨howner, hdeclares⟩ := Class.declares_of_ownSelected? hown
    exact howner ▸ ⟨hdraws, hdeclares⟩
  · obtain ⟨k, hk, hown⟩ := List.mem_filterMap.1 (Class.firstConcrete?_mem hoffered)
    obtain ⟨howner, hdeclares⟩ := Class.declares_of_ownSelected? hown
    exact howner ▸ ⟨hdraws.trans ((h.lineage d hd).draws_allInterfaces hplain hk), hdeclares⟩

/-- A class that selects nothing under a key has nothing under it, nor have those directly above it that
    it draws from. -/
theorem lacks_of_select? (h : s.Defines c.name c) (hnone : c.select? key = none) :
    c.Lacks key ∧
    (∀ d, c.declared.component.isSome = true ∨ c.isInterface = false → c.superClass = some d →
      d.select? key = none) ∧
    (c.declared.component = none → ∀ i ∈ c.interfaces, i.select? key = none) := by
  have above (d : Class) (hd : c.superClass = some d) :
      (Class.inheritedTable c.superClass).get? key = d.select? key := by
    rw [hd, Class.inheritedTable, (h.superClass hd).callTable_get?]
  rw [← h.callTable_get?, Class.get?_callTable] at hnone
  split at hnone
  · next harray =>
    refine ⟨h.lacks_of_component harray, fun d _ hd => (above d hd).symm.trans hnone, fun hc => ?_⟩
    rw [hc] at harray
    cases harray
  · next hplain =>
    obtain ⟨hheld, hoffers⟩ := CallTable.fill_eq_none.1 hnone
    obtain ⟨hown, hinherited⟩ := Option.or_eq_none_iff.1 hheld
    refine ⟨Class.lacks_of_ownSelected? hown, fun d hc hd => ?_, fun _ i hi => ?_⟩
    · rw [if_neg (by simpa [hplain] using hc)] at hinherited
      exact (above d hd).symm.trans hinherited
    · rw [← (h.interface hi).callTable_get?]
      exact Class.offers_eq_none hoffers i hi

/-- **A class selects no method under a key if none of the classes that it draws from declares a
    callable one.** -/
theorem select?_eq_none_iff (h : s.Defines c.name c) :
    c.select? key = none ↔ ∀ k, c.Draws k → k.Lacks key := by
  constructor
  · intro hnone k hk
    induction hk with
    | self c => exact (h.lacks_of_select? hnone).1
    | superClass hc hd _ ih => exact ih (h.superClass hd) ((h.lacks_of_select? hnone).2.1 _ hc hd)
    | interface hc hi _ ih => exact ih (h.interface hi) ((h.lacks_of_select? hnone).2.2 hc _ hi)
  · intro hlacks
    refine Option.eq_none_iff_forall_ne_some.2 fun r hr => ?_
    obtain ⟨hdraws, hdeclares⟩ := h.select?_drawn hr
    have hnone := (hlacks r.owner hdraws).ownSelected?
    cases hnone.symm.trans hdeclares.ownSelected?

end Sources.Defines

/-! ## What is found and resolved -/

/-- What a class declares is found if it selects nothing. -/
theorem Class.findMethod?_of_declaredMethod? {c : Class} {name descriptor : String} {r : MethodRef}
    (hnone : c.select? (name ++ descriptor) = none)
    (h : c.declaredMethod? name descriptor = some r) : c.findMethod? name descriptor = some r := by
  obtain ⟨declared, superClass, interfaces, element⟩ := c
  cases superClass <;> simp [findMethod?, findHere?, hnone, h]

/-- A reference to a method of a class means what is found in the class. -/
theorem Exec.resolveMethod_of_found {current c : Class} {index : Nat} {member : MemberRef}
    {m m' : Machine} {r : MethodRef}
    (hk : current.constant index = .ok (.method member) ∨
      current.constant index = .ok (.interfaceMethod member))
    (hc : outcome (Exec.mentioned current member.owner) m = (.ok c, m'))
    (hr : c.findMethod? member.name member.descriptor = some r) :
    outcome (Exec.resolveMethod current index) m = (.ok r, m') := by
  have found : outcome (methodOf current member) m = (.ok r, m') := by
    rw [methodOf, outcome_bind_ok hc, hr]
    exact outcome_pure _ _
  rcases hk with hk | hk <;> rw [Exec.resolveMethod, hk] <;> exact found

/-- **The methods of a class.**  A class that declares one method of some name and descriptor, which is
    not abstract, finds this if it is callable, and the last such under its key; and if it is not, as long
    as no class that it draws from declares a callable one under the key.  Otherwise it finds a callable
    one.  A reference to the class with that name and descriptor means what is found. -/
theorem Sources.Defines.findMethod?_own {s : Sources} {c : Class} {name descriptor : String}
    {m : Method} (h : s.Defines c.name c) (hm : c.DeclaresOnce name descriptor m)
    (ha : m.isAbstract = false) :
    (c.findMethod? name descriptor = some ⟨c, m⟩ ↔ c.Declares (name ++ descriptor) m ∨
      m.isVirtual = false ∧ ∀ k, c.Draws k → k.Lacks (name ++ descriptor)) ∧
    (c.findMethod? name descriptor ≠ some ⟨c, m⟩ → ∃ k m', c.Draws k ∧
      k.Declares (name ++ descriptor) m' ∧ c.findMethod? name descriptor = some ⟨k, m'⟩) ∧
    ∀ (current : Class) index owner m₀ m₁ r,
      current.constant index = .ok (.method ⟨owner, name, descriptor⟩) ∨
        current.constant index = .ok (.interfaceMethod ⟨owner, name, descriptor⟩) →
      outcome (Exec.mentioned current owner) m₀ = (.ok c, m₁) →
      c.findMethod? name descriptor = some r →
        outcome (Exec.resolveMethod current index) m₀ = (.ok r, m₁) := by
  have declared (hnone : c.select? (name ++ descriptor) = none) :
      c.findMethod? name descriptor = some ⟨c, m⟩ :=
    Class.findMethod?_of_declaredMethod? hnone hm.declaredMethod?
  refine ⟨⟨fun hfound => ?_, ?_⟩, fun hother => ?_, fun _ _ _ _ _ _ hk hc hr =>
    Exec.resolveMethod_of_found hk hc hr⟩
  · cases hsel : c.select? (name ++ descriptor) with
    | none =>
      have hlacks := h.select?_eq_none_iff.1 hsel
      refine .inr ⟨?_, hlacks⟩
      by_contra hv
      exact hlacks c (.self c) m hm.mem.1 (by simpa using hv) hm.mem.2
    | some r =>
      obtain ⟨k, m'⟩ := r
      cases (Class.findMethod?_of_select? hsel).symm.trans hfound
      exact .inl (h.select?_drawn hsel).2
  · rintro (hdeclares | ⟨-, hlacks⟩)
    · exact Class.findMethod?_of_select? (h.select?_of_declares hdeclares ha)
    · exact declared (h.select?_eq_none_iff.2 hlacks)
  · cases hsel : c.select? (name ++ descriptor) with
    | none => exact absurd (declared hsel) hother
    | some r =>
      obtain ⟨hdraws, hdeclares⟩ := h.select?_drawn hsel
      exact ⟨r.owner, r.method, hdraws, hdeclares, Class.findMethod?_of_select? hsel⟩

/-! ## Programs -/

namespace Sources

variable {s : Sources} {c : Class} {name descriptor : String} {r : MethodRef}

theorem Defines.findMethod? (h : s.Defines c.name c) (hr : c.findMethod? name descriptor = some r) :
    s.Defines r.owner.name r.owner :=
  Class.Ascends.findMethod? (P := fun k => s.Defines k.name k)
    ⟨fun _ _ => superClass, fun _ _ => interface⟩ h hr

/-- A method `f` that does nothing. -/
def method (flags : List Flag) : MethodDecl :=
  { flags := .ofList flags, name := "f", descriptor := "()V"
    code := some (.ofList 0 1 [.leave none]) }

/-- A class `T` with a static method `f`, and a reference to it. -/
def alone : Sources :=
  ofFiles [{ ClassFile.ofClass "T" with
    pool := [.method ⟨"T", "f", "()V"⟩], methods := [method [.staticMember]] }]

/-- The class finds it, and the reference means it. -/
theorem Defines.findMethod?_own_alone :
    ∃ c m, alone.Defines "T" c ∧ c.DeclaresOnce "f" "()V" m ∧ m.isStatic = true ∧
      c.findMethod? "f" "()V" = some ⟨c, m⟩ ∧
      ∀ machine, outcome (Exec.resolveMethod c 1) machine = (.ok ⟨c, m⟩, machine) := by
  have h : ((alone.class? "T").any fun c =>
      (c.declared.methods.filter (·.isNamed "f" "()V")).length == 1 &&
        (c.declared.methods.all fun m => m.isStatic && !m.isAbstract) &&
        (c.select? "f()V").isNone && (c.constant 1).toOption == some (.method ⟨"T", "f", "()V"⟩)) =
      true := by
    decide +kernel
  simp only [Option.any_eq_true, Bool.and_eq_true, beq_iff_eq, List.all_eq_true, Bool.not_eq_true',
    Option.isNone_iff_eq_none, List.length_eq_one_iff, class?_eq_some] at h
  obtain ⟨c, hc, ⟨⟨⟨m, hm⟩, hall⟩, hnone⟩, hk⟩ := h
  have hdef : alone.Defines c.name c := hc.name_eq.symm ▸ hc
  have hm : c.DeclaresOnce "f" "()V" m := hm
  obtain ⟨hs, ha⟩ := hall m hm.mem.1
  obtain ⟨hown, -, hresolves⟩ := hdef.findMethod?_own hm ha
  have hv : m.isVirtual = false := by simp [Method.isVirtual, hs]
  have found := hown.2 (.inr ⟨hv, hdef.select?_eq_none_iff.1 hnone⟩)
  have constant : c.constant 1 = .ok (.method ⟨"T", "f", "()V"⟩) := by
    cases h : c.constant 1 with
    | error e => rw [h] at hk; cases hk
    | ok k => rw [h] at hk; cases hk; rfl
  refine ⟨c, m, hc, hm, hs, found, fun machine => hresolves c 1 "T" _ _ _ (.inl constant) ?_ found⟩
  rw [Exec.mentioned, if_pos hc.name_eq.symm]
  exact outcome_pure _ _

/-- A class `S` with a method `f`, and a class `T` below it with a static method of the same name and
    descriptor. -/
def overridden : Sources :=
  ofFiles [{ ClassFile.ofClass "S" with methods := [method [.publicAccess]] },
    { (ClassFile.ofClass "T").extending "S" with methods := [method [.staticMember]] }]

/-- `T` finds the method of `S`. -/
theorem not_findMethod?_own :
    ∃ c m r, overridden.Defines "T" c ∧ c.DeclaresOnce "f" "()V" m ∧ m.isStatic = true ∧
      m.isAbstract = false ∧ c.findMethod? "f" "()V" = some r ∧ r.owner.name = "S" := by
  have h : ((overridden.class? "T").any fun c =>
      (c.declared.methods.filter (·.isNamed "f" "()V")).length == 1 &&
        (c.declared.methods.all fun m => m.isStatic && !m.isAbstract) &&
        (c.findMethod? "f" "()V").any (·.owner.name == "S")) = true := by
    decide +kernel
  simp only [Option.any_eq_true, Bool.and_eq_true, beq_iff_eq, List.all_eq_true, Bool.not_eq_true',
    List.length_eq_one_iff, class?_eq_some] at h
  obtain ⟨c, hc, ⟨⟨m, hm⟩, hall⟩, r, hr, howner⟩ := h
  have hm : c.DeclaresOnce "f" "()V" m := hm
  obtain ⟨hs, ha⟩ := hall m hm.mem.1
  exact ⟨c, m, r, hc, hm, hs, ha, hr, howner⟩

end Sources

end GreenVm
