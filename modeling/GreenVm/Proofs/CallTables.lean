/-
  Tables of the methods that calls select.

  * `Class.callTable`: the table of a class, made once: that of its superclass, then the methods that
    the class declares itself, then the tables of its interfaces as far as they have anything to add.
  * `CallTable.fill`: what a table holds under a key, once an interface has offered something.  Offering
    the same again changes nothing, whatever has been offered in between.
  * `Sources.Defines.callTable_get?`: the table has under each key what the search for a method finds,
    which goes through the interfaces above the class one by one and meets each of them once.
  * `Sources.Defines.lookUp?_eq`: so a name and descriptor mean the same whether tables are consulted
    or classes are searched.
-/
import GreenVm.Proofs.Subtyping

namespace GreenVm

namespace Table

variable {κ α : Type} [DecidableEq κ] {t : Table κ α} {k : κ} {v : α}

theorem keys_putEntry (k : κ) (v : α) : ∀ es : List (κ × α),
    (putEntry k v es).map Prod.fst =
      if k ∈ es.map Prod.fst then es.map Prod.fst else es.map Prod.fst ++ [k]
  | [] => by simp [putEntry]
  | e :: es => by
    rw [putEntry]
    split
    · next h => simp [h]
    · next h =>
      rw [List.map_cons, keys_putEntry k v es]
      have hne : k ≠ e.1 := fun e' => h e'.symm
      by_cases hk : k ∈ es.map Prod.fst <;> simp [hne, hk]

/-- Entering a value enters no key twice. -/
theorem nodup_keys_put (h : t.keys.Nodup) (k : κ) (v : α) : (t.put k v).keys.Nodup := by
  unfold keys put at *
  rw [keys_putEntry]
  split
  · exact h
  · next hk =>
    refine List.nodup_append.2 ⟨h, by simp, fun a ha b hb e => hk ?_⟩
    exact List.mem_singleton.1 hb ▸ e ▸ ha

theorem get?_cons (e : κ × α) (es : List (κ × α)) (k : κ) :
    (⟨e :: es⟩ : Table κ α).get? k = if e.1 = k then some e.2 else (⟨es⟩ : Table κ α).get? k := by
  unfold get?
  by_cases h : e.1 = k <;> simp [h]

theorem get?_eq_none (h : k ∉ t.keys) : t.get? k = none :=
  Option.eq_none_iff_forall_ne_some.2 fun _ hv => h (mem_keys_of_get? hv)

end Table

/-- Methods by their keys. -/
abbrev CallTable := Table String MethodRef

namespace CallTable

/-- Enters a method that an interface has under a key: where there is none, and in the place of an
    abstract one if it is not abstract itself. -/
def offer (t : CallTable) (key : String) (r : MethodRef) : CallTable :=
  match t.get? key with
  | some held => if held.method.isAbstract && !r.method.isAbstract then t.put key r else t
  | none => t.put key r

/-- Enters what an interface has. -/
def merge (t offered : CallTable) : CallTable :=
  offered.entries.foldl (fun t e => t.offer e.1 e.2) t

/-- Enters the callable methods that a class declares, each in the place of what there is. -/
def declare (t : CallTable) (c : Class) : CallTable :=
  c.declared.methods.foldl (fun t m => if m.isVirtual then t.put m.key ⟨c, m⟩ else t) t

/-! ### What is held under a key -/

/-- What is held under a key once something has been offered. -/
def fill : Option MethodRef → Option MethodRef → Option MethodRef
  | some held, some offered =>
    if held.method.isAbstract && !offered.method.isAbstract then some offered else some held
  | some held, none => some held
  | none, offered => offered

section Fill

variable (a b c : Option MethodRef)

@[simp] theorem fill_none_left : fill none a = a := by cases a <;> rfl

@[simp] theorem fill_none_right : fill a none = a := by cases a <;> rfl

/-- A method that is not abstract gives way to none. -/
theorem fill_of_concrete {r : MethodRef} (h : r.method.isAbstract = false) (b : Option MethodRef) :
    fill (some r) b = some r := by
  cases b <;> simp [fill, h]

theorem fill_assoc : fill (fill a b) c = fill a (fill b c) := by
  cases a with
  | none => simp
  | some a =>
    cases b with
    | none => simp
    | some b =>
      cases c with
      | none => simp
      | some c =>
        cases ha : a.method.isAbstract <;> cases hb : b.method.isAbstract <;>
          cases hc : c.method.isAbstract <;> simp [fill, ha, hb, hc]

variable {a b c}

/-- What adds nothing goes on to add nothing. -/
theorem fill_fill_of_fill (h : fill a b = a) : fill (fill a c) b = fill a c := by
  cases a with
  | none =>
    rw [fill_none_left] at h
    rw [h, fill_none_right]
  | some a =>
    cases b with
    | none => simp
    | some b =>
      cases c with
      | none => simpa using h
      | some c =>
        cases ha : a.method.isAbstract <;> cases hb : b.method.isAbstract <;>
          cases hc : c.method.isAbstract <;> simp_all [fill]

/-- What has been offered adds nothing. -/
theorem fill_fill_self : fill (fill a b) b = fill a b := by
  rw [fill_assoc]
  congr 1
  cases b with
  | none => rfl
  | some b => cases hb : b.method.isAbstract <;> simp [fill, hb]

/-- What is held has been held before, or been offered. -/
theorem fill_eq_some {r : MethodRef} (h : fill a b = some r) : a = some r ∨ b = some r := by
  cases a with
  | none =>
    rw [fill_none_left] at h
    exact .inr h
  | some a =>
    cases b with
    | none => exact .inl h
    | some b =>
      rw [fill] at h
      split at h
      · exact .inr h
      · exact .inl h

theorem fill_eq_none : fill a b = none ↔ a = none ∧ b = none := by
  cases a with
  | none => simp
  | some a =>
    cases b with
    | none => simp
    | some b =>
      rw [fill]
      split <;> simp

end Fill

variable {t offered : CallTable} {key : String}

theorem get?_offer (t : CallTable) (key : String) (r : MethodRef) (key' : String) :
    (t.offer key r).get? key' =
      if key = key' then fill (t.get? key') (some r) else t.get? key' := by
  unfold offer
  split
  · next held h =>
    split
    · next ha =>
      rw [Table.get?_put]
      split
      · next e => rw [← e, h, fill, if_pos ha]
      · rfl
    · next ha =>
      split
      · next e => rw [← e, h, fill, if_neg ha]
      · rfl
  · next h =>
    rw [Table.get?_put]
    split
    · next e => rw [← e, h, fill_none_left]
    · rfl

/-- No key is offered twice, so the order does not matter. -/
theorem get?_merge (t : CallTable) (ho : offered.keys.Nodup) (key : String) :
    (t.merge offered).get? key = fill (t.get? key) (offered.get? key) := by
  obtain ⟨es⟩ := offered
  unfold merge
  induction es generalizing t with
  | nil => exact (fill_none_right _).symm
  | cons e es ih =>
    obtain ⟨he, hes⟩ := List.nodup_cons.1 ho
    rw [List.foldl_cons, ih _ hes, get?_offer, Table.get?_cons]
    split
    · next h =>
      have : (⟨es⟩ : CallTable).get? key = none := Table.get?_eq_none (h ▸ he)
      rw [this, fill_none_right]
    · rfl

/-- Of several methods under one key the last is held. -/
theorem get?_declare (t : CallTable) (c : Class) (key : String) :
    (t.declare c).get? key = (c.ownSelected? key).or (t.get? key) := by
  unfold declare Class.ownSelected?
  generalize c.declared.methods = ms
  induction ms generalizing t with
  | nil => simp
  | cons m ms ih =>
    rw [List.foldl_cons, ih]
    by_cases hm : m.isVirtual = true
    · by_cases hk : m.key = key
      · simp only [hm, if_true, Table.get?_put, hk, List.filter_cons, beq_self_eq_true, Bool.and_self,
          List.getLast?_cons]
        cases (ms.filter fun m => m.isVirtual && m.key == key).getLast? <;> rfl
      · simp only [hm, if_true, Table.get?_put, hk, if_false, List.filter_cons, beq_eq_false_iff_ne.2 hk,
          Bool.and_false, Bool.false_eq_true]
    · simp only [hm, if_false, List.filter_cons, Bool.false_and, Bool.false_eq_true]

theorem nodup_offer (h : t.keys.Nodup) (key : String) (r : MethodRef) :
    (t.offer key r).keys.Nodup := by
  unfold offer
  split
  · split
    · exact Table.nodup_keys_put h key r
    · exact h
  · exact Table.nodup_keys_put h key r

theorem nodup_merge (h : t.keys.Nodup) (offered : CallTable) : (t.merge offered).keys.Nodup := by
  unfold merge
  generalize offered.entries = es
  induction es generalizing t with
  | nil => exact h
  | cons e es ih => exact ih (nodup_offer h e.1 e.2)

theorem nodup_declare (h : t.keys.Nodup) (c : Class) : (t.declare c).keys.Nodup := by
  unfold declare
  generalize c.declared.methods = ms
  induction ms generalizing t with
  | nil => exact h
  | cons m ms ih =>
    refine ih ?_
    dsimp only
    split
    · exact Table.nodup_keys_put h _ _
    · exact h

end CallTable

namespace Class

mutual

/-- The methods that calls on objects of the class select.  Interfaces have none of their superclass,
    and arrays only those of theirs. -/
def callTable : Class → CallTable
  | c@⟨declared, superClass, interfaces, _⟩ =>
    let inherited := inheritedTable superClass
    if declared.component.isSome then inherited
    else offeredTable (.declare (if c.isInterface then .empty else inherited) c) interfaces

/-- The table of the superclass, if there is one. -/
def inheritedTable : Option Class → CallTable
  | none => .empty
  | some s => s.callTable

/-- A table with all that some interfaces offer. -/
def offeredTable (t : CallTable) : List Class → CallTable
  | [] => t
  | i :: is => offeredTable (t.merge i.callTable) is

end

/-- What a name and descriptor mean by the tables: the method of the table, else one that the class
    declares, else what they mean in the superclass. -/
def lookUp? (name descriptor : String) : Class → Option MethodRef
  | c@⟨_, superClass, _, _⟩ =>
    ((c.callTable.get? (name ++ descriptor)).or (c.declaredMethod? name descriptor)).or
      (match superClass with
        | some s => s.lookUp? name descriptor
        | none => none)

/-! ## What a class holds under a key -/

open CallTable

/-- The first method that is not abstract, or else the first, is what is held in the end if methods are
    offered one after another. -/
theorem firstConcrete?_cons (r : MethodRef) (rs : List MethodRef) :
    firstConcrete? (r :: rs) = fill (some r) (firstConcrete? rs) := by
  unfold firstConcrete?
  cases hr : r.method.isAbstract with
  | false =>
    cases h : (rs.find? fun r => !r.method.isAbstract).or rs.head? <;> simp [hr, fill]
  | true =>
    rw [List.find?_cons_of_neg (by simp [hr])]
    cases hf : rs.find? fun r => !r.method.isAbstract with
    | some k => simp [fill, hr, by simpa using List.find?_some hf]
    | none =>
      cases rs with
      | nil => rfl
      | cons k ks =>
        have hk : k.method.isAbstract = true := by
          simpa using List.find?_eq_none.1 hf k List.mem_cons_self
        simp [fill, hr, hk]

theorem firstConcrete?_append (rs rs' : List MethodRef) :
    firstConcrete? (rs ++ rs') = fill (firstConcrete? rs) (firstConcrete? rs') := by
  induction rs with
  | nil => simp [firstConcrete?]
  | cons r rs ih => rw [List.cons_append, firstConcrete?_cons, firstConcrete?_cons, ih, fill_assoc]

theorem selectOver_eq (c : Class) (key : String) (inherited : Option MethodRef) :
    c.selectOver key inherited =
      if c.declared.component.isSome then inherited
      else fill ((c.ownSelected? key).or (if c.isInterface then none else inherited))
        (firstConcrete? (c.offered key)) := by
  unfold selectOver
  split
  · rfl
  · dsimp only
    split
    · next h => rw [h, fill_none_left]
    · next r h =>
      rw [h]
      cases hr : r.method.isAbstract with
      | true => rw [if_pos rfl, firstConcrete?_cons]
      | false => exact (fill_of_concrete hr _).symm

/-- What is selected is inherited, declared by the class itself or the first that its interfaces offer. -/
theorem selectOver_cases {c : Class} {key : String} {inherited : Option MethodRef} {r : MethodRef}
    (h : c.selectOver key inherited = some r) :
    ((c.declared.component.isSome = true ∨ c.isInterface = false) ∧ inherited = some r) ∨
      c.ownSelected? key = some r ∨
      (c.declared.component = none ∧ firstConcrete? (c.offered key) = some r) := by
  rw [selectOver_eq] at h
  split at h
  · next harray => exact .inl ⟨.inl harray, h⟩
  · next hplain =>
    rcases fill_eq_some h with h | h
    · rcases Option.or_eq_some_iff.1 h with h | ⟨-, h⟩
      · exact .inr (.inl h)
      · split at h
        · cases h
        · next hclass => exact .inl ⟨.inr (by simpa using hclass), h⟩
    · exact .inr (.inr ⟨by simpa using hplain, h⟩)

theorem nodup_offeredTable : ∀ (is : List Class) {t : CallTable}, t.keys.Nodup →
    (offeredTable t is).keys.Nodup
  | [], _, h => by
    rw [offeredTable]
    exact h
  | i :: is, _, h => by
    rw [offeredTable]
    exact nodup_offeredTable is (CallTable.nodup_merge h _)

mutual

theorem nodup_callTable : ∀ c : Class, c.callTable.keys.Nodup
  | ⟨declared, superClass, interfaces, element⟩ => by
    rw [callTable]
    split
    · exact nodup_inheritedTable superClass
    · refine nodup_offeredTable interfaces (CallTable.nodup_declare ?_ _)
      split
      · exact List.nodup_nil
      · exact nodup_inheritedTable superClass

theorem nodup_inheritedTable : ∀ superClass : Option Class, (inheritedTable superClass).keys.Nodup
  | none => List.nodup_nil
  | some s => by
    rw [inheritedTable]
    exact nodup_callTable s

end

/-- What some interfaces offer under a key, the first of them first. -/
def offers (key : String) (is : List Class) : Option MethodRef :=
  is.foldr (fun i r => fill (i.callTable.get? key) r) none

theorem offers_eq_none {key : String} : ∀ {is : List Class}, offers key is = none →
    ∀ i ∈ is, i.callTable.get? key = none
  | i :: is, h, j, hj => by
    obtain ⟨hi, his⟩ := fill_eq_none.1 h
    rcases List.mem_cons.1 hj with rfl | hj
    · exact hi
    · exact offers_eq_none his j hj

theorem get?_offeredTable (key : String) : ∀ (is : List Class) (t : CallTable),
    (offeredTable t is).get? key = fill (t.get? key) (offers key is)
  | [], t => by
    rw [offeredTable]
    exact (fill_none_right _).symm
  | i :: is, t => by
    rw [offeredTable, get?_offeredTable key is, CallTable.get?_merge t (nodup_callTable i), fill_assoc]
    rfl

/-- What the table of a class holds under a key. -/
theorem get?_callTable (c : Class) (key : String) :
    c.callTable.get? key =
      if c.declared.component.isSome then (inheritedTable c.superClass).get? key
      else fill ((c.ownSelected? key).or
        (if c.isInterface then none else (inheritedTable c.superClass).get? key))
          (offers key c.interfaces) := by
  obtain ⟨declared, superClass, interfaces, element⟩ := c
  rw [callTable]
  split
  · rfl
  · rw [get?_offeredTable, CallTable.get?_declare]
    split <;> rfl

theorem select?_eq (key : String) (c : Class) :
    c.select? key = c.selectOver key (c.superClass.bind (·.select? key)) := by
  obtain ⟨declared, superClass, interfaces, element⟩ := c
  cases superClass <;> rfl

end Class

/-! ## The search and the table -/

namespace Sources.Defines

open CallTable

variable {s : Sources} {name key : String} {c : Class}

/-- What an interface offers. -/
theorem callTable_of_isInterface (h : s.Defines name c) (hi : c.isInterface = true) (key : String) :
    c.callTable.get? key = fill (c.ownSelected? key) (Class.offers key c.interfaces) := by
  rw [Class.get?_callTable, h.component_of_isInterface hi]
  simp [hi]

/-- The classes of some names have nothing to add. -/
def Exhausted (s : Sources) (key : String) (a : Option MethodRef) (seen : List String) : Prop :=
  ∀ k : Class, s.Defines k.name k → k.name ∈ seen → fill a (k.callTable.get? key) = a

theorem Exhausted.fill {a : Option MethodRef} {seen : List String} (h : Exhausted s key a seen)
    (b : Option MethodRef) : Exhausted s key (fill a b) seen :=
  fun k hk hn => fill_fill_of_fill (h k hk hn)

/-- What a search has met under a key, the first first. -/
abbrev met (key : String) (cs : List Class) : Option MethodRef :=
  Class.firstConcrete? (cs.filterMap (·.ownSelected? key))

theorem met_cons (key : String) (c : Class) (cs : List Class) :
    met key (c :: cs) = fill (c.ownSelected? key) (met key cs) := by
  unfold met
  rw [List.filterMap_cons]
  cases c.ownSelected? key with
  | none => exact (fill_none_left _).symm
  | some r => exact Class.firstConcrete?_cons r _

theorem met_append (key : String) (cs ds : List Class) :
    met key (cs ++ ds) = fill (met key cs) (met key ds) := by
  unfold met
  rw [List.filterMap_append, Class.firstConcrete?_append]

mutual

/-- What a search meets from an interface on adds what the table of the interface does, if what it has
    seen before has nothing to add; and then nothing that it has seen has. -/
theorem met_reached (key : String) : ∀ c : Class, s.Defines c.name c → c.isInterface = true →
    ∀ (a : Option MethodRef) (seen : List String), Exhausted s key a seen →
      fill a (met key (c.reached false seen)) = fill a (c.callTable.get? key) ∧
      Exhausted s key (fill a (c.callTable.get? key)) ((c.reached false seen).map Class.name ++ seen)
  | ⟨declared, superClass, interfaces, element⟩, h, hi, a, seen, ha => by
    rw [h.callTable_of_isInterface hi, Class.reached]
    split
    · next hseen =>
      have nothing := ha _ h hseen
      rw [h.callTable_of_isInterface hi] at nothing
      rw [nothing]
      exact ⟨fill_none_right a, ha⟩
    · obtain ⟨above, ha⟩ := met_reachedAmong key interfaces
        (fun i hi => ⟨h.interface hi, h.isInterface_interface hi⟩) _ seen (ha.fill _)
      simp only [Bool.false_eq_true, if_false, List.append_nil]
      constructor
      · rw [met_cons, ← fill_assoc, above, fill_assoc]
      · rw [← fill_assoc]
        intro k hk hn
        rcases List.mem_cons.1 hn with hn | hn
        · obtain rfl : k = ⟨declared, superClass, interfaces, element⟩ :=
            Defines.unique (hn ▸ hk) h
          rw [h.callTable_of_isInterface hi, fill_assoc a]
          exact fill_fill_self
        · exact ha k hk hn

/-- So do several interfaces. -/
theorem met_reachedAmong (key : String) : ∀ cs : List Class,
    (∀ c ∈ cs, s.Defines c.name c ∧ c.isInterface = true) →
    ∀ (a : Option MethodRef) (seen : List String), Exhausted s key a seen →
      fill a (met key (Class.reachedAmong false seen cs)) = fill a (Class.offers key cs) ∧
      Exhausted s key (fill a (Class.offers key cs))
        ((Class.reachedAmong false seen cs).map Class.name ++ seen)
  | [], _, a, seen, ha => by
    rw [Class.reachedAmong]
    refine ⟨rfl, ?_⟩
    rw [show Class.offers key [] = none from rfl, fill_none_right]
    exact ha
  | c :: cs, h, a, seen, ha => by
    obtain ⟨hc, hcs⟩ := List.forall_mem_cons.1 h
    rw [Class.reachedAmong]
    obtain ⟨first, ha⟩ := met_reached key c hc.1 hc.2 a seen ha
    obtain ⟨others, ha⟩ := met_reachedAmong key cs hcs _ _ ha
    have both : Class.offers key (c :: cs) = fill (c.callTable.get? key) (Class.offers key cs) := rfl
    constructor
    · rw [met_append, ← fill_assoc, first, others, fill_assoc, both]
    · rw [both, ← fill_assoc]
      refine fun k hk hn => ha k hk ?_
      simp only [List.map_append, List.mem_append] at hn ⊢
      tauto

end

/-- **The table of a class has under each key what the search for a method finds.** -/
theorem callTable_get? (key : String) : ∀ {c : Class}, s.Defines c.name c →
    c.callTable.get? key = c.select? key
  | ⟨declared, superClass, interfaces, element⟩, h => by
    have inherited : (Class.inheritedTable superClass).get? key =
        superClass.bind (·.select? key) := by
      cases superClass with
      | none => rfl
      | some d => exact callTable_get? key (h.superClass rfl)
    have offered : Class.offers key interfaces =
        met key (Class.allInterfaces ⟨declared, superClass, interfaces, element⟩) := by
      have := (met_reachedAmong key interfaces (fun i hi =>
        ⟨h.interface hi, h.isInterface_interface hi⟩) none [] (by simp [Exhausted])).1
      rw [fill_none_left, fill_none_left] at this
      exact this.symm
    rw [Class.get?_callTable, Class.select?_eq, Class.selectOver_eq, offered, inherited]
    rfl

/-- A name and descriptor mean by the tables what they mean. -/
theorem lookUp?_eq (name descriptor : String) : ∀ {c : Class}, s.Defines c.name c →
    c.lookUp? name descriptor = c.findMethod? name descriptor
  | ⟨declared, some d, interfaces, element⟩, h => by
    rw [Class.lookUp?, Class.findMethod?, h.callTable_get?, lookUp?_eq name descriptor (h.superClass rfl)]
    rfl
  | ⟨declared, none, interfaces, element⟩, h => by
    rw [Class.lookUp?, Class.findMethod?, h.callTable_get?]
    exact Option.or_none

end Sources.Defines

end GreenVm
