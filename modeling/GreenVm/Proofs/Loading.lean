/-
  What loading a class comes to.

  * `Sources.Defines s name c`: the class that a name means, told from the class files and without
    the loader.  A name means at most one class.
  * `Loaded.Sound`: everything that is loaded is what its name means.  Loading keeps this up, and
    never takes back or replaces a class (`Loaded.Grows`).
  * `Loader.load_iff`: so whatever has been loaded before, loading a name gives the class that the
    name means, and fails if it means none.
-/
import GreenVm.Proofs.Work

namespace GreenVm

/-! ## What a name means -/

/-- The sources define a class under a name. -/
inductive Sources.Defines (s : Sources) : String → Class → Prop
  | array {name : String} {component : FieldType} {element : Option Class}
      {object cloneable serializable : Class}
      (ht : FieldType.ofClassName? name = some (.array component))
      (he : component.className?.isSome = element.isSome)
      (hes : ∀ n ∈ component.className?, ∀ d ∈ element, s.Defines n d)
      (ho : s.Defines ClassName.object object)
      (hc : s.Defines ClassName.cloneable cloneable)
      (hs : s.Defines ClassName.serializable serializable) :
      s.Defines name { declared := .ofArray name component, superClass := some object
                       interfaces := [cloneable, serializable], element }
  | file {name : String} {file : ClassFile} {superClass : Option Class} {interfaces : List Class}
      {c : Class} (hp : isArrayName name = false) (hf : s.find? name = some file)
      (hn : file.name = name) (hs : file.superClass.isSome = superClass.isSome)
      (htop : file.superClass = none → file.name = ClassName.object)
      (hss : ∀ n ∈ file.superClass, ∀ d ∈ superClass, s.Defines n d)
      (hsc : ∀ d ∈ superClass, d.isInterface = false)
      (hi : file.interfaces.length = interfaces.length)
      (his : ∀ p ∈ file.interfaces.zip interfaces, s.Defines p.1 p.2)
      (hic : ∀ d ∈ interfaces, d.isInterface = true)
      (hl : Loader.linkClass s file superClass interfaces = .ok c) : s.Defines name c

theorem isArrayName_of_array {name : String} {component : FieldType}
    (h : FieldType.ofClassName? name = some (.array component)) : isArrayName name = true := by
  unfold FieldType.ofClassName? at h
  split at h
  · assumption
  · split at h <;> simp at h

theorem mem_zip_of_mem_right {α β : Type} {b : β} : ∀ {as : List α} {bs : List β},
    as.length = bs.length → b ∈ bs → ∃ a, (a, b) ∈ as.zip bs
  | [], [], _, hb => by simp at hb
  | a :: as, b' :: bs, h, hb => by
    rcases List.mem_cons.1 hb with rfl | hb
    · exact ⟨a, by simp⟩
    · obtain ⟨a', ha⟩ := mem_zip_of_mem_right (Nat.succ.inj h) hb
      exact ⟨a', List.mem_cons_of_mem _ ha⟩

namespace ClassFile

/-- A linked declaration is that of a class of the same name, and no array class. -/
theorem linkDeclaration_ok {file : ClassFile} {d : Declaration} (h : file.linkDeclaration = .ok d) :
    d.name = file.name ∧ d.component = none := by
  obtain ⟨_, -, h⟩ := except_bind_eq_ok.1 h
  obtain ⟨fields, -, h⟩ := except_bind_eq_ok.1 h
  obtain ⟨methods, -, h⟩ := except_bind_eq_ok.1 h
  cases h
  exact ⟨rfl, rfl⟩

end ClassFile

theorem Loader.linkClass_ok {s : Sources} {file : ClassFile} {superClass : Option Class}
    {interfaces : List Class} {c : Class}
    (h : Loader.linkClass s file superClass interfaces = .ok c) :
    ∃ declared, file.linkDeclaration = .ok declared ∧
      (s.eager = true → ClassFile.checkNatives s.natives declared = .ok ()) ∧
      c = { declared, superClass, interfaces, element := none } := by
  obtain ⟨declared, hd, h⟩ := except_bind_eq_ok.1 h
  by_cases he : s.eager = true
  · rw [if_pos he] at h
    obtain ⟨_, hn, h⟩ := except_bind_eq_ok.1 h
    cases h
    exact ⟨declared, hd, fun _ => hn, rfl⟩
  · rw [if_neg he] at h
    cases h
    exact ⟨declared, hd, fun h => absurd h he, rfl⟩

namespace Sources.Defines

variable {s : Sources} {name : String} {c d : Class}

theorem name_eq (h : s.Defines name c) : c.name = name := by
  cases h with
  | array => rfl
  | file _ _ hn _ _ _ _ _ _ _ hl =>
    obtain ⟨declared, hd, -, rfl⟩ := Loader.linkClass_ok hl
    exact (ClassFile.linkDeclaration_ok hd).1.trans hn

/-- The name of a class says whether it is an array class. -/
theorem component_isSome (h : s.Defines name c) :
    c.declared.component.isSome = isArrayName name := by
  cases h with
  | array ht => exact (isArrayName_of_array ht).symm
  | file hp _ _ _ _ _ _ _ _ _ hl =>
    obtain ⟨declared, hd, -, rfl⟩ := Loader.linkClass_ok hl
    simp [(ClassFile.linkDeclaration_ok hd).2, hp]

/-- What stands above a class is defined, too. -/
theorem superClass (h : s.Defines name c) (hd : c.superClass = some d) : s.Defines d.name d := by
  cases h with
  | array _ _ _ ho =>
    cases hd
    exact ho.name_eq.symm ▸ ho
  | @file _ file _ _ _ _ _ _ hs _ hss _ _ _ _ hl =>
    obtain ⟨declared, -, -, rfl⟩ := Loader.linkClass_ok hl
    cases hd
    obtain ⟨n, hn⟩ : ∃ n, file.superClass = some n := Option.isSome_iff_exists.1 hs
    have := hss n hn d rfl
    exact this.name_eq.symm ▸ this

theorem interface (h : s.Defines name c) (hd : d ∈ c.interfaces) : s.Defines d.name d := by
  cases h with
  | array _ _ _ _ hc hs =>
    rcases List.mem_cons.1 hd with rfl | hd
    · exact hc.name_eq.symm ▸ hc
    · cases List.mem_singleton.1 hd
      exact hs.name_eq.symm ▸ hs
  | @file _ file _ _ _ _ _ _ _ _ _ _ hi his _ hl =>
    obtain ⟨declared, -, -, rfl⟩ := Loader.linkClass_ok hl
    obtain ⟨n, hn⟩ : ∃ n, (n, d) ∈ file.interfaces.zip _ := mem_zip_of_mem_right hi hd
    have := his _ hn
    exact this.name_eq.symm ▸ this

/-- Options that are there for the same names, and lists of one length, are the same if their
    members are. -/
theorem option_unique {n : Option String} {x y : Option Class} (hx : n.isSome = x.isSome)
    (hy : n.isSome = y.isSome) (h : ∀ k ∈ n, ∀ a ∈ x, ∀ b ∈ y, a = b) : x = y := by
  cases n with
  | none => simp_all
  | some k =>
    obtain ⟨a, rfl⟩ := Option.isSome_iff_exists.1 hx.symm
    obtain ⟨b, rfl⟩ := Option.isSome_iff_exists.1 hy.symm
    exact congrArg some (h k rfl a rfl b rfl)

theorem list_unique : ∀ {ns : List String} {xs ys : List Class}, ns.length = xs.length →
    ns.length = ys.length → (∀ p ∈ ns.zip xs, ∀ b, (p.1, b) ∈ ns.zip ys → p.2 = b) → xs = ys
  | [], [], [], _, _, _ => rfl
  | n :: ns, x :: xs, y :: ys, hx, hy, h => by
    obtain rfl : x = y := h (n, x) (by simp) y (by simp)
    have tail : xs = ys := list_unique (Nat.succ.inj hx) (Nat.succ.inj hy) fun p hp b hb =>
      h p (List.mem_cons_of_mem _ hp) b (List.mem_cons_of_mem _ hb)
    rw [tail]

/-- A name means at most one class. -/
theorem unique (h : s.Defines name c) (h' : s.Defines name d) : c = d := by
  induction h generalizing d with
  | array ht he _ _ _ _ ihe iho ihc ihs =>
    cases h' with
    | array ht' he' hes' ho' hc' hs' =>
      cases ht.symm.trans ht'
      cases iho ho'
      cases ihc hc'
      cases ihs hs'
      cases option_unique he he' fun n hn a ha b hb => ihe n hn a ha (hes' n hn b hb)
      rfl
    | file hp => exact absurd (isArrayName_of_array ht) (by simp [hp])
  | file hp hf hn hs htop _ hsc hi _ hic hl ihs ihi =>
    cases h' with
    | array ht => exact absurd (isArrayName_of_array ht) (by simp [hp])
    | file _ hf' hn' hs' htop' hss' hsc' hi' his' hic' hl' =>
      cases hf.symm.trans hf'
      cases option_unique hs hs' fun n hn a ha b hb => ihs n hn a ha (hss' n hn b hb)
      cases list_unique hi hi' fun p hp b hb => ihi p hp (his' _ hb)
      exact Except.ok.inj (hl.symm.trans hl')

end Sources.Defines

/-! ## Loading -/

/-- Everything that is loaded is what its name means. -/
def Loaded.Sound (s : Sources) (l : Loaded) : Prop := ∀ n c, l.get? n = some c → s.Defines n c

/-- Loading while the definition of some names is under way: what is loaded stays, and none of these
    names is. -/
structure Loaded.Grows (s : Sources) (path : List String) (l l' : Loaded) : Prop where
  kept : ∀ n c, l.get? n = some c → l'.get? n = some c
  spared : ∀ n ∈ path, l'.get? n = l.get? n
  sound : l.Sound s → l'.Sound s

namespace Loaded.Grows

variable {s : Sources} {path : List String} {name : String} {l l' : Loaded} {c : Class}

/-- Entering a class under a name that was to be defined all the while. -/
theorem enter (hl : Grows s (name :: path) l l') (hn : l.get? name = none)
    (hp : name ∉ path) (hc : l.Sound s → s.Defines name c) : Grows s path l (l'.put name c) where
  kept n d hd := by
    have hne : name ≠ n := fun e => by rw [e, hd] at hn; cases hn
    rw [Table.get?_put_of_ne _ _ hne]
    exact hl.kept n d hd
  spared n hn' := by
    have hne : name ≠ n := fun e => hp (e ▸ hn')
    rw [Table.get?_put_of_ne _ _ hne]
    exact hl.spared n (List.mem_cons_of_mem _ hn')
  sound hs n d hd := by
    rw [Table.get?_put] at hd
    split at hd
    · next e =>
      cases hd
      exact e ▸ hc hs
    · exact hl.sound hs n d hd

theorem weaken (h : Grows s (name :: path) l l') : Grows s path l l' :=
  ⟨h.kept, fun n hn => h.spared n (List.mem_cons_of_mem _ hn), h.sound⟩

end Loaded.Grows

theorem Loaded.Sound.put {s : Sources} {name : String} {l : Loaded} {c : Class} (h : l.Sound s)
    (hc : s.Defines name c) : Loaded.Sound s (l.put name c) := by
  intro n d hd
  rw [Table.get?_put] at hd
  split at hd
  · next e =>
    cases hd
    exact e ▸ hc
  · exact h n d hd

namespace Loader

open Loaded

variable {s : Sources} {path : List String} {name : String} {l l' : Loaded} {c : Class}

instance : Std.Refl (Grows s path) := ⟨fun _ => ⟨fun _ _ h => h, fun _ _ => rfl, id⟩⟩

instance : IsTrans Loaded (Grows s path) := ⟨fun _ _ _ h h' =>
  ⟨fun n c hc => h'.kept n c (h.kept n c hc), fun n hn => (h'.spared n hn).trans (h.spared n hn),
    h'.sound ∘ h.sound⟩⟩

theorem outcome_getLoaded (l : Loaded) : outcome (get : LoadM Loaded) l = (.ok l, l) := rfl

@[simp] theorem outcome_enter (name : String) (c : Class) (l : Loaded) :
    outcome (enter name c) l = (.ok c, l.put name c) := rfl

/-- Loading leads from what was loaded to more, and to what satisfies some condition. -/
abbrev Yields {α : Type} (s : Sources) (path : List String) (l : Loaded) (x : LoadM α)
    (Q : α → Prop) : Prop :=
  Leads (Grows s path l) x (fun a l' => Grows s path l l' ∧ (l.Sound s → Q a)) (Grows s path l)

section Parts

variable {file : ClassFile}

theorem elementOf_yields {component : FieldType}
    {next : (n : String) → component.className? = some n → LoadM Class}
    (h : ∀ n hn, Yields s path l (next n hn) (s.Defines n)) :
    Yields s path l (elementOf component next) fun e =>
      component.className?.isSome = e.isSome ∧
        ∀ n ∈ component.className?, ∀ d ∈ e, s.Defines n d := by
  unfold elementOf
  split
  · next n hn =>
    refine (h n hn).map fun c l' hl => ⟨hl.1, fun hs => ⟨by simp [hn], ?_⟩⟩
    rintro k hk d ⟨⟩
    cases hn.symm.trans hk
    exact hl.2 hs
  · next hn => exact .pure _ fun _ hl => ⟨hl, fun _ => by simp [hn]⟩

theorem superclassOf_yields {next : (n : String) → n ∈ file.above → LoadM Class}
    (h : ∀ n hn, Yields s path l (next n hn) (s.Defines n)) :
    Yields s path l (superclassOf file next) fun e =>
      file.superClass.isSome = e.isSome ∧
        (file.superClass = none → file.name = ClassName.object) ∧
        (∀ n ∈ file.superClass, ∀ d ∈ e, s.Defines n d) ∧ ∀ d ∈ e, d.isInterface = false := by
  unfold superclassOf
  split
  · next n hn =>
    refine .bind (h n _) fun c => .map (.liftExcept (checkSuperclass file.name c) (Q := fun d l' =>
      Grows s path l l' ∧ (l.Sound s → s.Defines n d ∧ d.isInterface = false)) ?_ fun _ => And.left)
      ?_
    · intro d l' hd hl
      unfold checkSuperclass at hd
      split at hd
      · cases hd
      · next hi =>
        cases hd
        exact ⟨hl.1, fun hs => ⟨hl.2 hs, by simpa using hi⟩⟩
    · refine fun d l' hl => ⟨hl.1, fun hs => ⟨by simp [hn], by simp [hn], ?_, ?_⟩⟩
      · rintro k hk d' ⟨⟩
        cases hn.symm.trans hk
        exact (hl.2 hs).1
      · rintro d' ⟨⟩
        exact (hl.2 hs).2
  · next hn =>
    split
    · next ho => exact .pure _ fun _ hl => ⟨hl, fun _ => by simp [hn, ho]⟩
    · exact .throw _ fun _ hl => hl

theorem mapM_yields {next : (n : String) → n ∈ file.above → LoadM Class}
    (h : ∀ n hn, Yields s path l (next n hn) (s.Defines n)) :
    ∀ ns : List { n // n ∈ file.interfaces }, Yields s path l
      (ns.mapM fun ⟨n, hn⟩ => do
        let c ← next n (List.mem_append_right _ hn)
        checkInterface file.name c) fun cs =>
      ns.length = cs.length ∧ (∀ p ∈ (ns.map Subtype.val).zip cs, s.Defines p.1 p.2) ∧
        ∀ d ∈ cs, d.isInterface = true
  | [] => by
    rw [List.mapM_nil]
    exact .pure _ fun _ hl => ⟨hl, fun _ => by simp⟩
  | ⟨n, hn⟩ :: ns => by
    rw [List.mapM_cons]
    have first : Yields s path l (do
        let c ← next n (List.mem_append_right _ hn)
        checkInterface file.name c : LoadM Class) fun c =>
          s.Defines n c ∧ c.isInterface = true := by
      refine .bind (h n _) fun c => .liftExcept _ (fun d l' hd hl => ?_) fun _ => And.left
      unfold checkInterface at hd
      split at hd
      · next hi =>
        cases hd
        exact ⟨hl.1, fun hs => ⟨hl.2 hs, hi⟩⟩
      · cases hd
    refine .bind first fun c l₁ h₁ => Leads.bind (mapM_yields h ns) (fun cs => .pure _ ?_) l₁ h₁.1
    rintro l₂ ⟨hl, h₂⟩
    refine ⟨hl, fun hs => ?_⟩
    obtain ⟨hc, hi⟩ := h₁.2 hs
    obtain ⟨hlen, hcs, his⟩ := h₂ hs
    exact ⟨congrArg (· + 1) hlen, List.forall_mem_cons.2 ⟨hc, hcs⟩, List.forall_mem_cons.2 ⟨hi, his⟩⟩

theorem interfacesOf_yields {next : (n : String) → n ∈ file.above → LoadM Class}
    (h : ∀ n hn, Yields s path l (next n hn) (s.Defines n)) :
    Yields s path l (interfacesOf file next) fun cs =>
      file.interfaces.length = cs.length ∧ (∀ p ∈ file.interfaces.zip cs, s.Defines p.1 p.2) ∧
        ∀ d ∈ cs, d.isInterface = true := by
  have := mapM_yields h file.interfaces.attach
  simpa [interfacesOf] using this

end Parts

/-- Loading a name from what is loaded on comes to its class, which is then entered, or fails. -/
def Comes (s : Sources) (path : List String) (name : String) : Prop :=
  ∀ l, Leads (· = l) (load s path name) (fun c l' => Grows s path l l' ∧ l'.get? name = some c)
    (Grows s path l)

theorem Comes.yields (h : Comes s path name) (l : Loaded) :
    Yields s path l (load s path name) (s.Defines name) := by
  intro l₁ hl₁
  have := h l₁ l₁ rfl
  split at this
  · next c l₂ _ =>
    have hl₂ := trans_of (Grows s path) hl₁ this.1
    exact ⟨hl₂, fun hs => hl₂.sound hs name c this.2⟩
  · exact trans_of (Grows s path) hl₁ this

theorem enter_leads (hn : l.get? name = none) (hp : name ∉ path)
    (hc : l.Sound s → s.Defines name c) :
    Leads (Grows s (name :: path) l) (enter name c)
      (fun d l' => Grows s path l l' ∧ l'.get? name = some d) (Grows s path l) := by
  intro l' hl
  rw [outcome_enter]
  exact ⟨hl.enter hn hp hc, Table.get?_put_self _ _ _⟩

/-- Loading a name, if loading whatever it needs comes to something. -/
theorem Comes.of_next (next : ∀ n, s.remaining (name :: path) n < s.remaining path name →
    Comes s (name :: path) n) : Comes s path name := by
  rintro l _ rfl
  rename Loaded => l
  rw [load, outcome_bind_ok (outcome_getLoaded l)]
  cases hl : l.get? name with
  | some c =>
    simp only [outcome_pure]
    exact ⟨refl_of (Grows s path) l, hl⟩
  | none =>
    dsimp only
    have failing : ∀ l', Grows s (name :: path) l l' → Grows s path l l' := fun _ => .weaken
    by_cases hp : name ∈ path
    · rw [dif_pos hp, outcome_throw]
      exact refl_of (Grows s path) l
    rw [dif_neg hp]
    refine Leads.weaken (P := Grows s (name :: path) l) ?_ ?_ (fun _ _ h => h) (fun _ h => h) l rfl
    · split
      · next ha =>
        split
        · next component ht =>
          have plain {n : String} (hn : isArrayName n = false) :=
            ((next n (s.remaining_lt_of_rank path (arrayRank_lt_of_plain ha hn))).yields l).failing
              failing
          refine Leads.bind ((elementOf_yields fun n hn => (next n
            (s.remaining_lt_of_rank path (arrayRank_lt ht hn))).yields l).failing failing) ?_
          intro element l₁ h₁
          refine Leads.bind (plain isArrayName_object) ?_ l₁ h₁.1
          intro object l₂ h₂
          refine Leads.bind (plain isArrayName_cloneable) ?_ l₂ h₂.1
          intro cloneable l₃ h₃
          refine Leads.bind (plain isArrayName_serializable) ?_ l₃ h₃.1
          intro serializable l₄ h₄
          refine enter_leads hl hp (fun hs => ?_) l₄ h₄.1
          exact .array ht (h₁.2 hs).1 (h₁.2 hs).2 (h₂.2 hs) (h₃.2 hs) (h₄.2 hs)
        · exact .throw _ failing
      · next ha =>
        split
        · exact .throw _ failing
        · next file hf =>
          split
          · exact .throw _ failing
          · next hn =>
            have above (n : String) (hn : n ∈ file.above) :=
              (next n (Sources.remaining_lt_of_find? hp hf hn)).yields l
            refine Leads.bind ((superclassOf_yields above).failing failing) ?_
            intro superClass l₁ h₁
            refine Leads.bind ((interfacesOf_yields above).failing failing) ?_ l₁ h₁.1
            intro interfaces l₂ h₂
            refine Leads.bind (Q := fun c l' => Grows s (name :: path) l l' ∧
              linkClass s file superClass interfaces = .ok c)
              (.liftExcept _ (fun _ _ hc hl => ⟨hl, hc⟩) failing) ?_ l₂ h₂.1
            intro c l₃ h₃
            refine enter_leads hl hp (fun hs => ?_) l₃ h₃.1
            obtain ⟨some_super, top, super, super_class⟩ := h₁.2 hs
            obtain ⟨length, interfaces, all_interfaces⟩ := h₂.2 hs
            exact .file (by simpa using ha) hf (by simpa using hn) some_super top super super_class
              length interfaces all_interfaces h₃.2
    · rintro _ rfl
      exact refl_of (Grows s (name :: path)) _

/-- Loading a name comes to the class that the name means, or fails. -/
theorem load_comes (s : Sources) (path : List String) (name : String) : Comes s path name :=
  .of_next fun n _ => load_comes s (name :: path) n
termination_by s.remaining path name

/-! ### What is defined is loaded -/

/-- From what is sound, the work comes to an answer and to what is sound. -/
abbrev Gives {α : Type} (s : Sources) (x : LoadM α) (a : α) : Prop :=
  Leads (Sound s) x (fun b l => b = a ∧ l.Sound s) fun _ => False

theorem Gives.bind {α β : Type} {x : LoadM α} {f : α → LoadM β} {a : α} {b : β} (hx : Gives s x a)
    (hf : Gives s (f a) b) : Gives s (x >>= f) b :=
  Leads.bind hx fun _ l h => h.1 ▸ hf l h.2

theorem elementOf_gives {component : FieldType} {e : Option Class}
    {next : (n : String) → component.className? = some n → LoadM Class}
    (he : component.className?.isSome = e.isSome)
    (h : ∀ n hn, ∀ d ∈ e, Gives s (next n hn) d) : Gives s (elementOf component next) e := by
  unfold elementOf
  split
  · next n hn =>
    obtain ⟨d, rfl⟩ : ∃ d, e = some d := Option.isSome_iff_exists.1 (by simpa [hn] using he.symm)
    exact (h n hn d rfl).map fun _ _ hd => ⟨congrArg some hd.1, hd.2⟩
  · next hn =>
    obtain rfl : e = none := by simpa [hn] using he.symm
    exact .pure _ fun _ hl => ⟨rfl, hl⟩

section Parts

variable {file : ClassFile}

theorem superclassOf_gives {e : Option Class} {next : (n : String) → n ∈ file.above → LoadM Class}
    (he : file.superClass.isSome = e.isSome)
    (htop : file.superClass = none → file.name = ClassName.object)
    (hc : ∀ d ∈ e, d.isInterface = false)
    (h : ∀ n hn, n ∈ file.superClass → ∀ d ∈ e, Gives s (next n hn) d) :
    Gives s (superclassOf file next) e := by
  unfold superclassOf
  split
  · next n hn =>
    obtain ⟨d, rfl⟩ : ∃ d, e = some d := Option.isSome_iff_exists.1 (by simpa [hn] using he.symm)
    refine Gives.bind (h n _ hn d rfl) (.map (Q := fun b l => b = d ∧ l.Sound s) ?_ ?_)
    · intro l hl
      simp [checkSuperclass, hc d rfl, hl]
    · exact fun _ _ hd => ⟨congrArg some hd.1, hd.2⟩
  · next hn =>
    obtain rfl : e = none := by simpa [hn] using he.symm
    rw [if_pos (htop hn)]
    exact .pure _ fun _ hl => ⟨rfl, hl⟩

theorem mapM_gives {next : (n : String) → n ∈ file.above → LoadM Class} :
    ∀ {ns : List { n // n ∈ file.interfaces }} {cs : List Class}, ns.length = cs.length →
      (∀ d ∈ cs, d.isInterface = true) →
      (∀ n hn d, (n, d) ∈ (ns.map Subtype.val).zip cs → Gives s (next n hn) d) →
      Gives s (ns.mapM fun ⟨n, hn⟩ => do
        let c ← next n (List.mem_append_right _ hn)
        checkInterface file.name c) cs
  | [], [], _, _, _ => by
    rw [List.mapM_nil]
    exact .pure _ fun _ hl => ⟨rfl, hl⟩
  | ⟨n, hn⟩ :: ns, c :: cs, hlen, hcs, h => by
    rw [List.mapM_cons]
    refine Gives.bind (a := c) (.bind (a := c) (h n _ c (by simp)) fun l hl => ?_) (.bind (a := cs)
      (mapM_gives (Nat.succ.inj hlen) (fun d hd => hcs d (List.mem_cons_of_mem _ hd))
        fun k hk d hd => h k hk d (List.mem_cons_of_mem _ hd)) ?_)
    · simp [checkInterface, hcs c (by simp), hl]
    · exact .pure _ fun _ hl => ⟨rfl, hl⟩

theorem interfacesOf_gives {cs : List Class} {next : (n : String) → n ∈ file.above → LoadM Class}
    (hlen : file.interfaces.length = cs.length) (hcs : ∀ d ∈ cs, d.isInterface = true)
    (h : ∀ n hn d, (n, d) ∈ file.interfaces.zip cs → Gives s (next n hn) d) :
    Gives s (interfacesOf file next) cs :=
  mapM_gives (by simpa using hlen) hcs (by simpa using h)

end Parts

/-- No name under way needs the class. -/
def Clear (s : Sources) (path : List String) (c : Class) : Prop :=
  ∀ k ∈ path, ∀ d, s.Defines k d → sizeOf c < sizeOf d

theorem Clear.not_mem (h : Clear s path c) (hc : s.Defines name c) : name ∉ path :=
  fun hn => Nat.lt_irrefl _ (h name hn c hc)

/-- On the way to a class it is under way itself. -/
theorem Clear.below {d : Class} (h : Clear s path c) (hc : s.Defines name c)
    (hd : sizeOf d < sizeOf c) : Clear s (name :: path) d := by
  intro k hk e he
  rcases List.mem_cons.1 hk with rfl | hk
  · exact he.unique hc ▸ hd
  · exact Nat.lt_trans hd (h k hk e he)

/-- What a name means is what loading it comes to. -/
theorem load_defined (h : s.Defines name c) :
    ∀ path, Clear s path c → Gives s (load s path name) c := by
  induction h with
  | @array name component element object cloneable serializable ht he hes ho hc hs ihes iho ihc ihs =>
    intro path hp l hl
    have hd : s.Defines name { declared := .ofArray name component, superClass := some object
                               interfaces := [cloneable, serializable], element } :=
      .array ht he hes ho hc hs
    rw [load, outcome_bind_ok (outcome_getLoaded l)]
    cases hl' : l.get? name with
    | some d =>
      simp only [outcome_pure]
      exact ⟨(hl name d hl').unique hd, hl⟩
    | none =>
      dsimp only
      rw [dif_neg (hp.not_mem hd), if_pos (isArrayName_of_array ht)]
      refine (?_ : Gives s _ _) l hl
      split
      · next component' ht' =>
        cases ht.symm.trans ht'
        refine .bind (elementOf_gives he fun n hn d hd' => ihes n hn d hd' _ (hp.below hd ?_))
          (.bind (iho _ (hp.below hd ?_)) (.bind (ihc _ (hp.below hd ?_)) (.bind (ihs _ (hp.below hd ?_))
            fun l' hl' => ?_)))
        · cases hd'
          simp
          omega
        · simp
          omega
        · simp
          omega
        · simp
          omega
        · rw [outcome_enter]
          exact ⟨rfl, hl'.put hd⟩
      · next hne => exact absurd ht (hne component)
  | @file name file superClass interfaces c hplain hf hn hs htop hss hsc hi his hic hlink ihs ihi =>
    intro path hp l hl
    have hd : s.Defines name c := .file hplain hf hn hs htop hss hsc hi his hic hlink
    rw [load, outcome_bind_ok (outcome_getLoaded l)]
    cases hl' : l.get? name with
    | some d =>
      simp only [outcome_pure]
      exact ⟨(hl name d hl').unique hd, hl⟩
    | none =>
      dsimp only
      rw [dif_neg (hp.not_mem hd), if_neg (by simp [hplain])]
      refine (?_ : Gives s _ _) l hl
      split
      · next hnone => cases hf.symm.trans hnone
      · next file' hf' =>
        cases hf.symm.trans hf'
        rw [if_neg (not_not.2 hn)]
        obtain ⟨declared, -, -, hc⟩ := linkClass_ok hlink
        refine .bind (superclassOf_gives hs htop hsc fun n _ hn d hd' =>
          ihs n hn d hd' _ (hp.below hd ?_)) (.bind (interfacesOf_gives hi hic fun n _ d hd' =>
            ihi (n, d) hd' _ (hp.below hd ?_)) (.bind (a := c) ?_ fun l' hl' => ?_))
        · cases hd'
          rw [hc]
          simp
          omega
        · have := List.sizeOf_lt_of_mem (List.of_mem_zip hd').2
          rw [hc]
          simp at this ⊢
          omega
        · intro l' hl'
          rw [hlink, outcome_liftExcept]
          exact ⟨rfl, hl'⟩
        · rw [outcome_enter]
          exact ⟨rfl, hl'.put hd⟩

/-- Loading a name gives the class that the name means, whatever has been loaded before. -/
theorem load_iff (hl : l.Sound s) :
    (outcome (load s [] name) l).1 = .ok c ↔ s.Defines name c := by
  constructor
  · intro h
    have := load_comes s [] name l l rfl
    split at this
    · next d l' e =>
      rw [e] at h
      cases h
      exact this.1.sound hl name c this.2
    · next e _ e' =>
      rw [e'] at h
      cases h
  · intro h
    have := load_defined h [] (fun _ hk => by cases hk) l hl
    split at this
    · next d l' e => rw [e, this.1]
    · exact this.elim

end Loader

end GreenVm
