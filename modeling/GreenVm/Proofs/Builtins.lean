/-
  The built-in classes, which can always be loaded.

  * `Library.sources`: the built-in classes by themselves.
  * `Library.checkNatives_ok`: every native method of a built-in class has its operation.
  * `Machine.Equipped`: the machine has at least the natives of the built-in classes.
  * `Machine.Equipped.defines`: the classes that the built-in ones define by themselves are defined in
    every such machine, whatever else it knows.
-/
import GreenVm.Proofs.Definitions
import GreenVm.Proofs.Linking
import GreenVm.Proofs.Loading.History

namespace GreenVm

open Exec

/-- There is something under the key of every entry. -/
theorem Table.contains_of_mem {κ α : Type} [DecidableEq κ] {t : Table κ α} {k : κ} {v : α}
    (h : (k, v) ∈ t.entries) : t.contains k = true := by
  rw [contains, get?, Option.isSome_map, List.find?_isSome]
  exact ⟨_, h, decide_eq_true rfl⟩

/-! ## Linked methods -/

theorem MethodDecl.link_ok {className : String} {d : MethodDecl} {m : Method}
    (h : d.link className = .ok m) :
    m.flags = d.flags ∧ m.name = d.name ∧ m.descriptor = d.descriptor := by
  have linked {x : Except Fault (Option Code)} {type : MethodDescriptor} (h : (do
      let code ← x
      return { flags := d.flags, name := d.name, type, descriptor := d.descriptor, code } :
        Except Fault Method) = .ok m) :
      m.flags = d.flags ∧ m.name = d.name ∧ m.descriptor = d.descriptor := by
    obtain ⟨code, -, h⟩ := except_bind_eq_ok.1 h
    cases h
    exact ⟨rfl, rfl, rfl⟩
  unfold link at h
  dsimp only at h
  split at h
  · split at h <;> exact linked h
  · cases h

/-- A method without code is native or abstract. -/
theorem MethodDecl.link_codeless {className : String} {d : MethodDecl} {m : Method}
    (h : d.link className = .ok m) (hc : m.code = none) : m.isNative = true ∨ m.isAbstract = true := by
  unfold link at h
  dsimp only at h
  split at h
  · split at h
    · obtain ⟨code, hcode, h⟩ := except_bind_eq_ok.1 h
      obtain ⟨code, -, rfl⟩ := except_map_eq_ok.1 hcode
      cases h
      cases hc
    · next hb =>
      cases h
      exact (Bool.or_eq_true _ _).mp hb
    · cases h
    · cases h
  · cases h

/-- The methods of a linked declaration are those of the class file. -/
theorem ClassFile.linkDeclaration_methods {file : ClassFile} {declared : Declaration}
    (h : file.linkDeclaration = .ok declared) :
    ∀ m ∈ declared.methods, ∃ d ∈ file.methods, d.link file.name = .ok m := by
  obtain ⟨_, -, h⟩ := except_bind_eq_ok.1 h
  obtain ⟨fields, -, h⟩ := except_bind_eq_ok.1 h
  obtain ⟨methods, hms, h⟩ := except_bind_eq_ok.1 h
  cases h
  intro m hm
  obtain ⟨d, hd, hl⟩ := forall₂_mem_right (mapM_eq_ok.1 hms) hm
  exact ⟨d, hd, hl⟩

/-! ## The classes by themselves -/

namespace Library

/-- The built-in classes by themselves. -/
def sources : Sources := .ofFiles []

/-- The native methods of a built-in class are among its natives. -/
theorem natives_cover : ∀ c ∈ classes, ∀ d ∈ c.file.methods, d.flags.has .native = true →
    ∃ n ∈ c.natives, n.name = d.name ∧ n.descriptor = d.descriptor := by
  decide +kernel

theorem natives_contains {c : BuiltinClass} {d : MethodDecl} (hc : c ∈ classes)
    (hd : d ∈ c.file.methods) (hn : d.flags.has .native = true) :
    natives.contains c.file.name d.name d.descriptor = true := by
  obtain ⟨n, hn, hname, hdescriptor⟩ := natives_cover c hc d hd hn
  rw [← hname, ← hdescriptor]
  refine Table.contains_of_mem (v := .builtin n.op) ?_
  exact List.mem_flatMap.2 ⟨c, hc, List.mem_map.2 ⟨n, hn, rfl⟩⟩

/-- Every native method of a built-in class has its operation. -/
theorem checkNatives_ok {c : BuiltinClass} {declared : Declaration} (hc : c ∈ classes)
    (h : c.file.linkDeclaration = .ok declared) :
    ClassFile.checkNatives natives declared = .ok () := by
  refine ClassFile.checkNatives_eq_ok.2 fun m hm hn => ?_
  obtain ⟨d, hd, hl⟩ := ClassFile.linkDeclaration_methods h m hm
  obtain ⟨hflags, hname, hdescriptor⟩ := MethodDecl.link_ok hl
  rw [Method.isNative, hflags] at hn
  rw [(ClassFile.linkDeclaration_ok h).1, hname, hdescriptor]
  exact natives_contains hc hd hn

/-- The class files that a name has among the built-in classes, it has in all sources. -/
theorem sources_find? {name : String} {file : ClassFile} (h : sources.find? name = some file)
    (s : Sources) : s.find? name = some file ∧ ∃ c ∈ classes, c.file = file := by
  rw [Sources.find?, show sources.classPath = .empty from rfl, Table.get?_empty,
    Option.or_none] at h
  refine ⟨by rw [Sources.find?, h, Option.some_or], ?_⟩
  obtain ⟨⟨_, _⟩, he, rfl⟩ := List.mem_map.1 (Table.mem_values_of_get? h)
  obtain ⟨c, hc, hfile⟩ := List.mem_map.1 he
  exact ⟨c, hc, (Prod.mk.inj hfile).2⟩

end Library

/-! ## In a machine -/

/-- The machine has the natives of the built-in classes. -/
def Machine.Equipped (m : Machine) : Prop :=
  ∀ key, Library.natives.table.contains key = true → m.natives.table.contains key = true

theorem Retains.equipped {m m' : Machine} (h : Retains m m') (he : m.Equipped) : m'.Equipped :=
  fun key hk => h.natives key (he key hk)

/-- A class of the built-in ones is the same class in every machine that has their natives. -/
theorem Machine.Equipped.sources_defines {m : Machine} (h : m.Equipped) {name : String} {c : Class}
    (hc : Library.sources.Defines name c) : (sources m).Defines name c := by
  refine hc.mono (fun name file hf => (Library.sources_find? hf (sources m)).1) ?_
  intro name file superClass interfaces k hf hl
  obtain ⟨-, b, hb, rfl⟩ := Library.sources_find? hf (sources m)
  obtain ⟨declared, hd, -, rfl⟩ := Loader.linkClass_ok hl
  refine except_bind_eq_ok.2 ⟨declared, hd, ?_⟩
  split
  · have provided := ClassFile.checkNatives_mono h (Library.checkNatives_ok hb hd)
    exact except_bind_eq_ok.2 ⟨(), provided, rfl⟩
  · rfl

/-- What holds of a class of the built-in ones by themselves. -/
theorem Machine.Equipped.defines {m : Machine} {name : String} {P : Class → Bool} (h : m.Equipped)
    (hc : (Library.sources.class? name).any P = true) :
    ∃ c, (sources m).Defines name c ∧ P c = true := by
  obtain ⟨c, hc, hP⟩ := (Option.any_eq_true _ _).1 hc
  exact ⟨c, h.sources_defines (Sources.class?_eq_some.1 hc), hP⟩

end GreenVm
