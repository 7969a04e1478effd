/-
  What the registry of native methods answers, after methods have been registered in it.

  * `NativeName`: a class, the name of a method and its descriptor.  The registry knows them by a single
    text, the key.
  * `NativeName.IsPlain`: none of the three holds a mark that stands between them in the key.
    `NativeName.key_inj`: then the key tells all three.
  * `keyBelongsTo_iff`: a key belongs to a class if it can be read as one of the class, whatever the
    texts are; if they are plain, it can be read as one of no other class (`keyBelongsTo_key`).
  * `Natives.registered`: a registry after calls that register natives, one after another.
    `Natives.lookup?_registered` and `Natives.mem_keys_registered` say what it holds, by keys.
  * `Natives.answers_registered`: what it answers, by names.
  * `Library.natives_eq_registered`: the registry of the built-in classes has come about like this.
-/
import GreenVm.Library.Classes
import GreenVm.Proofs.CallTables
import GreenVm.Proofs.Layouts

namespace GreenVm

/-! ## Keys -/

/-- What a native method is registered under. -/
@[ext]
structure NativeName where
  className : String
  name : String
  descriptor : String
  deriving DecidableEq, Repr

/-- A text is cut in one way at the last place where a mark stands. -/
theorem append_last_mark_inj {α : Type} {mark : α} {as bs cs ds : List α} (hc : mark ∉ cs)
    (hd : mark ∉ ds) (h : as ++ mark :: cs = bs ++ mark :: ds) : as = bs ∧ cs = ds := by
  have hreverse : cs.reverse ++ mark :: as.reverse = ds.reverse ++ mark :: bs.reverse := by
    simpa using congrArg List.reverse h
  obtain ⟨hcd, hab⟩ := append_mark_inj (by simpa using hc) (by simpa using hd) hreverse
  exact ⟨List.reverse_inj.1 hab, List.reverse_inj.1 hcd⟩

namespace NativeName

variable {x y : NativeName} {className : String}

/-- The text that the registry knows the method by. -/
def key (x : NativeName) : String := nativeKey x.className x.name x.descriptor

/-- The name of the method holds no mark, and the descriptor begins with one. -/
structure HasPlainMethod (x : NativeName) : Prop where
  slash : '/' ∉ x.name.toList
  parenthesis : '(' ∉ x.name.toList
  descriptor : x.descriptor.toList.head? = some '('

/-- Nor does the name of the class hold the mark of the descriptor. -/
structure IsPlain (x : NativeName) : Prop extends x.HasPlainMethod where
  className : '(' ∉ x.className.toList

instance : DecidablePred HasPlainMethod := fun x =>
  decidable_of_iff
    ('/' ∉ x.name.toList ∧ '(' ∉ x.name.toList ∧ x.descriptor.toList.head? = some '(')
    ⟨fun h => ⟨h.1, h.2.1, h.2.2⟩, fun h => ⟨h.slash, h.parenthesis, h.descriptor⟩⟩

instance : DecidablePred IsPlain := fun x =>
  decidable_of_iff (x.HasPlainMethod ∧ '(' ∉ x.className.toList)
    ⟨fun h => ⟨h.1, h.2⟩, fun h => ⟨h.toHasPlainMethod, h.className⟩⟩

/-- Where the marks of a key stand. -/
theorem HasPlainMethod.toList_key (h : x.HasPlainMethod) : ∃ rest,
    x.descriptor.toList = '(' :: rest ∧
      x.key.toList = (x.className.toList ++ '/' :: x.name.toList) ++ '(' :: rest := by
  obtain ⟨rest, hrest⟩ := List.head?_eq_some_iff.1 h.descriptor
  exact ⟨rest, hrest, by simp [key, nativeKey, hrest]⟩

/-- **The key of a method tells its class, its name and its descriptor**, if they are plain.  The first
    parenthesis is where the descriptor begins, and the last slash in front of it where the name does,
    however many slashes the name of the class has. -/
theorem key_inj (hx : x.IsPlain) (hy : y.IsPlain) (h : x.key = y.key) : x = y := by
  obtain ⟨r, hr, hxkey⟩ := hx.toList_key
  obtain ⟨s, hs, hykey⟩ := hy.toList_key
  have hkey : (x.className.toList ++ '/' :: x.name.toList) ++ '(' :: r =
      (y.className.toList ++ '/' :: y.name.toList) ++ '(' :: s := by
    rw [← hxkey, ← hykey, h]
  have unmarked {z : NativeName} (hz : z.IsPlain) :
      '(' ∉ z.className.toList ++ '/' :: z.name.toList := by
    simp [hz.className, hz.parenthesis]
  obtain ⟨hqualified, hrs⟩ := append_mark_inj (unmarked hx) (unmarked hy) hkey
  obtain ⟨hclass, hname⟩ := append_last_mark_inj hx.slash hy.slash hqualified
  have hdescriptor : x.descriptor.toList = y.descriptor.toList := by rw [hr, hs, hrs]
  exact NativeName.ext (String.toList_inj.1 hclass) (String.toList_inj.1 hname)
    (String.toList_inj.1 hdescriptor)

theorem key_inj_iff (hx : x.IsPlain) (hy : y.IsPlain) : x.key = y.key ↔ x = y :=
  ⟨key_inj hx hy, congrArg key⟩

end NativeName

/-- What stands in front of the first mark. -/
theorem takeWhile_append_mark {mark : Char} {as bs : List Char} (h : mark ∉ as) :
    (as ++ mark :: bs).takeWhile (· != mark) = as := by
  have front : ∀ c ∈ as, (c != mark) = true := by
    intro c hc
    have hne : c ≠ mark := fun e => h (e ▸ hc)
    simpa using hne
  rw [List.takeWhile_append_of_pos front]
  simp

/-- A key belongs to a class if it is that of a method of the class, with a name and a descriptor that
    can be told apart. -/
theorem keyBelongsTo_iff {className key : String} : keyBelongsTo className key = true ↔
    ∃ x : NativeName, x.className = className ∧ x.HasPlainMethod ∧ x.key = key := by
  unfold keyBelongsTo
  constructor
  · intro h
    split at h
    · next rest hrest =>
      have hkey := List.isPrefixOf?_eq_some_iff_append_eq.1 hrest
      simp only [Bool.and_eq_true, List.contains_iff_mem, Bool.not_eq_true',
        ← Bool.not_eq_true] at h
      obtain ⟨hmark, hslash⟩ := h
      -- the name of the method is what comes before the first parenthesis after the class
      obtain ⟨name, descriptor, rfl, hname⟩ := List.eq_append_cons_of_mem hmark
      rw [takeWhile_append_mark hname] at hslash
      refine ⟨⟨className, .ofList name, .ofList ('(' :: descriptor)⟩, rfl,
        ⟨by simpa using hslash, by simpa using hname, by simp⟩, String.toList_inj.1 ?_⟩
      rw [← hkey]
      simp [NativeName.key, nativeKey]
    · cases h
  · rintro ⟨x, rfl, hx, rfl⟩
    obtain ⟨descriptor, -, hkey⟩ := hx.toList_key
    have hrest : (x.className.toList ++ ['/']).isPrefixOf? x.key.toList =
        some (x.name.toList ++ '(' :: descriptor) :=
      List.isPrefixOf?_eq_some_iff_append_eq.2 (by rw [hkey]; simp)
    rw [hrest]
    simp only [takeWhile_append_mark hx.parenthesis]
    simp [hx.slash]

/-- The key of a plain name belongs to its own class only, not to one whose name it goes on from. -/
theorem keyBelongsTo_key {x : NativeName} {className : String} (hx : x.IsPlain)
    (hc : '(' ∉ className.toList) : keyBelongsTo className x.key = true ↔ x.className = className := by
  rw [keyBelongsTo_iff]
  constructor
  · rintro ⟨y, rfl, hy, hkey⟩
    rw [NativeName.key_inj hx ⟨hy, hc⟩ hkey.symm]
  · intro h
    exact ⟨x, h, hx.toHasPlainMethod, rfl⟩

/-! ## Registering -/

theorem Table.mem_keys_put {κ α : Type} [DecidableEq κ] {t : Table κ α} {k k' : κ} {v : α} :
    k' ∈ (t.put k v).keys ↔ k' ∈ t.keys ∨ k' = k := by
  unfold keys put
  rw [keys_putEntry]
  split
  · next hk => exact ⟨.inl, fun h => h.elim id fun e => e ▸ hk⟩
  · simp

/-- What is entered under a new key comes last. -/
theorem Table.putEntry_of_not_mem {κ α : Type} [DecidableEq κ] {k : κ} {v : α} :
    ∀ {es : List (κ × α)}, k ∉ es.map Prod.fst → putEntry k v es = es ++ [(k, v)]
  | [], _ => rfl
  | e :: es, h => by
    obtain ⟨hne, htail⟩ := List.ne_and_not_mem_of_not_mem_cons h
    rw [putEntry, if_neg fun he => hne he.symm, putEntry_of_not_mem htail, List.cons_append]

/-- A call that registers a native for a method. -/
structure Registration where
  method : NativeName
  native : Native
  deriving DecidableEq, Repr

/-- The native of the last call for one of the methods. -/
def latest? (calls : List Registration) (methods : NativeName → Bool) : Option Native :=
  (calls.findRev? fun r => methods r.method).map Registration.native

theorem latest?_cons (r : Registration) (calls : List Registration) (methods : NativeName → Bool) :
    latest? (r :: calls) methods =
      (latest? calls methods).or (if methods r.method then some r.native else none) := by
  unfold latest?
  rw [List.findRev?]
  cases calls.findRev? fun r => methods r.method with
  | some later => rfl
  | none => cases methods r.method <;> rfl

/-- Only the methods of the calls matter. -/
theorem latest?_congr {methods methods' : NativeName → Bool} : ∀ {calls : List Registration},
    (∀ r ∈ calls, methods r.method = methods' r.method) → latest? calls methods = latest? calls methods'
  | [], _ => rfl
  | r :: calls, h => by
    rw [latest?_cons, latest?_cons, h r List.mem_cons_self,
      latest?_congr fun r' hr' => h r' (List.mem_cons_of_mem _ hr')]

namespace Natives

variable {n : Natives} {calls : List Registration} {className key : String}

/-- The registry after a call. -/
def registerFor (n : Natives) (r : Registration) : Natives :=
  n.register r.method.className r.method.name r.method.descriptor r.native

/-- The registry after calls, one after another. -/
def registered (n : Natives) (calls : List Registration) : Natives := calls.foldl registerFor n

theorem lookup?_registerFor (n : Natives) (r : Registration) (x : NativeName) :
    (n.registerFor r).lookup? x.className x.name x.descriptor =
      if r.method.key = x.key then some r.native
      else n.lookup? x.className x.name x.descriptor :=
  Table.get?_put ..

/-- What is found under any name at all is the native of the last call for a method with the same
    key. -/
theorem lookup?_registered (x : NativeName) : ∀ (calls : List Registration) (n : Natives),
    (n.registered calls).lookup? x.className x.name x.descriptor =
      (latest? calls fun y => y.key = x.key).or (n.lookup? x.className x.name x.descriptor)
  | [], _ => rfl
  | r :: calls, n => by
    -- the other calls find a registry in which the first one has been made
    have ih := lookup?_registered x calls (n.registerFor r)
    rw [registered, List.foldl_cons, ← registered, ih, lookup?_registerFor, latest?_cons,
      Option.or_assoc]
    by_cases hkey : r.method.key = x.key <;> simp [hkey]

/-- Names that are not plain may have the key of another method. -/
example : (registered {} [⟨⟨"a/b", "c", "()V"⟩, .host "nop"⟩]).lookup? "a" "b/c" "()V" =
    some (.host "nop") := by
  decide +kernel

theorem mem_keys_registered : ∀ (calls : List Registration) (n : Natives),
    key ∈ (n.registered calls).table.keys ↔ key ∈ n.table.keys ∨ ∃ r ∈ calls, r.method.key = key
  | [], n => by simp [registered]
  | r :: calls, n => by
    have ih := mem_keys_registered calls (n.registerFor r)
    have step : key ∈ (n.registerFor r).table.keys ↔ key ∈ n.table.keys ∨ key = r.method.key :=
      Table.mem_keys_put
    rw [registered, List.foldl_cons, ← registered, ih, step]
    simp [or_assoc, eq_comm]

/-- However often a method is registered, its key is there once. -/
theorem nodup_keys_registered : ∀ (calls : List Registration) {n : Natives},
    n.table.keys.Nodup → (n.registered calls).table.keys.Nodup
  | [], _, h => h
  | _ :: calls, _, h => nodup_keys_registered calls (Table.nodup_keys_put h _ _)

/-- Calls for different methods, of which none is there yet, add an entry each. -/
theorem entries_registered : ∀ {calls : List Registration} {n : Natives},
    calls.Pairwise (fun r r' => r.method.key ≠ r'.method.key) →
    (∀ r ∈ calls, r.method.key ∉ n.table.keys) →
    (n.registered calls).table.entries =
      n.table.entries ++ calls.map fun r => (r.method.key, r.native)
  | [], n, _, _ => by simp [registered]
  | r :: calls, n, hd, hn => by
    obtain ⟨hr, hd⟩ := List.pairwise_cons.1 hd
    have fresh : ∀ r' ∈ calls, r'.method.key ∉ (n.registerFor r).table.keys := by
      intro r' hr' hkey
      rcases Table.mem_keys_put.1 hkey with hold | hnew
      · exact hn r' (List.mem_cons_of_mem _ hr') hold
      · exact hr r' hr' hnew.symm
    have first : (n.registerFor r).table.entries = n.table.entries ++ [(r.method.key, r.native)] :=
      Table.putEntry_of_not_mem (hn r List.mem_cons_self)
    rw [registered, List.foldl_cons, ← registered, entries_registered hd fresh, first]
    simp

/-! ## Listing -/

theorem mem_keysOf : key ∈ n.keysOf className ↔
    key ∈ n.table.keys ∧ keyBelongsTo className key = true := by
  unfold keysOf
  rw [List.mem_mergeSort, List.mem_filter]

/-- What keys are sorted by is their order. -/
theorem not_decide_lt {a b : String} : (!decide (b < a)) = true ↔ a ≤ b := by
  rw [Bool.not_eq_true', decide_eq_false_iff_not, String.not_lt]

/-- The keys of a class are listed in order, none of them twice. -/
theorem ascending_keysOf (h : n.table.keys.Nodup) : (n.keysOf className).Pairwise (· < ·) := by
  have sorted : (n.keysOf className).Pairwise fun a b => (!decide (b < a)) = true := by
    refine List.pairwise_mergeSort (fun a b c hab hbc => ?_) (fun a b => ?_) _
    · exact not_decide_lt.2 (String.le_trans (not_decide_lt.1 hab) (not_decide_lt.1 hbc))
    · rw [Bool.or_eq_true, not_decide_lt, not_decide_lt]
      exact String.le_total a b
  have nodup : (n.keysOf className).Nodup :=
    (List.mergeSort_perm _ _).nodup_iff.2 (h.filter _)
  refine (sorted.and nodup).imp ?_
  rintro a b ⟨hle, hne⟩
  exact Std.lt_of_le_of_ne (not_decide_lt.1 hle) hne

/-- An ascending list is told by what stands in it. -/
theorem eq_of_ascending {as bs : List String} (ha : as.Pairwise (· < ·)) (hb : bs.Pairwise (· < ·))
    (h : ∀ key, key ∈ as ↔ key ∈ bs) : as = bs := by
  have nodup {cs : List String} (hc : cs.Pairwise (· < ·)) : cs.Nodup := hc.imp Std.ne_of_lt
  have perm : as.Perm bs := (List.perm_ext_iff_of_nodup (nodup ha) (nodup hb)).2 h
  exact perm.eq_of_pairwise (fun a b _ _ hab hba => absurd hba (Std.not_gt_of_lt hab)) ha hb

end Natives

/-! ## The built-in classes -/

namespace Library

/-- The calls that register the natives of the built-in classes. -/
def registrations : List Registration :=
  classes.flatMap fun c => c.natives.map fun m =>
    ⟨⟨c.file.name, m.name, m.descriptor⟩, .builtin m.op⟩

theorem exists_of_mem_registrations {r : Registration} (h : r ∈ registrations) : ∃ c ∈ classes,
    ∃ m ∈ c.natives, r.method = ⟨c.file.name, m.name, m.descriptor⟩ := by
  obtain ⟨c, hc, hr⟩ := List.mem_flatMap.1 h
  obtain ⟨m, hm, rfl⟩ := List.mem_map.1 hr
  exact ⟨c, hc, m, hm, rfl⟩

/-- The built-in classes have plain names, and so have their methods. -/
theorem registrations_isPlain : ∀ r ∈ registrations, r.method.IsPlain := by
  have classNames : ∀ c ∈ classes, '(' ∉ c.file.name.toList := by decide +kernel
  have methods : ∀ c ∈ classes, ∀ m ∈ c.natives, '/' ∉ m.name.toList ∧ '(' ∉ m.name.toList ∧
      m.descriptor.toList.head? = some '(' := by decide +kernel
  intro r hr
  obtain ⟨c, hc, m, hm, hmethod⟩ := exists_of_mem_registrations hr
  obtain ⟨slash, parenthesis, descriptor⟩ := methods c hc m hm
  rw [hmethod]
  exact { slash, parenthesis, descriptor, className := classNames c hc }

/-- No native of the built-in classes is registered twice. -/
theorem registrations_pairwise :
    registrations.Pairwise fun r r' => r.method.key ≠ r'.method.key := by
  have classNames : classes.Pairwise fun c d => c.file.name ≠ d.file.name := by decide +kernel
  have methods : ∀ c ∈ classes, c.natives.Pairwise fun m m' =>
      (m.name, m.descriptor) ≠ (m'.name, m'.descriptor) := by decide +kernel
  have distinct : registrations.Pairwise fun r r' => r.method ≠ r'.method := by
    refine List.pairwise_flatMap.2 ⟨fun c hc => ?_, classNames.imp ?_⟩
    · refine List.pairwise_map.2 ((methods c hc).imp ?_)
      intro m m' hne heq
      simp_all
    · intro c d hne r hr r' hr' heq
      obtain ⟨m, -, rfl⟩ := List.mem_map.1 hr
      obtain ⟨m', -, rfl⟩ := List.mem_map.1 hr'
      exact hne (congrArg NativeName.className heq)
  refine distinct.imp_of_mem ?_
  intro r r' hr hr' hne hkey
  exact hne (NativeName.key_inj (registrations_isPlain r hr) (registrations_isPlain r' hr') hkey)

/-- **The registry that a machine begins with has come about by registering natives**, under plain names,
    so what is said of registered natives holds of it and of whatever is registered afterwards. -/
theorem natives_eq_registered : natives = .registered {} registrations := by
  have entry (c : BuiltinClass) : (c.natives.map fun m =>
      (⟨⟨c.file.name, m.name, m.descriptor⟩, .builtin m.op⟩ : Registration)).map
        (fun r => (r.method.key, r.native)) = c.nativeEntries := by
    rw [List.map_map]
    rfl
  have entries : (Natives.registered {} registrations).table.entries =
      classes.flatMap BuiltinClass.nativeEntries := by
    rw [Natives.entries_registered registrations_pairwise fun r _ => List.not_mem_nil]
    simp only [registrations, List.map_flatMap, entry]
    exact List.nil_append _
  unfold natives
  rw [← entries]

end Library

/-! ## A registry -/

namespace Natives

/-- Calls for methods of classes whose names begin alike, two of them for the same method. -/
def nested : List Registration :=
  [ ⟨⟨"demo/Host", "b", "()V"⟩, .host "nop"⟩, ⟨⟨"demo/Host", "a", "(I)V"⟩, .host "nop"⟩,
    ⟨⟨"demo/Host/Inner", "c", "()V"⟩, .host "nop"⟩, ⟨⟨"demo/HostX", "d", "()V"⟩, .host "nop"⟩,
    ⟨⟨"demo/Host", "b", "()V"⟩, .host "answer"⟩ ]

end Natives

end GreenVm
