/-
  Which report a throwable has.

  * `Heap.CausedBy h a b`: the object `b` is the cause of the throwable `a`.
  * `Heap.Followed h r chain`: an object and its causes, each once, as far as there are new ones.
  * `Heap.thrownChain_eq_iff`: the report of an object tells of these objects and of no others,
    however the causes run.
  * `Exec.setCause_causedBy`: `initCause` gives a throwable a cause and leaves the others alone.
-/
import GreenVm.Proofs.Causes
import GreenVm.Proofs.Materializing
import GreenVm.Proofs.Runs
import Mathlib.Data.List.Perm.Subperm

namespace GreenVm

/-- A field of a throwable refers to an object. -/
theorem Object.throwableField?_eq_some_iff {o : Object} {key : String} {c : Ref} :
    o.throwableField? key = some c ↔
      o.type.isBelow ClassName.throwable = true ∧ o.getField key = .ok (.ofRef c) := by
  unfold throwableField?
  split
  · next hb =>
    split
    · next r hr => simp [hb, hr, Value.ofRef]
    · next hr => exact ⟨nofun, fun h => (hr _ h.2).elim⟩
  · next hb => exact ⟨nofun, fun h => (hb h.1).elim⟩

namespace Heap

variable {h : Heap} {r a b c : Ref} {o : Object} {seen chain chain' xs ys : List Ref}
  {link link' : ThrownLink} {links links' : List ThrownLink} {text : String}

/-- An object is a throwable, and another object is its cause. -/
def CausedBy (h : Heap) (a b : Ref) : Prop :=
  ∃ o, h.get? a = some o ∧ o.type.isBelow ClassName.throwable = true ∧
    o.getField causeKey = .ok (.ofRef b) ∧ ∃ o', h.get? b = some o'

/-- An object and its causes, each once.  It ends where an object has no cause, or one that is there
    already. -/
structure Followed (h : Heap) (r : Ref) (chain : List Ref) : Prop where
  head : chain.head? = some r
  linked : chain.IsChain h.CausedBy
  nodup : chain.Nodup
  last : ∀ a ∈ chain.getLast?, ∀ b, h.CausedBy a b → b ∈ chain

/-- A throwable has a message: the text of the string in its message field. -/
def Says (h : Heap) (o : Object) (text : String) : Prop :=
  o.type.isBelow ClassName.throwable = true ∧
    ∃ s string, o.getField detailMessageKey = .ok (.ofRef s) ∧ h.get? s = some string ∧
      string.payload.text = some text

/-- A link has the class of an object, and its message if it has one. -/
def DescribedBy (h : Heap) (r : Ref) (link : ThrownLink) : Prop :=
  ∃ o, h.get? r = some o ∧ link.className = o.type.name ∧
    ∀ text, link.message = some text ↔ h.Says o text

/-! ## Causes and messages -/

theorem causedBy_iff : h.CausedBy a b ↔ h.cause? a = some b ∧ ∃ o, h.get? b = some o := by
  unfold CausedBy cause?
  cases h.get? a <;> simp [Object.throwableField?_eq_some_iff, and_assoc]

/-- A throwable has one cause at most. -/
theorem CausedBy.unique (hb : h.CausedBy a b) (hc : h.CausedBy a c) : b = c :=
  Option.some.inj ((causedBy_iff.1 hb).1.symm.trans (causedBy_iff.1 hc).1)

theorem says_iff : h.Says o text ↔ h.messageOf? o = some text := by
  unfold Says messageOf?
  simp only [Option.bind_eq_some_iff, Object.throwableField?_eq_some_iff, and_assoc, exists_and_left]

theorem describedBy_iff : h.DescribedBy r link ↔ h.Tells r link := by
  unfold DescribedBy Tells
  refine exists_congr fun o => and_congr_right fun _ => ?_
  obtain ⟨name, message⟩ := link
  simp only [says_iff, ThrownLink.mk.injEq, ← Option.ext_iff]

/-! ## What is followed -/

/-- The objects of a chain that links tell of are there. -/
theorem present_of_tells (ht : List.Forall₂ h.Tells chain links) : ∀ a ∈ chain, ∃ o, h.get? a = some o := by
  intro a ha
  induction ht with
  | nil => cases ha
  | cons hl _ ih =>
    rcases List.mem_cons.1 ha with rfl | ha
    · obtain ⟨o, ho, -⟩ := hl
      exact ⟨o, ho⟩
    · exact ih ha

/-- What a report tells of is an object and its causes. -/
theorem Causes.followed (hc : h.Causes r chain) (hp : ∀ a ∈ chain, ∃ o, h.get? a = some o) :
    h.Followed r chain where
  head := hc.head
  linked := hc.linked.imp_of_mem_imp fun a b _ hb hab => causedBy_iff.2 ⟨hab, hp b hb⟩
  nodup := hc.nodup
  last a ha b hb := by
    obtain ⟨hb, o, ho⟩ := causedBy_iff.1 hb
    rcases hc.last a ha b hb with hm | hn
    · exact hm
    · cases ho.symm.trans hn

/-- A cause that comes next is none of the objects before. -/
theorem notMem_of_nodup_next (hn : (seen ++ r :: b :: xs).Nodup) : b ∉ seen ++ [r] := by
  rw [List.append_cons] at hn
  exact fun hm => (List.nodup_append.1 hn).2.2 b hm b (List.mem_cons_self ..) rfl

/-- After the same objects, the same causes follow: where one chain ends, the other does not go on,
    as it would come to an object that it has already. -/
theorem linked_unique (seen : List Ref) (hl : (r :: xs).IsChain h.CausedBy) (hl' : (r :: ys).IsChain h.CausedBy)
    (hn : (seen ++ r :: xs).Nodup) (hn' : (seen ++ r :: ys).Nodup)
    (hlast : ∀ a ∈ (r :: xs).getLast?, ∀ b, h.CausedBy a b → b ∈ seen ++ r :: xs)
    (hlast' : ∀ a ∈ (r :: ys).getLast?, ∀ b, h.CausedBy a b → b ∈ seen ++ r :: ys) : xs = ys := by
  induction xs generalizing r ys seen with
  | nil =>
    cases ys with
    | nil => rfl
    | cons b ys =>
      have hb : h.CausedBy r b := (List.isChain_cons_cons.1 hl').1
      exact (notMem_of_nodup_next hn' (hlast r rfl b hb)).elim
  | cons b xs ih =>
    obtain ⟨hb, hl⟩ := List.isChain_cons_cons.1 hl
    cases ys with
    | nil => exact (notMem_of_nodup_next hn (hlast' r rfl b hb)).elim
    | cons c ys =>
      obtain ⟨hc, hl'⟩ := List.isChain_cons_cons.1 hl'
      obtain rfl := hb.unique hc
      rw [List.getLast?_cons_cons] at hlast hlast'
      rw [List.append_cons] at hn hn' hlast hlast'
      rw [ih (seen ++ [r]) hl hl' hn hn' hlast hlast']

/-- There is one chain of causes. -/
theorem Followed.unique (hc : h.Followed r chain) (hc' : h.Followed r chain') : chain = chain' := by
  obtain ⟨xs, rfl⟩ := List.head?_eq_some_iff.1 hc.head
  obtain ⟨ys, rfl⟩ := List.head?_eq_some_iff.1 hc'.head
  rw [linked_unique [] hc.linked hc'.linked hc.nodup hc'.nodup hc.last hc'.last]

/-- There is one way to describe an object in a link. -/
theorem Tells.unique (ht : h.Tells r link) (ht' : h.Tells r link') : link = link' := by
  obtain ⟨o, ho, rfl⟩ := ht
  obtain ⟨o', ho', rfl⟩ := ht'
  cases ho.symm.trans ho'
  rfl

theorem forall₂_tells_unique (ht : List.Forall₂ h.Tells chain links)
    (ht' : List.Forall₂ h.Tells chain links') : links = links' := by
  induction ht generalizing links' with
  | nil => cases ht'; rfl
  | cons hl _ ih =>
    cases ht' with
    | cons hl' ht' => rw [hl.unique hl', ih ht']

/-- A report has no more links than there are objects. -/
theorem length_thrownChain_le (ho : h.get? r = some o) :
    (h.thrownChain r).length ≤ h.objects.size := by
  obtain ⟨chain, hc, ht⟩ := thrownChain_reports ho
  have present := present_of_tells ht
  have indices : (chain.map Ref.index) ⊆ List.range h.objects.size := by
    intro i hi
    obtain ⟨a, ha, rfl⟩ := List.mem_map.1 hi
    obtain ⟨o, ho⟩ := present a ha
    exact List.mem_range.2 (lt_size_of_get? ho)
  have distinct : (chain.map Ref.index).Nodup :=
    hc.nodup.map fun a b e => by cases a; cases b; cases e; rfl
  calc (h.thrownChain r).length = (chain.map Ref.index).length := by rw [← ht.length_eq, List.length_map]
    _ ≤ (List.range h.objects.size).length := (List.Nodup.subperm distinct indices).length_le
    _ = h.objects.size := List.length_range

end Heap

/-! ## Making causes -/

namespace Object

variable {o o' : Object} {key : String} {v : Value}

/-- A field that was set reads as it was set. -/
theorem getField_putField (h : o.putField key v = .ok o') :
    o'.type = o.type ∧ o'.getField key = .ok v := by
  obtain ⟨slot, hs, hp⟩ := except_bind_eq_ok.1 h
  have hp := liftM_eq_ok.1 hp
  unfold putSlot at hp
  split at hp
  · cases hp
  · split at hp
    · next slots _ hlt =>
      cases hp
      refine ⟨rfl, except_bind_eq_ok.2 ⟨slot, hs, liftM_eq_ok.2 ?_⟩⟩
      simp [getSlot, hlt]
    · cases hp

end Object

namespace Exec

variable {m m' : Machine} {call : NativeCall} {r c : Ref} {o : Object} {v : Option Value}

/-- Giving a throwable a cause: it is its cause from then on, and those of the others stay. -/
theorem setCause_causedBy (hr : call.receiver = some r) (ha : call.args[0]? = some (.ofRef c))
    (ho : m.heap.get? r = some o) (hb : o.type.isBelow ClassName.throwable = true)
    (hc : ∃ o, m.heap.get? c = some o)
    (h : outcome (ThrowableOp.setCause.run call) m = (.ok v, m')) :
    v = some (.ofRef r) ∧ m'.heap.CausedBy r c ∧
      ∀ a ≠ r, ∀ b, m'.heap.CausedBy a b ↔ m.heap.CausedBy a b := by
  have hthis : outcome (liftM call.this : Exec Ref) m = (.ok r, m) := by
    rw [NativeCall.this, hr]
    exact outcome_liftExcept _ _
  have harg : outcome (liftM (call.arg 0) : Exec Value) m = (.ok (.ofRef c), m) := by
    rw [NativeCall.arg, ha]
    exact outcome_liftExcept _ _
  unfold ThrowableOp.run at h
  rw [outcome_bind_ok hthis, outcome_bind_ok harg] at h
  obtain ⟨⟨⟩, m₁, hput, h⟩ := outcome_bind_eq_ok h
  cases (outcome_pure _ _).symm.trans h
  rw [putField, outcome_bind_ok (outcome_object ho)] at hput
  obtain ⟨o', m₂, hlift, hput⟩ := outcome_bind_eq_ok hput
  obtain ⟨hset, rfl⟩ := Prod.mk.inj ((outcome_liftExcept _ _).symm.trans hlift)
  obtain rfl : { m with heap := m.heap.update r fun _ => o' } = m' :=
    congrArg Prod.snd ((outcome_setObject r o' m).symm.trans hput)
  obtain ⟨htype, hcause⟩ := Object.getField_putField hset
  obtain ⟨k, hk⟩ := hc
  have here : (m.heap.update r fun _ => o').get? r = some o' := Heap.get?_update_self ho
  -- setting a field takes no object away, and adds none
  have there (b : Ref) : (∃ o, (m.heap.update r fun _ => o').get? b = some o) ↔
      ∃ o, m.heap.get? b = some o := by
    rw [Heap.get?_update]
    split
    · simp
    · rfl
  refine ⟨rfl, ⟨o', here, htype ▸ hb, hcause, (there c).2 ⟨k, hk⟩⟩, fun a ha b => ?_⟩
  simp only [Heap.CausedBy, Heap.get?_update_of_ne (Ne.symm ha), there]

end Exec

/-! ## The report of a throwable -/

namespace Heap

variable {h : Heap} {r : Ref} {o : Object}

/-- **A report tells of an object and its causes**, each once and as far as there are new ones:
    however the causes run, in a circle for instance, it ends, and it is the one list of links that
    does so. -/
theorem thrownChain_eq_iff (ho : h.get? r = some o) :
    (h.thrownChain r).length ≤ h.objects.size ∧
      ∀ links, h.thrownChain r = links ↔
        ∃ chain, h.Followed r chain ∧ List.Forall₂ h.DescribedBy chain links := by
  refine ⟨length_thrownChain_le ho, fun links => ?_⟩
  have told : h.DescribedBy = h.Tells := funext₂ fun _ _ => propext describedBy_iff
  obtain ⟨chain, hc, ht⟩ := thrownChain_reports ho
  have followed : h.Followed r chain := hc.followed (present_of_tells ht)
  rw [told]
  constructor
  · rintro rfl
    exact ⟨chain, followed, ht⟩
  · rintro ⟨chain', followed', ht'⟩
    obtain rfl := followed.unique followed'
    exact forall₂_tells_unique ht ht'

end Heap

/-! ## A program -/

namespace Vm

/-- A virtual machine with a main method that makes an error and an exception the cause of each
    other. -/
def ofBlamer : Vm :=
  .boot {} (.ofList [("A", { ClassFile.ofClass "A" with
    pool := [.classRef ClassName.error, .classRef "java/lang/RuntimeException",
      .method ⟨ClassName.throwable, "initCause", "(Ljava/lang/Throwable;)Ljava/lang/Throwable;"⟩]
    methods := [
      { flags := .ofList [.staticMember], name := "main", descriptor := "()V"
        code := some (.ofList 2 2 [.new 1, .store .reference 0, .new 2, .store .reference 1,
          .load .reference 0, .load .reference 1, .invokeVirtual 3, .pop 1,
          .load .reference 1, .load .reference 0, .invokeVirtual 3, .pop 1,
          .load .reference 0, .throwTop]) }] })]) 0

/-- What runs the main method. -/
def blaming : List Action := .spawn "A" "main" "()V" [] :: List.replicate 12 .turn

/-- The circle is reported once around. -/
theorem thrownChain_eq_iff_circle :
    ∃ o, (ofBlamer.after .idle blaming).machine.heap.get? ⟨2⟩ = some o ∧
      (ofBlamer.after .idle blaming).machine.heap.CausedBy ⟨2⟩ ⟨3⟩ ∧
      (ofBlamer.after .idle blaming).machine.heap.CausedBy ⟨3⟩ ⟨2⟩ ∧
      (ofBlamer.after .idle blaming).machine.heap.thrownChain ⟨2⟩ =
        [⟨ClassName.error, none⟩, ⟨"java/lang/RuntimeException", none⟩] := by
  generalize hvm : ofBlamer.after .idle blaming = vm
  have h : vm.machine.heap.cause? ⟨2⟩ = some ⟨3⟩ ∧ vm.machine.heap.cause? ⟨3⟩ = some ⟨2⟩ ∧
      (vm.machine.heap.get? ⟨2⟩).any (fun o =>
        o.type.name = ClassName.error ∧ vm.machine.heap.messageOf? o = none) ∧
      (vm.machine.heap.get? ⟨3⟩).any (fun o =>
        o.type.name = "java/lang/RuntimeException" ∧ vm.machine.heap.messageOf? o = none) := by
    rw [← hvm]
    decide +kernel
  obtain ⟨hc, hc', hany, hany'⟩ := h
  obtain ⟨o, ho, hany⟩ := (Option.any_eq_true _ _).1 hany
  obtain ⟨o', ho', hany'⟩ := (Option.any_eq_true _ _).1 hany'
  obtain ⟨hname, hmessage⟩ := of_decide_eq_true hany
  obtain ⟨hname', hmessage'⟩ := of_decide_eq_true hany'
  have hlink : vm.machine.heap.CausedBy ⟨2⟩ ⟨3⟩ := Heap.causedBy_iff.2 ⟨hc, o', ho'⟩
  have hback : vm.machine.heap.CausedBy ⟨3⟩ ⟨2⟩ := Heap.causedBy_iff.2 ⟨hc', o, ho⟩
  refine ⟨o, ho, hlink, hback, ((Heap.thrownChain_eq_iff ho).2 _).2 ⟨[⟨2⟩, ⟨3⟩], ?_, ?_⟩⟩
  · refine ⟨rfl, .cons_cons hlink (.singleton _), by decide, fun a ha b hb => ?_⟩
    obtain rfl : ⟨3⟩ = a := Option.some.inj ha
    obtain rfl := hback.unique hb
    exact List.mem_cons_self ..
  · refine .cons (Heap.describedBy_iff.2 ⟨o, ho, ?_⟩)
      (.cons (Heap.describedBy_iff.2 ⟨o', ho', ?_⟩) .nil)
    · rw [hname, hmessage]
    · rw [hname', hmessage']

end Vm

end GreenVm
