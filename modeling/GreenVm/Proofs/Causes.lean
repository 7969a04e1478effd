/-
  The report of a throwable.

  * `Heap.Causes h r chain`: an object and its causes, each once.
  * `Heap.Reports h r links`: the links tell the class and the message of each of them.
  * `Heap.thrownChain_reports`: the report of an uncaught throwable does so.
-/
import GreenVm.CauseChain
import GreenVm.Proofs.Objects
import Mathlib.Data.List.Chain

namespace GreenVm.Heap

variable {h : Heap} {r c : Ref} {o : Object} {seen chain : List Ref}

/-- An object and its causes, each once: it ends where there is no further cause, or one that has
    come before. -/
structure Causes (h : Heap) (r : Ref) (chain : List Ref) : Prop where
  head : chain.head? = some r
  linked : chain.IsChain fun a b => h.cause? a = some b
  nodup : chain.Nodup
  last : ∀ a ∈ chain.getLast?, ∀ b, h.cause? a = some b → b ∈ chain ∨ h.get? b = none

/-- A link tells the class and the message of an object. -/
def Tells (h : Heap) (r : Ref) (link : ThrownLink) : Prop :=
  ∃ o, h.get? r = some o ∧ link = { className := o.type.name, message := h.messageOf? o }

/-- Links tell of an object and its causes. -/
def Reports (h : Heap) (r : Ref) (links : List ThrownLink) : Prop :=
  ∃ chain, h.Causes r chain ∧ List.Forall₂ h.Tells chain links

theorem cause?_eq (ho : h.get? r = some o) : h.cause? r = o.throwableField? causeKey := by
  rw [cause?, ho]
  rfl

/-- What is followed from an object on, past those that were seen. -/
structure Follows (h : Heap) (seen : List Ref) (r : Ref) (chain : List Ref) : Prop where
  head : ∀ a ∈ chain.head?, a = r
  linked : chain.IsChain fun a b => h.cause? a = some b
  nodup : chain.Nodup
  unseen : ∀ a ∈ chain, a ∉ seen
  present : ∀ a ∈ chain, ∃ o, h.get? a = some o
  last : ∀ a ∈ chain.getLast?, ∀ b, h.cause? a = some b →
    b ∈ chain ∨ b ∈ seen ∨ h.get? b = none
  nil : chain = [] → r ∈ seen ∨ h.get? r = none

namespace Follows

theorem stops (hn : r ∈ seen ∨ h.get? r = none) : h.Follows seen r [] where
  head := nofun
  linked := .nil
  nodup := .nil
  unseen := nofun
  present := nofun
  last := nofun
  nil _ := hn

/-- An object without a cause is all. -/
theorem single (ho : h.get? r = some o) (hr : r ∉ seen)
    (hc : o.throwableField? causeKey = none) : h.Follows seen r [r] where
  head a ha := (Option.some.inj ha).symm
  linked := .singleton r
  nodup := List.pairwise_singleton _ r
  unseen a ha := List.mem_singleton.1 ha ▸ hr
  present a ha := ⟨o, List.mem_singleton.1 ha ▸ ho⟩
  last a ha b hb := by
    obtain rfl : r = a := Option.some.inj ha
    rw [cause?_eq ho, hc] at hb
    cases hb
  nil := nofun

/-- An object comes before what is followed from its cause on. -/
theorem cons (hf : h.Follows (r :: seen) c chain) (ho : h.get? r = some o) (hr : r ∉ seen)
    (hc : o.throwableField? causeKey = some c) : h.Follows seen r (r :: chain) where
  head a ha := (Option.some.inj ha).symm
  linked := by
    refine List.isChain_cons.2 ⟨fun b hb => ?_, hf.linked⟩
    rw [hf.head b hb, cause?_eq ho, hc]
  nodup := List.nodup_cons.2 ⟨fun hm => hf.unseen r hm (List.mem_cons_self ..), hf.nodup⟩
  unseen := List.forall_mem_cons.2 ⟨hr, fun a ha hs => hf.unseen a ha (List.mem_cons_of_mem _ hs)⟩
  present := List.forall_mem_cons.2 ⟨⟨o, ho⟩, hf.present⟩
  last a ha b hb := by
    have earlier (hm : b ∈ r :: seen) : b ∈ r :: chain ∨ b ∈ seen ∨ h.get? b = none := by
      rcases List.mem_cons.1 hm with rfl | hm
      · exact .inl (List.mem_cons_self ..)
      · exact .inr (.inl hm)
    cases chain with
    | nil =>
      obtain rfl : r = a := Option.some.inj ha
      obtain rfl : c = b := by
        rw [cause?_eq ho, hc] at hb
        exact Option.some.inj hb
      exact (hf.nil rfl).elim earlier fun hn => .inr (.inr hn)
    | cons x xs =>
      rw [List.getLast?_cons_cons] at ha
      rcases hf.last a ha b hb with hm | hm | hn
      · exact .inl (List.mem_cons_of_mem _ hm)
      · exact earlier hm
      · exact .inr (.inr hn)
  nil := nofun

end Follows

theorem chainFrom_follows (h : Heap) (seen : List Ref) (r : Ref) :
    h.Follows seen r (h.chainFrom seen r) := by
  fun_induction chainFrom h seen r with
  | case1 seen r hn => exact .stops (.inr hn)
  | case2 seen r o ho hr => exact .stops (.inl hr)
  | case3 seen r o ho hr hc => exact .single ho hr hc
  | case4 seen r o ho hr c hc ih => exact ih.cons ho hr hc

theorem causeChain_causes (ho : h.get? r = some o) : h.Causes r (h.causeChain r) := by
  have hf := chainFrom_follows h [] r
  refine ⟨?_, hf.linked, hf.nodup, fun a ha b hb => ?_⟩
  · cases hc : h.causeChain r with
    | nil =>
      rcases hf.nil hc with hm | hm
      · cases hm
      · cases ho.symm.trans hm
    | cons a chain => exact congrArg some (hf.head a (by rw [← causeChain, hc]; rfl))
  · rcases hf.last a ha b hb with hm | hm | hm
    · exact .inl hm
    · cases hm
    · exact .inr hm

/-- Reporting a throwable tells of it and its causes. -/
theorem thrownChain_reports (ho : h.get? r = some o) : h.Reports r (h.thrownChain r) := by
  refine ⟨h.causeChain r, causeChain_causes ho, ?_⟩
  have present : ∀ a ∈ h.causeChain r, ∃ o, h.get? a = some o := (chainFrom_follows h [] r).present
  rw [thrownChain]
  generalize h.causeChain r = chain at present ⊢
  induction chain with
  | nil => exact .nil
  | cons a chain ih =>
    obtain ⟨⟨o, ho⟩, rest⟩ := List.forall_mem_cons.1 present
    have hlink : h.thrownLink? a = some { className := o.type.name, message := h.messageOf? o } := by
      rw [thrownLink?, ho]
      rfl
    rw [List.filterMap_cons_some hlink]
    exact .cons ⟨o, ho, rfl⟩ (ih rest)

end GreenVm.Heap
