/-
  Linked code and the code it is linked from.

  * `Instruction.Retargets R i j`: the instructions are the same but for their branch operands, and
    these stand in relation `R`, one by one.
  * `CodeDecl.Linkable`: the code whose offsets ascend, whose branches go to instructions, and whose
    handlers cover instructions and are some.
  * `Code.Simulates`: every index in the linked code is that of the instruction which the offset in
    its place is the offset of, and every handler covers the instructions that it was declared for.
  * `Code.link_simulates`: linking accepts just the code that is linkable, and simulates it.
-/
import GreenVm.Proofs.Work
import Mathlib.Data.List.Forall2

namespace GreenVm

/-! ## Lists of results -/

section Results

variable {ε α β : Type} {f : α → Except ε β}

theorem mapM_eq_ok : ∀ {as : List α} {bs : List β},
    as.mapM f = .ok bs ↔ List.Forall₂ (fun a b => f a = .ok b) as bs
  | [], bs => by
    rw [List.mapM_nil, List.forall₂_nil_left_iff]
    exact ⟨fun h => (Except.ok.inj h).symm, fun h => congrArg Except.ok h.symm⟩
  | a :: as, bs => by
    rw [List.mapM_cons, except_bind_eq_ok]
    constructor
    · rintro ⟨b, hb, h⟩
      obtain ⟨bs', hbs, h⟩ := except_bind_eq_ok.1 h
      cases h
      exact .cons hb (mapM_eq_ok.1 hbs)
    · intro h
      cases h with
      | cons hb hbs => exact ⟨_, hb, except_bind_eq_ok.2 ⟨_, mapM_eq_ok.2 hbs, rfl⟩⟩

/-- Members of a list have partners just if the list has a list of partners. -/
theorem exists_forall₂ {R : α → β → Prop} : ∀ {as : List α},
    (∃ bs, List.Forall₂ R as bs) ↔ ∀ a ∈ as, ∃ b, R a b
  | [] => ⟨by simp, fun _ => ⟨[], .nil⟩⟩
  | a :: as => by
    rw [List.forall_mem_cons, ← exists_forall₂]
    constructor
    · rintro ⟨_, _ | ⟨hb, hbs⟩⟩
      exact ⟨⟨_, hb⟩, _, hbs⟩
    · rintro ⟨⟨b, hb⟩, bs, hbs⟩
      exact ⟨b :: bs, .cons hb hbs⟩

theorem forall₂_mem_right {R : α → β → Prop} {b : β} : ∀ {as : List α} {bs : List β},
    List.Forall₂ R as bs → b ∈ bs → ∃ a ∈ as, R a b
  | _, _, .cons (a := a) hab habs, hb => by
    rcases List.mem_cons.1 hb with rfl | hb
    · exact ⟨a, List.mem_cons_self, hab⟩
    · obtain ⟨a', ha', hab'⟩ := forall₂_mem_right habs hb
      exact ⟨a', List.mem_cons_of_mem _ ha', hab'⟩

/-- There are results for a list just if there is one for each member. -/
theorem exists_mapM_eq_ok {as : List α} :
    (∃ bs, as.mapM f = .ok bs) ↔ ∀ a ∈ as, ∃ b, f a = .ok b := by
  simp only [mapM_eq_ok, exists_forall₂]

end Results

/-! ## Branch operands -/

namespace Instruction

/-- The same instruction, with other branch operands that stand in a relation to the old ones. -/
inductive Retargets (R : Nat → Nat → Prop) : Instruction → Instruction → Prop
  | branchZero {c : Condition} {t k : Nat} (h : R t k) :
    Retargets R (.branchZero c t) (.branchZero c k)
  | branchInts {c : Condition} {t k : Nat} (h : R t k) :
    Retargets R (.branchInts c t) (.branchInts c k)
  | branchSame {same : Bool} {t k : Nat} (h : R t k) :
    Retargets R (.branchSame same t) (.branchSame same k)
  | branchNull {null : Bool} {t k : Nat} (h : R t k) :
    Retargets R (.branchNull null t) (.branchNull null k)
  | goto {t k : Nat} (h : R t k) : Retargets R (.goto t) (.goto k)
  | jumpSubroutine {t k : Nat} (h : R t k) : Retargets R (.jumpSubroutine t) (.jumpSubroutine k)
  | tableSwitch {low : Int32} {d k : Nat} {ts ks : List Nat} (hd : R d k)
    (h : List.Forall₂ R ts ks) : Retargets R (.tableSwitch d low ts) (.tableSwitch k low ks)
  | lookupSwitch {d k : Nat} {ps qs : List (Int32 × Nat)} (hd : R d k)
    (h : List.Forall₂ (fun p q => p.1 = q.1 ∧ R p.2 q.2) ps qs) :
    Retargets R (.lookupSwitch d ps) (.lookupSwitch k qs)
  | plain {i : Instruction} (h : i.targets = []) : Retargets R i i

variable {ε : Type} {R S : Nat → Nat → Prop} {i j : Instruction}

theorem Retargets.imp (hRS : ∀ t k, R t k → S t k) (h : Retargets R i j) : Retargets S i j := by
  cases h with
  | branchZero h => exact .branchZero (hRS _ _ h)
  | branchInts h => exact .branchInts (hRS _ _ h)
  | branchSame h => exact .branchSame (hRS _ _ h)
  | branchNull h => exact .branchNull (hRS _ _ h)
  | goto h => exact .goto (hRS _ _ h)
  | jumpSubroutine h => exact .jumpSubroutine (hRS _ _ h)
  | tableSwitch hd h => exact .tableSwitch (hRS _ _ hd) (h.imp hRS)
  | lookupSwitch hd h => exact .lookupSwitch (hRS _ _ hd) (h.imp fun _ _ hp => ⟨hp.1, hRS _ _ hp.2⟩)
  | plain h => exact .plain h

/-- Operands correspond in the order in which they are written. -/
theorem Retargets.targets (h : Retargets R i j) : List.Forall₂ R i.targets j.targets := by
  cases h with
  | branchZero h | branchInts h | branchSame h | branchNull h | goto h | jumpSubroutine h =>
    exact .cons h .nil
  | tableSwitch hd h => exact .cons hd h
  | lookupSwitch hd h =>
    refine .cons hd ?_
    rw [List.forall₂_map_left_iff, List.forall₂_map_right_iff]
    exact h.imp fun _ _ hp => hp.2
  | plain h =>
    rw [h]
    exact .nil

/-- An instruction without branch operands is passed through as it is. -/
theorem mapTargets_of_plain {f : Nat → Except ε Nat} (h : i.targets = []) :
    i.mapTargets f = .ok i := by
  cases i with
  | branchZero | branchInts | branchSame | branchNull | goto | jumpSubroutine | tableSwitch
  | lookupSwitch => cases h
  | _ => rfl

/-- What comes of passing the operands through a function that may fail. -/
theorem mapTargets_eq_ok {f : Nat → Except ε Nat} :
    i.mapTargets f = .ok j ↔ Retargets (fun t k => f t = .ok k) i j := by
  constructor
  · intro h
    by_cases hp : i.targets = []
    · rw [mapTargets_of_plain hp] at h
      cases h
      exact .plain hp
    cases i with
    | branchZero c t | branchInts c t | branchSame c t | branchNull c t | goto t | jumpSubroutine t =>
      obtain ⟨k, hk, h⟩ := except_bind_eq_ok.1 h
      cases h
      constructor
      exact hk
    | tableSwitch d low ts =>
      obtain ⟨k, hk, h⟩ := except_bind_eq_ok.1 h
      obtain ⟨ks, hks, h⟩ := except_bind_eq_ok.1 h
      cases h
      exact .tableSwitch hk (mapM_eq_ok.1 hks)
    | lookupSwitch d ps =>
      obtain ⟨k, hk, h⟩ := except_bind_eq_ok.1 h
      obtain ⟨qs, hqs, h⟩ := except_bind_eq_ok.1 h
      cases h
      refine .lookupSwitch hk ((mapM_eq_ok.1 hqs).imp fun p q hp => ?_)
      obtain ⟨k, hk, hq⟩ := except_bind_eq_ok.1 hp
      cases hq
      exact ⟨rfl, hk⟩
    | _ => exact absurd rfl hp
  · intro h
    cases h with
    | branchZero h | branchInts h | branchSame h | branchNull h | goto h | jumpSubroutine h =>
      exact except_bind_eq_ok.2 ⟨_, h, rfl⟩
    | tableSwitch hd h =>
      exact except_bind_eq_ok.2 ⟨_, hd, except_bind_eq_ok.2 ⟨_, mapM_eq_ok.2 h, rfl⟩⟩
    | lookupSwitch hd h =>
      refine except_bind_eq_ok.2 ⟨_, hd, except_bind_eq_ok.2 ⟨_, mapM_eq_ok.2 (h.imp ?_), rfl⟩⟩
      rintro ⟨key, t⟩ ⟨key', k⟩ ⟨rfl, hk⟩
      exact except_bind_eq_ok.2 ⟨_, hk, rfl⟩
    | plain h => exact mapTargets_of_plain h

/-- There is such an instruction just if there is an operand for each. -/
theorem exists_retargets : (∃ j, Retargets R i j) ↔ ∀ t ∈ i.targets, ∃ k, R t k := by
  constructor
  · rintro ⟨j, h⟩
    exact exists_forall₂.1 ⟨_, h.targets⟩
  · intro h
    by_cases hp : i.targets = []
    · exact ⟨i, .plain hp⟩
    cases i with
    | branchZero c t => exact (h t (List.mem_singleton_self t)).imp' _ fun _ => .branchZero
    | branchInts c t => exact (h t (List.mem_singleton_self t)).imp' _ fun _ => .branchInts
    | branchSame same t => exact (h t (List.mem_singleton_self t)).imp' _ fun _ => .branchSame
    | branchNull null t => exact (h t (List.mem_singleton_self t)).imp' _ fun _ => .branchNull
    | goto t => exact (h t (List.mem_singleton_self t)).imp' _ fun _ => .goto
    | jumpSubroutine t => exact (h t (List.mem_singleton_self t)).imp' _ fun _ => .jumpSubroutine
    | tableSwitch d low ts =>
      obtain ⟨⟨k, hk⟩, h⟩ := List.forall_mem_cons.1 h
      obtain ⟨ks, hks⟩ := exists_forall₂.2 h
      exact ⟨_, .tableSwitch hk hks⟩
    | lookupSwitch d ps =>
      obtain ⟨⟨k, hk⟩, h⟩ := List.forall_mem_cons.1 h
      have pairs : ∀ p ∈ ps, ∃ q : Int32 × Nat, p.1 = q.1 ∧ R p.2 q.2 := by
        intro p hp
        obtain ⟨k, hk⟩ := h p.2 (List.mem_map_of_mem hp)
        exact ⟨(p.1, k), rfl, hk⟩
      obtain ⟨qs, hqs⟩ := exists_forall₂.2 pairs
      exact ⟨_, .lookupSwitch hk hqs⟩
    | _ => exact absurd rfl hp

end Instruction

/-! ## Offsets -/

/-- The offsets of the instructions. -/
def CodeDecl.offsets (code : CodeDecl) : List Nat := code.instructions.map Prod.fst

namespace Code

variable {offsets : List Nat} {method : String}

theorem ascending_iff : ∀ {offsets : List Nat}, ascending offsets = true ↔ offsets.Pairwise (· < ·)
  | [] => by simp [ascending]
  | [_] => by simp [ascending]
  | a :: b :: offsets => by
    have ih : ascending (b :: offsets) = true ↔ (b :: offsets).Pairwise (· < ·) := ascending_iff
    rw [← List.isChain_iff_pairwise] at ih ⊢
    rw [List.isChain_cons_cons, ← ih]
    simp [ascending]

/-- In ascending offsets, the instruction at an offset is the one that has it. -/
theorem indexOf?_eq_some (h : offsets.Pairwise (· < ·)) {offset index : Nat} :
    indexOf? offsets offset = some index ↔ offsets[index]? = some offset := by
  rw [indexOf?, List.idxOf?_eq_some_iff, List.getElem?_eq_some_iff]
  constructor
  · rintro ⟨hi, he, -⟩
    exact ⟨hi, he⟩
  · rintro ⟨hi, he⟩
    refine ⟨hi, he, ?_⟩
    intro j hj hj'
    have := List.pairwise_iff_getElem.1 h j index (Nat.lt_trans hj hi) hi hj
    omega

theorem exists_indexOf? {offset : Nat} : (∃ index, indexOf? offsets offset = some index) ↔
    offset ∈ offsets := by
  rw [← Option.isSome_iff_exists, indexOf?, Option.isSome_iff_ne_none, ne_eq, List.idxOf?_eq_none_iff,
    not_not]

/-- Offsets are in the order of their instructions. -/
theorem le_iff_of_getElem? (h : offsets.Pairwise (· < ·)) {i j x y : Nat}
    (hi : offsets[i]? = some x) (hj : offsets[j]? = some y) : i ≤ j ↔ x ≤ y := by
  obtain ⟨li, rfl⟩ := List.getElem?_eq_some_iff.1 hi
  obtain ⟨lj, rfl⟩ := List.getElem?_eq_some_iff.1 hj
  rw [List.pairwise_iff_getElem] at h
  rcases Nat.lt_trichotomy i j with hij | rfl | hij
  · have := h i j li lj hij
    omega
  · simp
  · have := h j i lj li hij
    omega

/-! ## Instructions -/

/-- A branch operand is linked to the index of the instruction at that offset. -/
theorem linkTarget_eq_ok (h : offsets.Pairwise (· < ·)) {t k : Nat} :
    (match indexOf? offsets t with
      | some index => .ok index
      | none => .error (.invalidBranchTarget method t) : Except EngineError Nat) = .ok k ↔
        offsets[k]? = some t := by
  rw [← indexOf?_eq_some h]
  cases indexOf? offsets t <;> simp

theorem linkInstruction_eq_ok (h : offsets.Pairwise (· < ·)) {i j : Instruction} :
    linkInstruction method offsets i = .ok j ↔
      Instruction.Retargets (fun t k => offsets[k]? = some t) i j := by
  rw [linkInstruction, Instruction.mapTargets_eq_ok]
  exact ⟨.imp fun _ _ => (linkTarget_eq_ok h).1, .imp fun _ _ => (linkTarget_eq_ok h).2⟩

end Code

/-! ## Handlers -/

/-- A handler that code with some offsets can have: it covers the instructions in a range that starts
    at one of them, before its end, and ends at one of them or behind them all. -/
structure HandlerDecl.Fits (offsets : List Nat) (d : HandlerDecl) : Prop where
  start : d.startOffset ∈ offsets
  stop : d.endOffset ∈ offsets ∨ ∀ o ∈ offsets, o < d.endOffset
  handler : d.handlerOffset ∈ offsets
  nonempty : d.startOffset < d.endOffset

/-- A linked handler does what it was declared to do. -/
structure Handler.Simulates (offsets : List Nat) (d : HandlerDecl) (h : Handler) : Prop where
  covers : ∀ p o, offsets[p]? = some o →
    (h.start ≤ p ∧ p < h.stop ↔ d.startOffset ≤ o ∧ o < d.endOffset)
  handler : offsets[h.handler]? = some d.handlerOffset
  catchType : h.catchType = if d.catchType = 0 then none else some d.catchType

namespace Code

variable {offsets : List Nat} {method : String} {d : HandlerDecl} {h : Handler} {offset stop : Nat}

/-- No offset is above the last one. -/
theorem le_getLast? (h : offsets.Pairwise (· < ·)) {last o : Nat}
    (hl : offsets.getLast? = some last) (ho : o ∈ offsets) : o ≤ last := by
  rw [List.getLast?_eq_getElem?] at hl
  obtain ⟨i, hi⟩ := List.mem_iff_getElem?.1 ho
  have := (List.getElem?_eq_some_iff.1 hi).1
  exact (le_iff_of_getElem? h hi hl).1 (by omega)

/-- A range stops before an instruction if its end is not behind that. -/
theorem lt_linkStop? (h : offsets.Pairwise (· < ·)) (hs : linkStop? offsets offset = some stop)
    {p o : Nat} (hp : offsets[p]? = some o) : p < stop ↔ o < offset := by
  unfold linkStop? at hs
  split at hs
  · next k hk =>
    cases hs
    rw [indexOf?_eq_some h] at hk
    have := le_iff_of_getElem? h hk hp
    omega
  · split at hs
    · next hl =>
      cases hs
      obtain ⟨last, hlast, hl⟩ := (Option.any_eq_true _ _).1 hl
      have := le_getLast? h hlast (List.mem_of_getElem? hp)
      have := (List.getElem?_eq_some_iff.1 hp).1
      have := of_decide_eq_true hl
      omega
    · cases hs

theorem exists_linkStop? (h : offsets.Pairwise (· < ·)) (hne : offsets ≠ []) :
    (∃ stop, linkStop? offsets offset = some stop) ↔
      offset ∈ offsets ∨ ∀ o ∈ offsets, o < offset := by
  obtain ⟨last, hlast⟩ := Option.isSome_iff_exists.1 (List.getLast?_isSome.2 hne)
  have behind : (∀ o ∈ offsets, o < offset) ↔ last < offset := by
    constructor
    · intro ho
      exact ho last (List.mem_of_getLast? hlast)
    · intro hl o ho
      exact Nat.lt_of_le_of_lt (le_getLast? h hlast ho) hl
  rw [behind, ← exists_indexOf?]
  unfold linkStop?
  cases indexOf? offsets offset <;> simp [hlast]

theorem linkHandler_eq_ok : linkHandler method offsets d = .ok h ↔
    ∃ start stop handler, indexOf? offsets d.startOffset = some start ∧
      linkStop? offsets d.endOffset = some stop ∧ start < stop ∧
      indexOf? offsets d.handlerOffset = some handler ∧
      h = { start, stop, handler
            catchType := if d.catchType = 0 then none else some d.catchType } := by
  unfold linkHandler
  cases indexOf? offsets d.startOffset with
  | none => simp [throw, throwThe, MonadExceptOf.throw]
  | some start =>
    cases linkStop? offsets d.endOffset with
    | none => simp [throw, throwThe, MonadExceptOf.throw]
    | some stop =>
      rcases Nat.lt_or_ge start stop with hs | hs
      · cases indexOf? offsets d.handlerOffset with
        | none => simp [Nat.not_le.2 hs, throw, throwThe, MonadExceptOf.throw]
        | some handler => simp [hs, Nat.not_le.2 hs, pure, Except.pure, eq_comm]
      · simp [hs, Nat.not_lt.2 hs, throw, throwThe, MonadExceptOf.throw, bind, Except.bind]

/-- A handler can be linked just if it fits. -/
theorem exists_linkHandler_eq_ok (ho : offsets.Pairwise (· < ·)) :
    (∃ h, linkHandler method offsets d = .ok h) ↔ d.Fits offsets := by
  simp only [linkHandler_eq_ok]
  constructor
  · rintro ⟨h, start, stop, handler, hstart, hstop, hlt, hhandler, -⟩
    have start_mem := exists_indexOf?.1 ⟨start, hstart⟩
    refine ⟨start_mem, ?_, exists_indexOf?.1 ⟨handler, hhandler⟩, ?_⟩
    · exact (exists_linkStop? ho (List.ne_nil_of_mem start_mem)).1 ⟨stop, hstop⟩
    · exact (lt_linkStop? ho hstop ((indexOf?_eq_some ho).1 hstart)).1 hlt
  · intro hd
    obtain ⟨start, hstart⟩ := exists_indexOf?.2 hd.start
    obtain ⟨stop, hstop⟩ := (exists_linkStop? ho (List.ne_nil_of_mem hd.start)).2 hd.stop
    obtain ⟨handler, hhandler⟩ := exists_indexOf?.2 hd.handler
    have hlt := (lt_linkStop? ho hstop ((indexOf?_eq_some ho).1 hstart)).2 hd.nonempty
    exact ⟨_, start, stop, handler, hstart, hstop, hlt, hhandler, rfl⟩

theorem linkHandler_simulates (ho : offsets.Pairwise (· < ·))
    (h' : linkHandler method offsets d = .ok h) : h.Simulates offsets d := by
  obtain ⟨start, stop, handler, hstart, hstop, -, hhandler, rfl⟩ := linkHandler_eq_ok.1 h'
  rw [indexOf?_eq_some ho] at hstart hhandler
  exact ⟨fun p o hp => and_congr (le_iff_of_getElem? ho hstart hp) (lt_linkStop? ho hstop hp),
    hhandler, rfl⟩

end Code

/-! ## Code -/

/-- Code that can be linked. -/
structure CodeDecl.Linkable (code : CodeDecl) : Prop where
  ascending : code.offsets.Pairwise (· < ·)
  targets : ∀ p ∈ code.instructions, ∀ t ∈ p.2.targets, t ∈ code.offsets
  handlers : ∀ d ∈ code.handlers, d.Fits code.offsets

/-- Linked code does what the declared code does: wherever that gives the offset of an instruction,
    it gives the index. -/
structure Code.Simulates (linked : Code) (code : CodeDecl) : Prop where
  maxStack : linked.maxStack = code.maxStack
  maxLocals : linked.maxLocals = code.maxLocals
  offsets : linked.offsets = code.offsets
  instructions : List.Forall₂
    (Instruction.Retargets fun t k => code.offsets[k]? = some t)
    (code.instructions.map Prod.snd) linked.instructions.toList
  handlers : List.Forall₂ (fun d h => Handler.Simulates code.offsets d h) code.handlers linked.handlers
  /-- Jumps stay in the code. -/
  jumps : ∀ i ∈ linked.instructions, ∀ k ∈ i.targets, k < linked.instructions.size
  /-- So do handlers. -/
  catches : ∀ h ∈ linked.handlers, h.handler < linked.instructions.size

namespace Code

variable {method : String} {code : CodeDecl} {linked : Code}

theorem link_eq_ok : link method code = .ok linked ↔ code.offsets.Pairwise (· < ·) ∧
    ∃ instructions handlers,
      code.instructions.mapM (fun p => linkInstruction method code.offsets p.2) = .ok instructions ∧
      code.handlers.mapM (linkHandler method code.offsets) = .ok handlers ∧
      linked = { maxStack := code.maxStack, maxLocals := code.maxLocals
                 instructions := instructions.toArray, offsets := code.offsets, handlers
                 lines := (code.lines.filterMap fun l =>
                   (indexOf? code.offsets l.1).map (·, l.2)).mergeSort lineOrder } := by
  rw [← ascending_iff]
  unfold link
  dsimp only
  rw [← CodeDecl.offsets]
  cases ascending code.offsets with
  | false => simp [throw, throwThe, MonadExceptOf.throw, bind, Except.bind]
  | true =>
    rw [if_neg (by simp), except_bind_eq_ok]
    constructor
    · rintro ⟨instructions, hi, h⟩
      obtain ⟨handlers, hh, h⟩ := except_bind_eq_ok.1 h
      cases h
      exact ⟨rfl, instructions, handlers, hi, hh, rfl⟩
    · rintro ⟨-, instructions, handlers, hi, hh, rfl⟩
      exact ⟨instructions, hi, except_bind_eq_ok.2 ⟨handlers, hh, rfl⟩⟩

/-- Code can be linked just if it is linkable. -/
theorem exists_link_eq_ok : (∃ linked, link method code = .ok linked) ↔ code.Linkable := by
  simp only [link_eq_ok]
  constructor
  · rintro ⟨linked, ho, instructions, handlers, hi, hh, -⟩
    refine ⟨ho, fun p hp t ht => ?_, fun d hd => ?_⟩
    · obtain ⟨j, hj⟩ := exists_mapM_eq_ok.1 ⟨instructions, hi⟩ p hp
      obtain ⟨k, hk⟩ := Instruction.exists_retargets.1 ⟨j, (linkInstruction_eq_ok ho).1 hj⟩ t ht
      exact List.mem_of_getElem? hk
    · exact (exists_linkHandler_eq_ok ho).1 (exists_mapM_eq_ok.1 ⟨handlers, hh⟩ d hd)
  · intro h
    have linked : ∀ p ∈ code.instructions, ∃ j, linkInstruction method code.offsets p.2 = .ok j := by
      intro p hp
      simp only [linkInstruction_eq_ok h.ascending]
      exact Instruction.exists_retargets.2 fun t ht => List.mem_iff_getElem?.1 (h.targets p hp t ht)
    have handled : ∀ d ∈ code.handlers, ∃ h, linkHandler method code.offsets d = .ok h :=
      fun d hd => (exists_linkHandler_eq_ok h.ascending).2 (h.handlers d hd)
    obtain ⟨instructions, hi⟩ := exists_mapM_eq_ok.2 linked
    obtain ⟨handlers, hh⟩ := exists_mapM_eq_ok.2 handled
    exact ⟨_, h.ascending, instructions, handlers, hi, hh, rfl⟩

theorem simulates_of_link (h : link method code = .ok linked) : linked.Simulates code := by
  obtain ⟨ho, instructions, handlers, hi, hh, rfl⟩ := link_eq_ok.1 h
  have his := (mapM_eq_ok.1 hi).imp fun _ _ => (linkInstruction_eq_ok ho).1
  have hhs := (mapM_eq_ok.1 hh).imp fun _ _ => linkHandler_simulates ho
  have inside {k t : Nat} (hk : code.offsets[k]? = some t) : k < instructions.length := by
    have := (List.getElem?_eq_some_iff.1 hk).1
    rwa [CodeDecl.offsets, List.length_map, his.length_eq] at this
  refine ⟨rfl, rfl, rfl, List.forall₂_map_left_iff.2 his, hhs, ?_, ?_⟩
  · intro i hi k hk
    obtain ⟨p, -, hp⟩ := forall₂_mem_right his (Array.mem_toList_iff.2 hi)
    obtain ⟨t, -, ht⟩ := forall₂_mem_right hp.targets hk
    exact inside ht
  · intro h hh
    obtain ⟨d, -, hd⟩ := forall₂_mem_right hhs hh
    exact inside hd.handler

/-- **Code can be linked just if its offsets ascend strictly, its branches go to instructions, and
    its handlers cover a range of instructions and are instructions; and what it is linked to
    simulates it.** -/
theorem link_simulates (method : String) (code : CodeDecl) :
    ((∃ linked, link method code = .ok linked) ↔ code.Linkable) ∧
      ∀ linked, link method code = .ok linked → linked.Simulates code :=
  ⟨exists_link_eq_ok, fun _ => simulates_of_link⟩

end Code

end GreenVm
