/-
  Operand stacks: what is on them, in slots.

  * `OperandStack.Sound`: the depth is the number of slots that the values take, and within the bound.
  * `OperandStack.Evolves`: a stack comes from another one of the same bound, and is sound if that is.
  * `Cuts vs n`: a wide value lies across the boundary below the top `n` slots.
  * `OperandStack.popSlots_eq`, `popSlots_of_cuts`, `popSlots_of_lt`: taking slots takes the values that
    fill them, and fails where a wide value would be cut, and where there are too few.
  * `OperandStack.pushAll_eq`, `pushAll_error`: values are pushed just if there is room for all of them.
  * `Frame.Rearranges`: an instruction puts the values in the top slots, and in those below them, back in
    another order and number.
  * `Frame.execute_rearranges`: so do the instructions that copy slots, and the one that exchanges two.
-/
import GreenVm.Proofs.Work

namespace GreenVm

/-! ## Slots -/

section Slots

variable {v : Value} {vs ws : List Value}

@[simp] theorem totalSlots_nil : totalSlots [] = 0 := rfl

@[simp] theorem totalSlots_cons : totalSlots (v :: vs) = v.slots + totalSlots vs := rfl

@[simp] theorem totalSlots_append : totalSlots (vs ++ ws) = totalSlots vs + totalSlots ws := by
  induction vs with
  | nil => simp
  | cons v vs ih => simp [ih, Nat.add_assoc]

@[simp] theorem totalSlots_reverse : totalSlots vs.reverse = totalSlots vs := by
  induction vs with
  | nil => rfl
  | cons v vs ih => simp [ih, Nat.add_comm]

theorem Value.slots_of_isWide (h : v.isWide = true) : v.slots = 2 := if_pos h

theorem Value.slots_of_not_isWide (h : ¬ v.isWide = true) : v.slots = 1 := if_neg h

theorem Value.slots_pos (v : Value) : 0 < v.slots := by
  rw [slots]
  split <;> decide

end Slots

/-- A wide value lies across the boundary below the top `n` slots. -/
def Cuts (vs : List Value) (n : Nat) : Prop :=
  ∃ above v below, vs = above ++ v :: below ∧ v.isWide = true ∧ n = totalSlots above + 1

variable {vs : List Value} {n : Nat}

theorem Cuts.prepend (h : Cuts vs n) (above : List Value) :
    Cuts (above ++ vs) (totalSlots above + n) := by
  obtain ⟨above', v, below, rfl, hv, rfl⟩ := h
  exact ⟨above ++ above', v, below, by simp, hv, by rw [totalSlots_append, Nat.add_assoc]⟩

/-- What cuts a value is not filled by values. -/
theorem Cuts.not_fills {above below : List Value} (h : Cuts (above ++ below) n) :
    totalSlots above ≠ n := by
  obtain ⟨above', v, below', hs, hv, rfl⟩ := h
  have hslots := Value.slots_of_isWide hv
  rcases List.append_eq_append_iff.1 hs with ⟨mid, rfl, -⟩ | ⟨mid, rfl, hmid⟩
  · rw [totalSlots_append]
    omega
  · cases mid with
    | nil =>
      rw [totalSlots_append, totalSlots_nil]
      omega
    | cons w mid =>
      obtain rfl := (List.cons.inj hmid).1
      rw [totalSlots_append, totalSlots_cons]
      omega

/-- So many slots are filled by values, or they cut one, or they are too many. -/
theorem fills_or_cuts_or_lt : ∀ (vs : List Value) (n : Nat),
    (∃ above below, vs = above ++ below ∧ totalSlots above = n) ∨ Cuts vs n ∨ totalSlots vs < n
  | vs, 0 => .inl ⟨[], vs, rfl, rfl⟩
  | [], n + 1 => .inr (.inr (Nat.succ_pos n))
  | v :: vs, n + 1 => by
    by_cases hn : n + 1 < v.slots
    · -- only the top value of two slots is cut at one
      have hv : v.isWide = true := by
        by_contra hv
        rw [Value.slots_of_not_isWide hv] at hn
        omega
      rw [Value.slots_of_isWide hv] at hn
      exact .inr (.inl ⟨[], v, vs, rfl, hv, by simp; omega⟩)
    · obtain ⟨k, hk⟩ := Nat.exists_eq_add_of_le (Nat.le_of_not_lt hn)
      rcases fills_or_cuts_or_lt vs k with ⟨above, below, rfl, rfl⟩ | h | h
      · exact .inl ⟨v :: above, below, rfl, by rw [totalSlots_cons, hk]⟩
      · refine .inr (.inl ?_)
        have := h.prepend [v]
        rwa [totalSlots_cons, totalSlots_nil, Nat.add_zero, ← hk] at this
      · exact .inr (.inr (by rw [totalSlots_cons]; omega))
termination_by vs => vs.length

namespace OperandStack

/-- The depth is the number of slots that the values take, and the bound is kept. -/
structure Sound (s : OperandStack) : Prop where
  counted : s.depth = totalSlots s.values
  bounded : s.depth ≤ s.max

/-- A stack comes from another one: the bound is the same, and soundness is kept. -/
structure Evolves (s s' : OperandStack) : Prop where
  max : s'.max = s.max
  sound : s.Sound → s'.Sound

variable {s s' : OperandStack} {v : Value} {vs top below rest : List Value} {n k : Nat}
  {e : EngineError}

theorem sound_ofMax (max : Nat) : (ofMax max).Sound := ⟨rfl, Nat.zero_le max⟩

theorem Evolves.refl (s : OperandStack) : s.Evolves s := ⟨rfl, id⟩

theorem Evolves.trans {s'' : OperandStack} (h : s.Evolves s') (h' : s'.Evolves s'') :
    s.Evolves s'' :=
  ⟨h'.max.trans h.max, h'.sound ∘ h.sound⟩

/-! ## Pushing -/

theorem push_evolves (h : s.push v = .ok s') : s.Evolves s' := by
  unfold push at h
  split at h
  · next hfits =>
    cases h
    refine ⟨rfl, fun hs => ⟨?_, hfits⟩⟩
    rw [totalSlots_cons, ← hs.counted, Nat.add_comm]
  · cases h

theorem pushAll_evolves : ∀ {vs : List Value} {s s' : OperandStack},
    s.pushAll vs = .ok s' → s.Evolves s'
  | [], s, _, h => by cases h; exact .refl s
  | v :: vs, s, _, h => by
    obtain ⟨s₁, hpush, h⟩ := except_bind_eq_ok.1 h
    exact (push_evolves hpush).trans (pushAll_evolves h)

/-- Values are pushed if there is room for all of them. -/
theorem pushAll_eq : ∀ {vs : List Value} {s : OperandStack},
    s.depth + totalSlots vs ≤ s.max →
    s.pushAll vs =
      .ok { s with values := vs.reverse ++ s.values, depth := s.depth + totalSlots vs }
  | [], s, _ => rfl
  | v :: vs, s, h => by
    rw [totalSlots_cons, ← Nat.add_assoc] at h
    have hpush : s.push v = .ok { s with values := v :: s.values, depth := s.depth + v.slots } :=
      if_pos (by omega)
    rw [pushAll, List.foldlM_cons, hpush]
    refine (pushAll_eq h).trans ?_
    simp [Nat.add_assoc]

/-- There is an overflow if there is not. -/
theorem pushAll_error : ∀ {vs : List Value} {s : OperandStack}, s.depth ≤ s.max →
    s.max < s.depth + totalSlots vs → s.pushAll vs = .error (.stackOverflow s.max)
  | [], s, hs, h => by simp at h; omega
  | v :: vs, s, hs, h => by
    rw [pushAll, List.foldlM_cons]
    by_cases hfits : s.depth + v.slots ≤ s.max
    · have hpush : s.push v = .ok { s with values := v :: s.values, depth := s.depth + v.slots } :=
        if_pos hfits
      rw [hpush]
      exact pushAll_error (s := { s with values := v :: s.values, depth := s.depth + v.slots }) hfits
        (by simpa [Nat.add_assoc] using h)
    · rw [show s.push v = .error (.stackOverflow s.max) from if_neg hfits]
      rfl

/-! ## Taking -/

theorem pop_evolves (h : s.pop = .ok (v, s')) : s.Evolves s' := by
  unfold pop at h
  split at h
  · cases h
  · next w ws hv =>
    cases h
    refine ⟨rfl, fun hs => ⟨?_, Nat.le_trans (Nat.sub_le ..) hs.bounded⟩⟩
    simp only [hs.counted, hv, totalSlots_cons, Nat.add_sub_cancel_left]

theorem popArgs_evolves (h : s.popArgs n = .ok (vs, s')) : s.Evolves s' := by
  unfold popArgs at h
  split at h
  · cases h
  · cases h
    refine ⟨rfl, fun hs => ⟨?_, Nat.le_trans (Nat.sub_le ..) hs.bounded⟩⟩
    have hsplit : totalSlots s.values =
        totalSlots (s.values.take n) + totalSlots (s.values.drop n) := by
      rw [← totalSlots_append, List.take_append_drop]
    simp only [hs.counted, totalSlots_reverse, hsplit, Nat.add_sub_cancel_left]

/-- Taking the slots of the top value, and more, takes the others from below it. -/
theorem popSlots_cons (h : s.values = v :: vs) (n : Nat) :
    s.popSlots (v.slots + n) =
      ({ s with values := vs, depth := s.depth - v.slots }.popSlots n).map
        fun (p : List Value × OperandStack) => (p.1 ++ [v], p.2) := by
  have hpop : s.pop = .ok (v, { s with values := vs, depth := s.depth - v.slots }) := by
    rw [pop, h]
  by_cases hv : v.isWide = true
  · rw [Value.slots_of_isWide hv] at hpop ⊢
    rw [Nat.add_comm, popSlots, hpop]
    simp only [bind, Except.bind, hv, if_true]
    cases popSlots _ n <;> rfl
  · rw [Value.slots_of_not_isWide hv] at hpop ⊢
    cases n with
    | zero =>
      rw [popSlots, popSlots, hpop]
      simp only [bind, Except.bind, hv]
      rfl
    | succ n =>
      rw [Nat.add_comm 1, popSlots, hpop]
      simp only [bind, Except.bind, hv]
      cases h : popSlots _ (n + 1) <;> rfl

/-- Taking the slots of the topmost values, and more, takes the others from below them. -/
theorem popSlots_append (n : Nat) : ∀ {above : List Value} {s : OperandStack},
    s.values = above ++ vs →
      s.popSlots (totalSlots above + n) =
        ({ s with values := vs, depth := s.depth - totalSlots above }.popSlots n).map
          fun (p : List Value × OperandStack) => (p.1 ++ above.reverse, p.2)
  | [], s, h => by
    obtain ⟨values, depth, max⟩ := s
    cases h
    rw [totalSlots_nil, Nat.zero_add]
    cases popSlots _ n <;> simp [Except.map]
  | v :: above, s, h => by
    rw [totalSlots_cons, Nat.add_assoc, popSlots_cons h, popSlots_append n rfl, Nat.sub_add_eq]
    cases popSlots _ n <;> simp [Except.map]

/-- Taking slots takes the values that fill them. -/
theorem popSlots_eq (h : s.values = above ++ vs) :
    s.popSlots (totalSlots above) =
      .ok (above.reverse, { s with values := vs, depth := s.depth - totalSlots above }) :=
  popSlots_append 0 h

/-- A wide value is not cut. -/
theorem popSlots_of_cuts (h : Cuts s.values n) :
    s.popSlots n = .error (.typeMismatch .category1 .category2) := by
  obtain ⟨above, v, below, hs, hv, rfl⟩ := h
  rw [popSlots_append 1 hs, popSlots]
  simp only [pop, bind, Except.bind, hv]
  rfl

/-- There may be too few slots. -/
theorem popSlots_of_lt (h : totalSlots s.values < n) : s.popSlots n = .error .stackUnderflow := by
  obtain ⟨k, rfl⟩ := Nat.exists_eq_add_of_lt h
  rw [Nat.add_assoc, popSlots_append (k + 1) (List.append_nil s.values).symm]
  cases k <;> rfl

/-- Taking slots succeeds only where values fill them. -/
theorem popSlots_evolves (h : s.popSlots n = .ok (vs, s')) : s.Evolves s' := by
  rcases fills_or_cuts_or_lt s.values n with ⟨above, below, hs, rfl⟩ | hc | hl
  · rw [popSlots_eq hs] at h
    cases h
    refine ⟨rfl, fun hsound => ⟨?_, Nat.le_trans (Nat.sub_le ..) hsound.bounded⟩⟩
    simp only [hsound.counted, hs, totalSlots_append, Nat.add_sub_cancel_left]
  · rw [popSlots_of_cuts hc] at h
    cases h
  · rw [popSlots_of_lt hl] at h
    cases h

theorem clear_evolves (s : OperandStack) : s.Evolves s.clear :=
  ⟨rfl, fun _ => ⟨rfl, Nat.zero_le _⟩⟩

/-! ## Putting slots back -/

/-- Takes the values in the top `n` slots and in the `k` slots below them, and pushes some made of
    them. -/
def rearrange (n k : Nat) (arrange : List Value → List Value → List Value) (s : OperandStack) :
    Except EngineError OperandStack := do
  let (top, s) ← s.popSlots n
  let (below, s) ← s.popSlots k
  s.pushAll (arrange top below)

theorem pushAll_append (s : OperandStack) (vs ws : List Value) :
    s.pushAll (vs ++ ws) = s.pushAll vs >>= (·.pushAll ws) :=
  List.foldlM_append

theorem dup_eq_rearrange (s : OperandStack) (n k : Nat) :
    s.dup n k = s.rearrange n k fun top below => top ++ below ++ top := by
  simp only [dup, rearrange, pushAll_append, bind_assoc]

theorem swap_eq_rearrange (s : OperandStack) :
    s.swap = s.rearrange 1 1 fun top below => top ++ below := by
  simp only [swap, rearrange, pushAll_append]

variable {arrange : List Value → List Value → List Value}

theorem rearrange_evolves (h : s.rearrange n k arrange = .ok s') : s.Evolves s' := by
  obtain ⟨p, hp, h⟩ := except_bind_eq_ok.1 h
  obtain ⟨q, hq, h⟩ := except_bind_eq_ok.1 h
  exact (popSlots_evolves hp).trans ((popSlots_evolves hq).trans (pushAll_evolves h))

/-- The values in the top `n` slots, those in the `k` slots below them, and the rest, each the deepest
    first. -/
structure Splits (s : OperandStack) (n k : Nat) (rest below top : List Value) : Prop where
  values : s.values.reverse = rest ++ below ++ top
  top : totalSlots top = n
  below : totalSlots below = k

theorem Splits.values_eq (h : s.Splits n k rest below top) :
    s.values = top.reverse ++ (below.reverse ++ rest.reverse) := by
  rw [← List.reverse_inj, h.values]
  simp

/-- A stack that splits has enough slots, and none of its wide values is in the way. -/
theorem Splits.not_cuts (h : s.Splits n k rest below top) :
    ¬ Cuts s.values n ∧ ¬ Cuts s.values (n + k) ∧ n + k ≤ totalSlots s.values := by
  refine ⟨fun hc => ?_, fun hc => ?_, ?_⟩
  · rw [h.values_eq] at hc
    exact hc.not_fills (totalSlots_reverse.trans h.top)
  · rw [h.values_eq, ← List.append_assoc] at hc
    refine hc.not_fills ?_
    rw [totalSlots_append, totalSlots_reverse, totalSlots_reverse, h.top, h.below]
  · rw [h.values_eq, totalSlots_append, totalSlots_append, totalSlots_reverse, totalSlots_reverse,
      h.top, h.below]
    omega

/-- Taking both leaves the rest. -/
theorem Splits.rearrange_pushAll (h : s.Splits n k rest below top) (hs : s.Sound) :
    s.rearrange n k arrange =
      { s with values := rest.reverse, depth := totalSlots rest }.pushAll (arrange top below) := by
  have htop := popSlots_eq h.values_eq
  have hbelow := popSlots_eq (s := { s with
    values := below.reverse ++ rest.reverse, depth := s.depth - totalSlots top.reverse }) rfl
  rw [totalSlots_reverse, h.top, List.reverse_reverse] at htop
  rw [totalSlots_reverse, h.top, totalSlots_reverse, h.below, List.reverse_reverse] at hbelow
  have hdepth : s.depth - n - k = totalSlots rest := by
    rw [hs.counted, h.values_eq, totalSlots_append, totalSlots_append, totalSlots_reverse,
      totalSlots_reverse, totalSlots_reverse, h.top, h.below]
    omega
  rw [rearrange, htop]
  simp only [bind, Except.bind, hbelow, hdepth]

variable (arrange) in
/-- Where it does not split, a wide value would be cut, or there are too few slots. -/
theorem rearrange_error (h : ∀ rest below top, ¬ s.Splits n k rest below top) :
    ((Cuts s.values n ∨ Cuts s.values (n + k)) ∧
        s.rearrange n k arrange = .error (.typeMismatch .category1 .category2)) ∨
      (totalSlots s.values < n + k ∧ s.rearrange n k arrange = .error .stackUnderflow) := by
  rcases fills_or_cuts_or_lt s.values n with ⟨above, vs, hs, rfl⟩ | hc | hl
  · -- the top slots are filled, and it is those below them that are not
    rw [rearrange, popSlots_eq hs]
    rcases fills_or_cuts_or_lt vs k with ⟨under, others, rfl, rfl⟩ | hc | hl
    · refine absurd ⟨?_, totalSlots_reverse, totalSlots_reverse⟩
        (h others.reverse under.reverse above.reverse)
      rw [hs, List.reverse_append, List.reverse_append]
    · refine .inl ⟨.inr (hs ▸ hc.prepend above), ?_⟩
      simp only [bind, Except.bind, popSlots_of_cuts (s := { s with
        values := vs, depth := s.depth - totalSlots above }) hc]
    · refine .inr ⟨by rw [hs, totalSlots_append]; omega, ?_⟩
      simp only [bind, Except.bind, popSlots_of_lt (s := { s with
        values := vs, depth := s.depth - totalSlots above }) hl]
  · rw [rearrange, popSlots_of_cuts hc]
    exact .inl ⟨.inl hc, rfl⟩
  · rw [rearrange, popSlots_of_lt hl]
    exact .inr ⟨by omega, rfl⟩

end OperandStack

/-! ## The instructions -/

/-- An instruction takes the values in the top `n` slots and in the `k` slots below them, and pushes some
    made of them, if there is room; it refuses to cut a wide value, or to take more than there is.  The
    machine stays as it is. -/
structure Frame.Rearranges (f : Frame) (i : Instruction) (n k : Nat)
    (arrange : List Value → List Value → List Value) : Prop where
  fits : ∀ rest below top, f.stack.Splits n k rest below top →
    totalSlots (rest ++ arrange top below) ≤ f.stack.max →
    ∀ host id m, ∃ stack : OperandStack, stack.values.reverse = rest ++ arrange top below ∧
      stack.Sound ∧ stack.max = f.stack.max ∧
      outcome (FrameM.execute host id i) (f, m) = (.ok .advance, { f with stack }, m)
  overflows : ∀ rest below top, f.stack.Splits n k rest below top →
    f.stack.max < totalSlots (rest ++ arrange top below) →
    ∀ host id m, ∃ stack : OperandStack, outcome (FrameM.execute host id i) (f, m) =
      (.error (.fatal (.stackOverflow f.stack.max)), { f with stack }, m)
  refuses : (∀ rest below top, ¬ f.stack.Splits n k rest below top) →
    ∀ host id m, ∃ (stack : OperandStack) (e : EngineError),
      ((Cuts f.stack.values n ∨ Cuts f.stack.values (n + k)) ∧
          e = .typeMismatch .category1 .category2 ∨
        totalSlots f.stack.values < n + k ∧ e = .stackUnderflow) ∧
      outcome (FrameM.execute host id i) (f, m) = (.error (.fatal e), { f with stack }, m)

section OnStack

variable {f : Frame} {g : OperandStack → Except EngineError OperandStack}

theorem FrameM.outcome_onStack_ok {stack : OperandStack} (h : g f.stack = .ok stack) (m : Machine) :
    outcome (andAdvance (onStack g)) (f, m) = (.ok .advance, { f with stack }, m) := by
  rw [andAdvance, onStack]
  simp only [outcome_bind, outcome_getFrame, followedBy, h]
  rfl

theorem FrameM.outcome_onStack_error {e : EngineError} (h : g f.stack = .error e) (m : Machine) :
    outcome (andAdvance (onStack g)) (f, m) = (.error (.fatal e), f, m) := by
  rw [andAdvance, onStack]
  simp only [outcome_bind, outcome_getFrame, followedBy, h]
  rfl

end OnStack

namespace Frame

variable {f : Frame} {i : Instruction} {n k : Nat}
  {arrange : List Value → List Value → List Value}

theorem rearranges_of_rearrange (hs : f.stack.Sound)
    (hi : ∀ host id, FrameM.execute host id i =
      FrameM.andAdvance (FrameM.onStack (·.rearrange n k arrange))) :
    f.Rearranges i n k arrange where
  fits rest below top h hfits host id m := by
    have hroom : totalSlots rest + totalSlots (arrange top below) ≤ f.stack.max := by
      rwa [← totalSlots_append]
    have hpush := (h.rearrange_pushAll hs).trans (OperandStack.pushAll_eq hroom)
    refine ⟨_, ?_, (OperandStack.rearrange_evolves hpush).sound hs, rfl, ?_⟩
    · rw [List.reverse_append, List.reverse_reverse, List.reverse_reverse]
    · rw [hi, FrameM.outcome_onStack_ok hpush]
  overflows rest below top h hexceeds host id m := by
    have hrest : totalSlots rest ≤ f.stack.max := by
      have := hs.bounded
      rw [hs.counted, ← totalSlots_reverse, h.values, totalSlots_append, totalSlots_append] at this
      omega
    have hexceeds : f.stack.max < totalSlots rest + totalSlots (arrange top below) := by
      rwa [← totalSlots_append]
    have hpush := (h.rearrange_pushAll hs).trans (OperandStack.pushAll_error hrest hexceeds)
    exact ⟨f.stack, by rw [hi, FrameM.outcome_onStack_error hpush]⟩
  refuses h host id m := by
    rcases OperandStack.rearrange_error arrange h with ⟨hc, he⟩ | ⟨hl, he⟩
    · exact ⟨f.stack, _, .inl ⟨hc, rfl⟩, by rw [hi, FrameM.outcome_onStack_error he]⟩
    · exact ⟨f.stack, _, .inr ⟨hl, rfl⟩, by rw [hi, FrameM.outcome_onStack_error he]⟩

/-- **Copying the top `n` slots beneath the `k` slots below them** makes `rest ++ top ++ below ++ top` of
    a stack `rest ++ below ++ top`, for all numbers of slots and all values that fill them, **and
    exchanging the two top slots** makes `rest ++ top ++ below` of it.  If there is no room for that, it is
    a stack overflow; and if the slots are not filled by values, a wide value would be cut or there are too
    few slots, and that is the error. -/
theorem execute_rearranges (hs : f.stack.Sound) :
    (∀ n k, f.Rearranges (.dup n k) n k fun top below => top ++ below ++ top) ∧
      f.Rearranges .swap 1 1 fun top below => top ++ below := by
  refine ⟨fun n k => rearranges_of_rearrange hs fun host id => ?_,
    rearranges_of_rearrange hs fun host id => ?_⟩
  · simp only [FrameM.execute, OperandStack.dup_eq_rearrange]
  · simp only [FrameM.execute, OperandStack.swap_eq_rearrange]

/-- An int is copied beneath a long, and a long is not cut to copy two slots. -/
theorem execute_rearranges_mixed :
    ∃ f : Frame, f.stack.Sound ∧ f.stack.values.reverse = [.int 3, .long 5, .int 7] ∧
      ∀ host id m, (∃ stack : OperandStack,
          stack.values.reverse = [.int 3, .int 7, .long 5, .int 7] ∧
          outcome (FrameM.execute host id (.dup 1 2)) (f, m) = (.ok .advance, { f with stack }, m)) ∧
        ∃ stack : OperandStack, outcome (FrameM.execute host id (.dup 2 0)) (f, m) =
          (.error (.fatal (.typeMismatch .category1 .category2)), { f with stack }, m) := by
  let f : Frame := { (Inhabited.default : Frame) with
    stack := { values := [.int 7, .long 5, .int 3], depth := 4, max := 5 } }
  have hs : f.stack.Sound := ⟨rfl, by decide⟩
  have hcuts : ∀ rest below top, ¬ f.stack.Splits 2 0 rest below top := fun rest below top h =>
    h.not_cuts.1 ⟨[.int 7], .long 5, [.int 3], rfl, rfl, rfl⟩
  obtain ⟨hdup, -⟩ := execute_rearranges hs
  refine ⟨f, hs, rfl, fun host id m => ⟨?_, ?_⟩⟩
  · obtain ⟨stack, hstack, -, -, h⟩ := (hdup 1 2).fits [.int 3] [.long 5] [.int 7]
      ⟨rfl, rfl, rfl⟩ (by decide) host id m
    exact ⟨stack, hstack, h⟩
  · obtain ⟨stack, e, he, h⟩ := (hdup 2 0).refuses hcuts host id m
    obtain ⟨-, rfl⟩ | ⟨hlt, -⟩ := he
    · exact ⟨stack, h⟩
    · exact absurd hlt (by decide)

end Frame

end GreenVm
