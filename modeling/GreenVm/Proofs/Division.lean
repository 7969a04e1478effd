/-
  Dividing ints and longs.

  * `Truncates toInt least a b q r`: quotient and remainder of a division of words that truncates.
  * `truncates_ints`, `truncates_longs`: the quotient and the remainder of words are these.
  * `Frame.Computes`: an instruction leaves certain values on the stack, and the machine as it is.
  * `Frame.Divides`: the two instructions throw for a zero divisor, and else leave quotient and
    remainder.
  * `Frame.execute_divides`: so they do, for all ints and all longs.
-/
import GreenVm.Proofs.OperandStacks
import GreenVm.Proofs.ElementAccess

namespace GreenVm

/-! ## Words -/

/-- `q` and `r` are quotient and remainder of `a` by `b`, among words that stand for the numbers
    `toInt` from `least` on.  The quotient is rounded toward zero, and so the remainder has the sign
    of `a`; there is one quotient too large for a word, that of `least` by `-1`, which is `least`
    itself. -/
structure Truncates {α : Type} [Add α] [Mul α] (toInt : α → Int) (least a b q r : α) : Prop where
  recovers : q * b + r = a
  small : (toInt r).natAbs < (toInt b).natAbs
  sign : toInt r = 0 ∨ (toInt r).sign = (toInt a).sign
  quotient : ¬ (a = least ∧ toInt b = -1) → toInt q = (toInt a).tdiv (toInt b)
  overflow : a = least → toInt b = -1 → q = least

theorem natAbs_tmod_lt (a : Int) {b : Int} (hb : b ≠ 0) : (a.tmod b).natAbs < b.natAbs := by
  rw [Int.natAbs_tmod]
  exact Nat.mod_lt _ (Int.natAbs_pos.2 hb)

theorem tmod_eq_zero_or_sign_eq (a b : Int) : a.tmod b = 0 ∨ (a.tmod b).sign = a.sign := by
  rw [Int.sign_tmod]
  split
  · next h => exact .inl (Int.tmod_eq_zero_of_dvd h)
  · exact .inr rfl

/-- Quotient and remainder give the dividend back modulo any number, also if the quotient is known
    only modulo that. -/
theorem bmod_tdiv_mul_add_tmod (a b : Int) (n : Nat) :
    (((a.tdiv b).bmod n * b).bmod n + a.tmod b).bmod n = a.bmod n := by
  rw [Int.bmod_add_bmod, Int.add_comm, Int.add_bmod, Int.bmod_mul_bmod, ← Int.add_bmod,
    Int.add_comm, Int.tdiv_mul_add_tmod]

theorem truncates_ints (a : Int32) {b : Int32} (hb : b ≠ 0) :
    Truncates Int32.toInt Int32.minValue a b (a / b) (a % b) where
  recovers := by
    rw [← Int32.toInt_inj, Int32.toInt_add, Int32.toInt_mul, Int32.toInt_div, Int32.toInt_mod,
      bmod_tdiv_mul_add_tmod]
    exact a.toInt_bmod
  small := by
    rw [Int32.toInt_mod]
    exact natAbs_tmod_lt _ fun h => hb (Int32.toInt_inj.1 h)
  sign := by
    rw [Int32.toInt_mod]
    exact tmod_eq_zero_or_sign_eq ..
  quotient h := by
    by_cases ha : a = Int32.minValue
    · exact Int32.toInt_div_of_ne_right a b fun hb => h ⟨ha, by rw [hb]; rfl⟩
    · exact Int32.toInt_div_of_ne_left a b ha
  overflow ha hb := by
    obtain rfl : b = -1 := Int32.toInt_inj.1 hb
    rw [ha, Int32.minValue_div_neg_one]

theorem truncates_longs (a : Int64) {b : Int64} (hb : b ≠ 0) :
    Truncates Int64.toInt Int64.minValue a b (a / b) (a % b) where
  recovers := by
    rw [← Int64.toInt_inj, Int64.toInt_add, Int64.toInt_mul, Int64.toInt_div, Int64.toInt_mod,
      bmod_tdiv_mul_add_tmod]
    exact a.toInt_bmod
  small := by
    rw [Int64.toInt_mod]
    exact natAbs_tmod_lt _ fun h => hb (Int64.toInt_inj.1 h)
  sign := by
    rw [Int64.toInt_mod]
    exact tmod_eq_zero_or_sign_eq ..
  quotient h := by
    by_cases ha : a = Int64.minValue
    · exact Int64.toInt_div_of_ne_right a b fun hb => h ⟨ha, by rw [hb]; rfl⟩
    · exact Int64.toInt_div_of_ne_left a b ha
  overflow ha hb := by
    obtain rfl : b = -1 := Int64.toInt_inj.1 hb
    rw [ha, Int64.minValue_div_neg_one]

theorem BinaryOp.onInts_zero {op : BinaryOp} (h : op = .div ∨ op = .rem) (a : Int32) :
    op.onInts a 0 = .error .divisionByZero := by
  rcases h with rfl | rfl <;> rfl

theorem BinaryOp.onLongs_zero {op : BinaryOp} (h : op = .div ∨ op = .rem) (a : Int64) :
    op.onLongs a 0 = .error .divisionByZero := by
  rcases h with rfl | rfl <;> rfl

/-! ## The instructions -/

/-- An instruction leaves certain values on the stack, and the machine as it is. -/
def Frame.Computes (f : Frame) (i : Instruction) (values : List Value) : Prop :=
  ∀ host id m, ∃ stack : OperandStack, stack.values = values ∧ stack.Sound ∧
    outcome (FrameM.execute host id i) (f, m) = (.ok .advance, { f with stack }, m)

/-- The instructions that divide `a` by `b` and that take the remainder, above `rest`. -/
structure Frame.Divides {α : Type} [Add α] [Mul α] (f : Frame) (kind : NumKind) (word : α → Value)
    (toInt : α → Int) (least a b : α) (rest : List Value) : Prop where
  throws : toInt b = 0 → ∀ op, op = .div ∨ op = .rem → ∀ m,
    f.Refuses (.binary op kind) m (.raise ClassName.arithmeticException "/ by zero")
  divides : toInt b ≠ 0 → ∃ q r, Truncates toInt least a b q r ∧
    f.Computes (.binary .div kind) (word q :: rest) ∧
      f.Computes (.binary .rem kind) (word r :: rest)

namespace FrameM

variable {f : Frame} {v : Value} {vs : List Value} {α : Type} {word : α → Value} {take : FrameM α}

/-- An operation takes a word from the top of the stack. -/
def Takes (take : FrameM α) (word : α → Value) : Prop :=
  ∀ (f : Frame) (x : α) (vs : List Value), f.stack.Sound → f.stack.values = word x :: vs →
    ∀ m, ∃ stack : OperandStack, stack.values = vs ∧ stack.Sound ∧ stack.max = f.stack.max ∧
      outcome take (f, m) = (.ok x, { f with stack }, m)

theorem takes_of_as {as : Value → Except EngineError α} (has : ∀ x, as (word x) = .ok x) :
    Takes (do as (← pop)) word := by
  intro f x vs hs hf m
  have hpop : f.stack.pop =
      .ok (word x, { f.stack with values := vs, depth := f.stack.depth - (word x).slots }) := by
    rw [OperandStack.pop, hf]
  refine ⟨_, rfl, (OperandStack.pop_evolves hpop).sound hs, rfl, ?_⟩
  have hrun : outcome pop (f, m) = (.ok (word x), { f with
      stack := { f.stack with values := vs, depth := f.stack.depth - (word x).slots } }, m) := by
    rw [pop, takeOff, outcome_bind_ok (outcome_getFrame _), hpop]
    rfl
  rw [outcome_bind_ok hrun, has]
  rfl

theorem popInt_takes : Takes popInt Value.int := takes_of_as fun _ => rfl

theorem popLong_takes : Takes popLong Value.long := takes_of_as fun _ => rfl

/-- Taking two words leaves room for one of their size. -/
theorem outcome_takes_two {β : Type} (ht : take.Takes word) {a b : α} (hs : f.stack.Sound)
    (hf : f.stack.values = word b :: word a :: vs) (k : α → α → FrameM β) (m : Machine) :
    ∃ stack : OperandStack, stack.values = vs ∧ stack.Sound ∧
      totalSlots vs + (word a).slots ≤ stack.max ∧
      outcome (do let b ← take; let a ← take; k a b) (f, m) =
        outcome (k a b) ({ f with stack }, m) := by
  obtain ⟨stack₁, h₁, hs₁, hmax₁, hb⟩ := ht f b _ hs hf m
  obtain ⟨stack, h, hstack, hmax, ha⟩ := ht { f with stack := stack₁ } a vs hs₁ h₁ m
  refine ⟨stack, h, hstack, ?_, ?_⟩
  · have := hs.bounded
    rw [hs.counted, hf, totalSlots_cons, totalSlots_cons] at this
    rw [hmax, hmax₁]
    omega
  · rw [outcome_bind_ok hb, outcome_bind_ok ha]

/-- Pushing a value that there is room for. -/
theorem outcome_push_of_fits (hs : f.stack.Sound)
    (h : totalSlots f.stack.values + v.slots ≤ f.stack.max) (m : Machine) :
    ∃ stack : OperandStack, stack.values = v :: f.stack.values ∧ stack.Sound ∧
      outcome (push v) (f, m) = (.ok (), { f with stack }, m) := by
  have hpush : f.stack.push v = .ok { f.stack with
      values := v :: f.stack.values, depth := f.stack.depth + v.slots } :=
    if_pos (by rwa [hs.counted])
  refine ⟨_, rfl, (OperandStack.push_evolves hpush).sound hs, ?_⟩
  rw [push, onStack, outcome_bind_ok (outcome_getFrame _), hpush]
  rfl

end FrameM

namespace Frame

variable {f : Frame} {rest : List Value} {α : Type} {word : α → Value} {take : FrameM α} {a b : α}
  {i : Instruction}

/-- An instruction that takes two words and pushes what a computation makes of them throws what the
    computation throws. -/
theorem refuses_of_takes_two (compute : α → α → Except Fault α) (ht : take.Takes word)
    (hs : f.stack.Sound) (hf : f.stack.values = word b :: word a :: rest)
    (hi : ∀ host id, FrameM.execute host id i =
      FrameM.andAdvance (do let b ← take; let a ← take; FrameM.push (word (← compute a b))))
    {e : Fault} (he : compute a b = .error e) (m : Machine) : f.Refuses i m e := by
  intro host id
  obtain ⟨stack, -, -, -, h⟩ := FrameM.outcome_takes_two ht hs hf
    (fun a b => do FrameM.push (word (← compute a b))) m
  refine ⟨stack, ?_⟩
  rw [hi, FrameM.andAdvance, outcome_bind, h, he]
  rfl

/-- And pushes what it gives. -/
theorem computes_of_takes_two (compute : α → α → Except Fault α) (ht : take.Takes word)
    (hs : f.stack.Sound) (hf : f.stack.values = word b :: word a :: rest)
    (hi : ∀ host id, FrameM.execute host id i =
      FrameM.andAdvance (do let b ← take; let a ← take; FrameM.push (word (← compute a b))))
    {x : α} (hx : compute a b = .ok x) (hslots : (word x).slots = (word a).slots) :
    f.Computes i (word x :: rest) := by
  intro host id m
  obtain ⟨stack, rfl, hstack, hroom, h⟩ := FrameM.outcome_takes_two ht hs hf
    (fun a b => do FrameM.push (word (← compute a b))) m
  obtain ⟨stack', hvalues, hsound, hpush⟩ :=
    FrameM.outcome_push_of_fits (f := { f with stack }) hstack (hslots ▸ hroom) m
  have hcompute : outcome (do FrameM.push (word (← compute a b)) : FrameM Unit)
      ({ f with stack }, m) = (.ok (), { f with stack := stack' }, m) := by
    rw [hx]
    exact hpush
  refine ⟨stack', hvalues, hsound, ?_⟩
  rw [hi, FrameM.andAdvance, outcome_bind_ok (h.trans hcompute)]
  rfl

/-- **Dividing ints and longs.**  Where two of them are on top of the stack, the instructions that
    divide and that take the remainder throw an arithmetic exception if the divisor is zero.
    Otherwise neither fails, and the two results are the quotient, rounded toward zero, and the
    remainder of that; only the least number divided by `-1` gives itself. -/
theorem execute_divides (hs : f.stack.Sound) :
    (∀ (a b : Int32) (rest : List Value), f.stack.values = .int b :: .int a :: rest →
      f.Divides .int Value.int Int32.toInt Int32.minValue a b rest) ∧
    ∀ (a b : Int64) (rest : List Value), f.stack.values = .long b :: .long a :: rest →
      f.Divides .long Value.long Int64.toInt Int64.minValue a b rest := by
  refine ⟨fun a b rest hf => ⟨fun hb op hop m => ?_, fun hb => ?_⟩,
    fun a b rest hf => ⟨fun hb op hop m => ?_, fun hb => ?_⟩⟩
  · obtain rfl : b = 0 := Int32.toInt_inj.1 hb
    refine refuses_of_takes_two op.onInts FrameM.popInt_takes hs hf (fun _ _ => rfl) ?_ m
    exact BinaryOp.onInts_zero hop a
  · have hb : b ≠ 0 := fun h => hb (by rw [h]; rfl)
    exact ⟨a / b, a % b, truncates_ints a hb,
      computes_of_takes_two BinaryOp.div.onInts FrameM.popInt_takes hs hf (fun _ _ => rfl)
        (if_neg hb) rfl,
      computes_of_takes_two BinaryOp.rem.onInts FrameM.popInt_takes hs hf (fun _ _ => rfl)
        (if_neg hb) rfl⟩
  · obtain rfl : b = 0 := Int64.toInt_inj.1 hb
    refine refuses_of_takes_two op.onLongs FrameM.popLong_takes hs hf (fun _ _ => rfl) ?_ m
    exact BinaryOp.onLongs_zero hop a
  · have hb : b ≠ 0 := fun h => hb (by rw [h]; rfl)
    exact ⟨a / b, a % b, truncates_longs a hb,
      computes_of_takes_two BinaryOp.div.onLongs FrameM.popLong_takes hs hf (fun _ _ => rfl)
        (if_neg hb) rfl,
      computes_of_takes_two BinaryOp.rem.onLongs FrameM.popLong_takes hs hf (fun _ _ => rfl)
        (if_neg hb) rfl⟩

/-- The least int divided by `-1`, and by zero. -/
theorem execute_divides_least :
    ∃ f g : Frame, f.stack.Sound ∧ f.stack.values = [.int (-1), .int Int32.minValue] ∧
      f.Computes (.binary .div .int) [.int Int32.minValue] ∧
      f.Computes (.binary .rem .int) [.int 0] ∧
      g.stack.Sound ∧ g.stack.values = [.long 0, .long Int64.minValue] ∧
      ∀ m, g.Refuses (.binary .rem .long) m .divisionByZero := by
  let f : Frame := { (Inhabited.default : Frame) with
    stack := { values := [.int (-1), .int Int32.minValue], depth := 2, max := 2 } }
  let g : Frame := { (Inhabited.default : Frame) with
    stack := { values := [.long 0, .long Int64.minValue], depth := 4, max := 4 } }
  have hf : f.stack.Sound := ⟨rfl, by decide⟩
  have hg : g.stack.Sound := ⟨rfl, by decide⟩
  have hints := (execute_divides hf).1 Int32.minValue (-1) [] rfl
  have hlongs := (execute_divides hg).2 Int64.minValue 0 [] rfl
  obtain ⟨q, r, htruncates, hdiv, hrem⟩ := hints.divides (by decide)
  obtain rfl : q = Int32.minValue := htruncates.overflow rfl rfl
  obtain rfl : r = 0 := by
    have := htruncates.small
    exact Int32.toInt_inj.1 (by simpa using this)
  exact ⟨f, g, hf, rfl, hdiv, hrem, hg, rfl, hlongs.throws rfl .rem (.inr rfl)⟩

end Frame

end GreenVm
