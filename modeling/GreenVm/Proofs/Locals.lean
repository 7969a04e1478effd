/-
  Local variables and what has been stored in them.

  * `Touches i v s`: a store touches the slots of the value `v` at `i`.
  * `Frame.Written ws f`: a frame that has been entered, in which the values of `ws` have since been
    stored one after another; the arguments are the first of them.
  * `Frame.Recalls ws f`: a local variable is the value that was last stored there, unless a later store
    has touched it.
  * `Frame.Written.recalls`: so it is in every such frame.
  * `Frame.Written.executes`: an instruction that succeeds adds to `ws` what it sets.
-/
import GreenVm.Proofs.Calls
import GreenVm.Proofs.Operating

namespace GreenVm

/-- A store touches the slots of a value that is at `i`: it is to one of them, or that of a wide value to
    the slot before. -/
def Touches (i : Nat) (v : Value) (s : Nat × Value) : Prop :=
  s.1 = i ∨ (v.isWide = true ∧ s.1 = i + 1) ∨ (s.2.isWide = true ∧ s.1 + 1 = i)

/-- Where values are laid out from a slot on. -/
def placed : Nat → List Value → List (Nat × Value)
  | _, [] => []
  | slot, v :: vs => (slot, v) :: placed (slot + v.slots) vs

/-- A wide value has its second slot to itself. -/
def Paired (locals : Array Value) : Prop :=
  ∀ i v, locals[i]? = some v → v.isWide = true → locals[i + 1]? = some .top

namespace Frame

/-- The local variables after stores, one after another. -/
def putLocals (locals : Array Value) (ws : List (Nat × Value)) : Array Value :=
  ws.foldl (fun locals s => putLocal locals s.1 s.2) locals

variable {locals locals' : Array Value} {i j slot index : Nat} {u v w : Value}
  {ws after : List (Nat × Value)} {vs args : List Value} {s : Nat × Value}

/-! ## One store -/

@[simp] theorem size_forgetBefore (locals : Array Value) (index : Nat) :
    (forgetBefore locals index).size = locals.size := by
  unfold forgetBefore
  grind

@[simp] theorem size_putLocal (locals : Array Value) (index : Nat) (v : Value) :
    (putLocal locals index v).size = locals.size := by
  unfold putLocal
  split <;> simp

theorem getElem?_forgetBefore (locals : Array Value) (index i : Nat) :
    (forgetBefore locals index)[i]? =
      if i + 1 = index ∧ (locals[i]?.getD .top).isWide = true then some .top else locals[i]? := by
  have htop : Value.top.isWide = false := rfl
  unfold forgetBefore
  grind

/-- What is in a local variable after a store. -/
theorem getElem?_putLocal (hfits : index + v.slots ≤ locals.size) (i : Nat) :
    (putLocal locals index v)[i]? =
      if i = index then some v
      else if v.isWide = true ∧ i = index + 1 then some .top
      else if i + 1 = index ∧ (locals[i]?.getD .top).isWide = true then some .top
      else locals[i]? := by
  have hpos := v.slots_pos
  unfold putLocal
  by_cases hv : v.isWide = true
  · have hslots := Value.slots_of_isWide hv
    simp only [hv, if_true, true_and]
    grind [getElem?_forgetBefore]
  · simp only [hv]
    grind [getElem?_forgetBefore]

/-- A store that touches nothing of a value leaves it. -/
theorem putLocal_untouched (hfits : index + w.slots ≤ locals.size) (hi : locals[i]? = some v)
    (h : ¬ Touches i v (index, w)) : (putLocal locals index w)[i]? = some v := by
  simp only [Touches, not_or, not_and] at h
  obtain ⟨hne, hsecond, hbefore⟩ := h
  rw [getElem?_putLocal hfits, if_neg (Ne.symm hne), if_neg fun e => hbefore e.1 e.2.symm,
    if_neg fun e => ?_, hi]
  rw [hi] at e
  exact hsecond e.2 e.1.symm

/-- A store that touches something of a value that is elsewhere clears it. -/
theorem putLocal_touched (hfits : index + w.slots ≤ locals.size) (hi : locals[i]? = some v)
    (h : Touches i v (index, w)) (hne : index ≠ i) : (putLocal locals index w)[i]? = some .top := by
  rw [getElem?_putLocal hfits, if_neg (Ne.symm hne), hi]
  rcases h with h | ⟨hv, h⟩ | ⟨hw, h⟩
  · exact absurd h hne
  · split
    · rfl
    · exact if_pos ⟨h.symm, hv⟩
  · exact if_pos ⟨hw, h.symm⟩

/-- An empty local variable stays empty until something is stored there. -/
theorem putLocal_top (hfits : index + w.slots ≤ locals.size) (hi : locals[i]? = some .top)
    (hne : index ≠ i) : (putLocal locals index w)[i]? = some .top := by
  by_cases h : Touches i .top (index, w)
  · exact putLocal_touched hfits hi h hne
  · exact putLocal_untouched hfits hi h

/-- A store leaves every wide value its second slot, and clears the first of one that loses it. -/
theorem paired_putLocal (hfits : index + w.slots ≤ locals.size) (h : Paired locals) :
    Paired (putLocal locals index w) := by
  intro i v hi hv
  by_cases hindex : i = index
  · -- the value that is stored
    rw [getElem?_putLocal hfits, if_pos hindex] at hi
    cases hi
    rw [getElem?_putLocal hfits, if_neg (by omega), if_pos ⟨hv, by rw [hindex]⟩]
  · -- a value that was there before, and has not been touched
    have hbefore : locals[i]? = some v := by
      rw [getElem?_putLocal hfits, if_neg hindex] at hi
      split at hi
      · cases hi; cases hv
      split at hi
      · cases hi; cases hv
      exact hi
    have huntouched : ¬ Touches i v (index, w) := fun ht => by
      rw [putLocal_touched hfits hbefore ht (Ne.symm hindex)] at hi
      cases hi
      cases hv
    refine putLocal_top hfits (h i v hbefore hv) fun e => huntouched (.inr (.inl ⟨hv, e⟩))

/-! ## Stores one after another -/

/-- The slots that a store takes are there. -/
def Fits (locals : Array Value) (ws : List (Nat × Value)) : Prop :=
  ∀ s ∈ ws, s.1 + s.2.slots ≤ locals.size

@[simp] theorem putLocals_cons : putLocals locals (s :: ws) = putLocals (putLocal locals s.1 s.2) ws :=
  rfl

@[simp] theorem putLocals_append :
    putLocals locals (ws ++ after) = putLocals (putLocals locals ws) after := List.foldl_append

@[simp] theorem size_putLocals : ∀ {ws : List (Nat × Value)} {locals : Array Value},
    (putLocals locals ws).size = locals.size
  | [], _ => rfl
  | _ :: _, _ => by rw [putLocals_cons, size_putLocals, size_putLocal]

theorem Fits.tail (h : Fits locals (s :: ws)) : Fits (putLocal locals s.1 s.2) ws := fun s' hs' => by
  rw [size_putLocal]
  exact h s' (List.mem_cons_of_mem s hs')

/-- Stores that touch nothing of a value leave it. -/
theorem putLocals_untouched (hf : Fits locals ws) (hi : locals[i]? = some v)
    (h : ∀ s ∈ ws, ¬ Touches i v s) : (putLocals locals ws)[i]? = some v := by
  induction ws generalizing locals with
  | nil => exact hi
  | cons s ws ih =>
    obtain ⟨hs, hrest⟩ := List.forall_mem_cons.1 h
    exact ih hf.tail (putLocal_untouched (hf s List.mem_cons_self) hi hs) hrest

/-- A local variable stays empty until something is stored there. -/
theorem putLocals_top (hf : Fits locals ws) (hi : locals[i]? = some .top)
    (h : ∀ s ∈ ws, s.1 ≠ i) : (putLocals locals ws)[i]? = some .top := by
  induction ws generalizing locals with
  | nil => exact hi
  | cons s ws ih =>
    obtain ⟨hs, hrest⟩ := List.forall_mem_cons.1 h
    exact ih hf.tail (putLocal_top (hf s List.mem_cons_self) hi hs) hrest

/-- Stores that touch something of a value, none of them to its place, clear it. -/
theorem putLocals_touched (hf : Fits locals ws) (hi : locals[i]? = some v)
    (hne : ∀ s ∈ ws, s.1 ≠ i) (ht : ∃ s ∈ ws, Touches i v s) :
    (putLocals locals ws)[i]? = some .top := by
  induction ws generalizing locals with
  | nil => simp at ht
  | cons s ws ih =>
    have hs := hf s List.mem_cons_self
    obtain ⟨hsne, hrest⟩ := List.forall_mem_cons.1 hne
    rw [putLocals_cons]
    by_cases htouch : Touches i v s
    · exact putLocals_top hf.tail (putLocal_touched hs hi htouch hsne) hrest
    · have ht : ∃ s ∈ ws, Touches i v s := by simpa [htouch] using ht
      exact ih hf.tail (putLocal_untouched hs hi htouch) hrest ht

theorem paired_putLocals (hf : Fits locals ws) (h : Paired locals) :
    Paired (putLocals locals ws) := by
  induction ws generalizing locals with
  | nil => exact h
  | cons s ws ih => exact ih hf.tail (paired_putLocal (hf s List.mem_cons_self) h)

/-! ## Arguments -/

/-- From a slot on nothing is stored, and no wide value reaches over it. -/
structure Vacant (locals : Array Value) (slot : Nat) : Prop where
  top : ∀ i, slot ≤ i → i < locals.size → locals[i]? = some .top
  before : ∀ i v, i + 1 = slot → locals[i]? = some v → ¬ v.isWide = true

/-- A store to a vacant slot is no more than that. -/
theorem Vacant.putLocal_eq (h : Vacant locals slot) (hfits : slot + v.slots ≤ locals.size) :
    putLocal locals slot v = locals.setIfInBounds slot v := by
  have hpos := v.slots_pos
  refine Array.ext_getElem? fun i => ?_
  rw [getElem?_putLocal hfits]
  by_cases hi : i = slot
  · rw [if_pos hi, hi, Array.getElem?_setIfInBounds_self_of_lt (by omega)]
  rw [if_neg hi, Array.getElem?_setIfInBounds_ne (Ne.symm hi)]
  split
  · next hw =>
    have hslots := Value.slots_of_isWide hw.1
    exact (h.top i (by omega) (by omega)).symm
  · rw [if_neg]
    rintro ⟨hi, hw⟩
    have hget := @Array.getElem?_eq_getElem _ locals i (by omega)
    rw [hget] at hw
    exact h.before i _ hi hget hw

theorem Vacant.putLocal (h : Vacant locals slot) (hfits : slot + v.slots ≤ locals.size) :
    Vacant (putLocal locals slot v) (slot + v.slots) where
  top i hi hsize := by
    have hpos := v.slots_pos
    rw [size_putLocal] at hsize
    exact putLocal_top hfits (h.top i (by omega) hsize) (by omega)
  before i u hi hu := by
    by_cases hv : v.isWide = true
    · -- the second slot of the value
      have hslots := Value.slots_of_isWide hv
      rw [getElem?_putLocal hfits, if_neg (by omega), if_pos ⟨hv, by omega⟩] at hu
      cases hu
      decide
    · have hslots := Value.slots_of_not_isWide hv
      rw [getElem?_putLocal hfits, if_pos (by omega)] at hu
      cases hu
      exact hv

/-- Laying values out comes to storing them one after another. -/
theorem layOut_eq_ok : ∀ {vs : List Value} {slot : Nat} {locals locals' : Array Value},
    Vacant locals slot → layOut vs slot locals = .ok locals' →
      Fits locals (placed slot vs) ∧ locals' = putLocals locals (placed slot vs)
  | [], _, _, _, _, h => by
    cases h
    exact ⟨nofun, rfl⟩
  | v :: vs, slot, locals, locals', hv, h => by
    rw [layOut] at h
    split at h
    · next hfits =>
      rw [← hv.putLocal_eq hfits] at h
      obtain ⟨hf, rfl⟩ := layOut_eq_ok (hv.putLocal hfits) h
      refine ⟨fun s hs => ?_, rfl⟩
      rcases List.mem_cons.1 hs with rfl | hs
      · exact hfits
      · rw [← size_putLocal locals slot v]
        exact hf s hs
    · cases h

theorem vacant_replicate (n : Nat) : Vacant (Array.replicate n .top) 0 where
  top i _ hi := by
    rw [Array.size_replicate] at hi
    simp [hi]
  before i v hi := by omega

theorem paired_replicate (n : Nat) : Paired (Array.replicate n .top) := by
  intro i v hi hv
  rw [Array.getElem?_replicate] at hi
  split at hi
  · cases hi
    cases hv
  · cases hi

/-- A frame that is entered has the room of its code, and an operand stack with nothing on it. -/
theorem enter_room {r : MethodRef} {kind : FrameKind} {f : Frame} (h : Frame.enter r args kind = .ok f) :
    f.stack = .ofMax f.code.maxStack ∧
      layOut args 0 (Array.replicate f.code.maxLocals .top) = .ok f.locals := by
  unfold Frame.enter at h
  split at h
  · cases h
  · obtain ⟨locals, hl, h⟩ := except_bind_eq_ok.1 h
    cases h
    exact ⟨rfl, hl⟩

/-! ## Frames and what has been stored in them -/

/-- A frame that has been entered, and in which values have been stored one after another: the arguments
    first, and then some more in the course of work on the operand stack. -/
inductive Written : List (Nat × Value) → Frame → Prop
  | enters {r : MethodRef} {args : List Value} {kind : FrameKind} {f : Frame}
      (h : Frame.enter r args kind = .ok f) : Written (placed 0 args) f
  | operates {ws : List (Nat × Value)} {f f' : Frame} (h : Written ws f) (ho : f.Operates f') :
    Written ws f'
  | stores {ws : List (Nat × Value)} {f : Frame} {index : Nat} {v : Value} (h : Written ws f)
      (hs : f.checkSlots index v = .ok ()) : Written (ws ++ [(index, v)]) (f.put index v)

/-- A local variable is the value that was last stored there, unless a later store has touched its slots;
    then it is empty, and so is one in which nothing has been stored. -/
structure Recalls (f : Frame) (ws : List (Nat × Value)) : Prop where
  untouched : ∀ before i v after, ws = before ++ (i, v) :: after →
    (∀ s ∈ after, ¬ Touches i v s) → f.load i = .ok v
  touched : ∀ before i v after, ws = before ++ (i, v) :: after → (∀ s ∈ after, s.1 ≠ i) →
    (∃ s ∈ after, Touches i v s) → f.load i = .ok .top
  unset : ∀ i, i < f.locals.size → (∀ s ∈ ws, s.1 ≠ i) → f.load i = .ok .top
  beyond : ∀ i, f.locals.size ≤ i → f.load i = .error (.invalidLocal i f.locals.size)

variable {f f' : Frame} {host : Host} {id : ThreadId} {m m' : Machine}

theorem checkSlots_eq_ok : f.checkSlots index v = .ok () ↔ index + v.slots ≤ f.locals.size := by
  rw [checkSlots]
  split <;> simp_all

namespace Written

/-- The local variables are what the stores make of empty ones. -/
theorem locals_eq (h : Written ws f) : Fits (Array.replicate f.code.maxLocals .top) ws ∧
    f.locals = putLocals (Array.replicate f.code.maxLocals .top) ws := by
  induction h with
  | enters h => exact layOut_eq_ok (vacant_replicate _) (enter_room h).2
  | operates _ ho ih => rwa [ho.code_eq, ho.locals_eq]
  | @stores ws f index v _ hs ih =>
    obtain ⟨hf, hl⟩ := ih
    refine ⟨fun s hmem => ?_, ?_⟩
    · rcases List.mem_append.1 hmem with hmem | hmem
      · exact hf s hmem
      · obtain rfl := List.mem_singleton.1 hmem
        have hroom := checkSlots_eq_ok.1 hs
        rwa [hl, size_putLocals] at hroom
    · show putLocal f.locals index v = _
      rw [hl, putLocals_append]
      rfl

theorem recalls (h : Written ws f) : f.Recalls ws := by
  obtain ⟨hf, hl⟩ := h.locals_eq
  have stored {before after : List (Nat × Value)} {i : Nat} {v : Value}
      (e : ws = before ++ (i, v) :: after) :
      ∃ locals, Fits locals after ∧ locals[i]? = some v ∧ f.locals = putLocals locals after := by
    subst e
    rw [putLocals_append, putLocals_cons] at hl
    refine ⟨_, fun s hs => ?_, ?_, hl⟩
    · rw [size_putLocal, size_putLocals]
      exact hf s (List.mem_append_right before (List.mem_cons_of_mem _ hs))
    · have hroom : i + v.slots ≤ (putLocals (Array.replicate f.code.maxLocals .top) before).size := by
        rw [size_putLocals]
        exact hf (i, v) (List.mem_append_right before List.mem_cons_self)
      rw [getElem?_putLocal hroom, if_pos rfl]
  constructor
  · intro before i v after e ht
    obtain ⟨locals, hf, hi, hl⟩ := stored e
    exact load_eq_ok.2 (hl ▸ putLocals_untouched hf hi ht)
  · intro before i v after e hne ht
    obtain ⟨locals, hf, hi, hl⟩ := stored e
    exact load_eq_ok.2 (hl ▸ putLocals_touched hf hi hne ht)
  · intro i hi hne
    rw [hl, size_putLocals] at hi
    exact load_eq_ok.2 (hl ▸ putLocals_top hf ((vacant_replicate _).top i (Nat.zero_le i) hi) hne)
  · intro i hi
    rw [Frame.load, Array.getElem?_eq_none hi]

theorem paired (h : Written ws f) : Paired f.locals := by
  obtain ⟨hf, hl⟩ := h.locals_eq
  exact hl ▸ paired_putLocals hf (paired_replicate _)

theorem stack_sound (h : Written ws f) : f.stack.Sound ∧ f.stack.max = f.code.maxStack := by
  induction h with
  | enters h => rw [(enter_room h).1]; exact ⟨OperandStack.sound_ofMax _, rfl⟩
  | operates _ ho ih => exact ⟨ho.stack.sound ih.1, by rw [ho.stack.max, ih.2, ho.code_eq]⟩
  | stores _ _ ih => exact ih

/-- A store that succeeds is one more, and one that fails changes nothing. -/
theorem store (h : Written ws f) (index : Nat) (v : Value) (m : Machine) :
    (∃ e, outcome (FrameM.store index v) (f, m) = (.error e, f, m)) ∨
      outcome (FrameM.store index v) (f, m) = (.ok (), f.put index v, m) ∧
        Written (ws ++ [(index, v)]) (f.put index v) :=
  (FrameM.store_cases index v f m).imp_right fun hs => ⟨hs.2, h.stores hs.1⟩

/-- An instruction that succeeds has stored what it sets, and one that fails has stored nothing. -/
theorem executes (h : Written ws f) {x : Except Fault Next}
    (hx : outcome (Frame.execute host id) (f, m) = (x, f', m')) :
    (∀ next, x = .ok next → Written (ws ++ f.sets.toList) f') ∧
      ∀ e, x = .error e → Written ws f' ∧ f'.locals = f.locals := by
  have hsets := Frame.execute_sets host id f m
  rw [hx] at hsets
  cases hsets with
  | failed ho => exact ⟨nofun, fun e _ => ⟨h.operates ho, ho.locals_eq⟩⟩
  | none hw ho =>
    refine ⟨fun next _ => ?_, nofun⟩
    rw [hw, Option.toList_none, List.append_nil]
    exact h.operates ho
  | one hw ho hs =>
    refine ⟨fun next _ => ?_, nofun⟩
    rw [hw, Option.toList_some]
    exact (h.operates ho).stores hs

end Written

end Frame

end GreenVm
