/-
  Table switches and lookup switches.

  * `tablePairs low targets`: the keys of a table, each with its target.
  * `FrameM.lookupTarget_tablePairs`: searching the pairs finds what indexing the table does.
  * `Code.link_asLookup`: linking a table switch as a lookup switch gives the linked table switch as a
    lookup switch, and fails if that fails.
  * `Frame.execute_tableSwitch`: the two instructions do the same in every state.
-/
import GreenVm.Proofs.ElementAccess

namespace GreenVm

/-- The keys of a table that starts at `low`, each with its target. -/
def tablePairs (low : Int32) (targets : List Nat) : List (Int32 × Nat) :=
  targets.mapIdx fun i t => (.ofInt (low.toInt + i), t)

/-- A table switch as a lookup switch. -/
def Instruction.asLookup : Instruction → Instruction
  | .tableSwitch default low targets => .lookupSwitch default (tablePairs low targets)
  | i => i

variable {default t : Nat} {low key : Int32} {targets : List Nat}

/-! ## The keys of a table -/

theorem ofInt_eq_iff {n : Int} (hlow : Int32.minValue.toInt ≤ n) (hhigh : n ≤ Int32.maxValue.toInt) :
    Int32.ofInt n = key ↔ key.toInt = n := by
  rw [← Int32.toInt_inj, Int32.toInt_ofInt_of_le, eq_comm]
  · simpa using hlow
  · simp only [Int32.toInt_maxValue] at hhigh
    omega

/-- Searching the pairs of a table is indexing it.  The induction moves the start of the table up, which
    may leave the ints only where nothing is left of the table. -/
theorem find?_mapIdx_ofInt : ∀ {targets : List Nat} {start : Int}, Int32.minValue.toInt ≤ start →
    start + targets.length - 1 ≤ Int32.maxValue.toInt →
    ((targets.mapIdx fun i t => (Int32.ofInt (start + i), t)).find? fun p => p.1 = key).map Prod.snd =
      if key.toInt - start < 0 then none else targets[(key.toInt - start).toNat]?
  | [], _, _, _ => by simp
  | t :: targets, start, hstart, hfits => by
    have hlength : start + 1 + targets.length - 1 ≤ Int32.maxValue.toInt := by
      rw [List.length_cons] at hfits
      omega
    have ih := @find?_mapIdx_ofInt targets (start + 1) (by omega) hlength
    have hshift : (fun (i : Nat) (t : Nat) => (Int32.ofInt (start + (i + 1 : Nat)), t)) =
        fun (i : Nat) (t : Nat) => (Int32.ofInt (start + 1 + i), t) := by
      funext i t
      rw [Int.natCast_add, Int.natCast_one, Int.add_assoc, Int.add_comm 1]
    have hkey : Int32.ofInt (start + (0 : Nat)) = key ↔ key.toInt = start := by
      rw [Int.natCast_zero, Int.add_zero, ofInt_eq_iff hstart (by omega)]
    rw [List.mapIdx_cons, List.find?_cons, hshift]
    by_cases h : key.toInt = start
    · -- the key is that of the first entry
      simp only [hkey.2 h, decide_true, Option.map_some]
      simp [h]
    · simp only [mt hkey.1 h, decide_false, ih]
      rcases Int.lt_or_gt_of_ne h with hlt | hgt
      · rw [if_pos (by omega), if_pos (by omega)]
      · have hplace : (key.toInt - start).toNat = (key.toInt - (start + 1)).toNat + 1 := by omega
        rw [if_neg (by omega), if_neg (by omega), hplace, List.getElem?_cons_succ]

/-- Searching the pairs of a table finds what indexing the table does. -/
theorem FrameM.lookupTarget_tablePairs
    (hfits : low.toInt + targets.length - 1 ≤ Int32.maxValue.toInt) :
    lookupTarget default (tablePairs low targets) key = tableTarget default low targets key := by
  rw [lookupTarget, tablePairs, find?_mapIdx_ofInt (by simpa using low.minValue_le_toInt) hfits,
    tableTarget]
  split <;> rfl

/-- A search ends at a pair with the key, if there is one. -/
theorem FrameM.lookupTarget_cases (default : Nat) (pairs : List (Int32 × Nat)) (key : Int32) :
    (key, lookupTarget default pairs key) ∈ pairs ∨
      lookupTarget default pairs key = default ∧ ∀ t, (key, t) ∉ pairs := by
  rw [lookupTarget]
  cases hfind : pairs.find? fun p => p.1 = key with
  | none =>
    refine .inr ⟨rfl, fun t ht => ?_⟩
    simpa using List.find?_eq_none.1 hfind _ ht
  | some p =>
    obtain rfl : p.1 = key := by simpa using List.find?_some hfind
    exact .inl (List.mem_of_find?_eq_some hfind)

/-! ## Linking -/

section Linking

variable {f : Nat → Except EngineError Nat}

/-- Passing the targets in the pairs of a list through a function, and then pairing. -/
theorem mapM_mapIdx (g : Nat → Int32) (targets : List Nat) :
    (targets.mapIdx fun i t => (g i, t)).mapM (fun p => return (p.1, ← f p.2)) =
      (targets.mapM f).map fun ts => ts.mapIdx fun i t => (g i, t) := by
  induction targets generalizing g with
  | nil => rfl
  | cons t targets ih =>
    rw [List.mapIdx_cons, List.mapM_cons, List.mapM_cons, ih fun i => g (i + 1)]
    cases f t with
    | error e => rfl
    | ok k =>
      cases targets.mapM f with
      | error e => rfl
      | ok ks =>
        show Except.ok _ = Except.ok (List.mapIdx _ (k :: ks))
        rw [List.mapIdx_cons]

theorem Instruction.mapTargets_asLookup (i : Instruction) :
    i.asLookup.mapTargets f = (i.mapTargets f).map asLookup := by
  cases i with
  | tableSwitch d low targets =>
    simp only [asLookup, mapTargets, tablePairs, mapM_mapIdx]
    cases f d with
    | error e => rfl
    | ok k => cases targets.mapM f <;> rfl
  | lookupSwitch d pairs =>
    simp only [asLookup, mapTargets]
    cases f d with
    | error e => rfl
    | ok k => cases pairs.mapM (fun p => return (p.1, ← f p.2)) <;> rfl
  | branchZero c t | branchInts c t | branchSame c t | branchNull c t | goto t | jumpSubroutine t =>
    simp only [asLookup, mapTargets]
    cases f t <;> rfl
  | _ => rfl

end Linking

/-- Linking a table switch as a lookup switch gives the linked table switch as a lookup switch, and
    fails if that fails. -/
theorem Code.link_asLookup (method : String) (offsets : List Nat) (i : Instruction) :
    linkInstruction method offsets i.asLookup =
      (linkInstruction method offsets i).map Instruction.asLookup :=
  i.mapTargets_asLookup

/-! ## Executing -/

namespace Frame

/-- **A table switch jumps where the lookup switch jumps that has its default and, for every entry of the
    table, the pair of key and target**, as long as the keys are ints: in every state the two do the same.
    With an int on top, they take it and jump to the target that is paired with it, or to the default if
    it is paired with none. -/
theorem execute_tableSwitch (hfits : low.toInt + targets.length - 1 ≤ Int32.maxValue.toInt)
    (host : Host) (id : ThreadId) (f : Frame) (m : Machine) :
    outcome (FrameM.execute host id (.tableSwitch default low targets)) (f, m) =
        outcome (FrameM.execute host id (.lookupSwitch default (tablePairs low targets))) (f, m) ∧
      ∀ key vs, f.stack.values = .int key :: vs → ∃ (stack : OperandStack) (target : Nat),
        stack.values = vs ∧
        outcome (FrameM.execute host id (.tableSwitch default low targets)) (f, m) =
          (.ok (.jump target), { f with stack }, m) ∧
        ((key, target) ∈ tablePairs low targets ∨
          target = default ∧ ∀ t, (key, t) ∉ tablePairs low targets) := by
  have hsame : FrameM.execute host id (.tableSwitch default low targets) =
      FrameM.execute host id (.lookupSwitch default (tablePairs low targets)) := by
    simp only [FrameM.execute, FrameM.lookupTarget_tablePairs hfits]
  refine ⟨by rw [hsame], fun key vs hvs => ?_⟩
  obtain ⟨stack, hstack, hpop⟩ := FrameM.outcome_popInt hvs m
  refine ⟨stack, _, hstack, ?_, FrameM.lookupTarget_cases default (tablePairs low targets) key⟩
  rw [hsame, FrameM.execute, outcome_bind_ok hpop]
  rfl

/-- The largest int in a table that ends with it. -/
theorem execute_tableSwitch_extreme :
    (2147483646 : Int32).toInt + [10, 20].length - 1 ≤ Int32.maxValue.toInt ∧
      ∃ (f : Frame) (stack : OperandStack), f.stack.values = [.int 2147483647] ∧
        stack.values = [] ∧
        outcome (FrameM.execute .idle ⟨0⟩ (.tableSwitch 7 2147483646 [10, 20]))
            (f, (Inhabited.default : Machine)) =
          (.ok (.jump 20), { f with stack }, Inhabited.default) := by
  have hfits : (2147483646 : Int32).toInt + [10, 20].length - 1 ≤ Int32.maxValue.toInt := by decide
  let f : Frame := { (Inhabited.default : Frame) with
    stack := { values := [.int 2147483647], depth := 1, max := 1 } }
  obtain ⟨stack, target, hstack, hjump, htarget⟩ :=
    (@execute_tableSwitch 7 _ _ hfits .idle ⟨0⟩ f Inhabited.default).2 2147483647 [] rfl
  have hpairs : tablePairs 2147483646 [10, 20] = [(2147483646, 10), (2147483647, 20)] := by decide
  rw [hpairs] at htarget
  obtain rfl : target = 20 := by
    rcases htarget with h | ⟨-, h⟩
    · simpa using h
    · exact absurd (by simp) (h 20)
  exact ⟨hfits, f, stack, rfl, hstack, hjump⟩

end Frame

end GreenVm
