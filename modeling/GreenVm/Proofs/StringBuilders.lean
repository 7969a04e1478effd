/-
  Taking a string to pieces and putting it together again.

  * `inBasicPlane`: a text in which two replacement characters stand for every character that takes a
    surrogate pair; it is the text itself just if there is no such character.
  * `ofUnits_codeUnits`: so reads a text that is made of its code units one by one.
  * `NativeCall.respell`: the program that appends the units of a string to a new string builder.
  * `NativeCall.respells`: what it collects on the way and in the end.
-/
import GreenVm.Proofs.Strings

namespace GreenVm

open Exec

/-! ## Texts from units -/

/-- The character that stands for what is none. -/
def replacement : Char := Char.ofNat 0xFFFD

/-- A character of the basic plane, or what stands for the halves of one that takes a surrogate
    pair. -/
def halves (c : Char) : List Char := if c.val < 0x10000 then [c] else [replacement, replacement]

/-- The text in which two replacement characters stand for every one above the basic plane. -/
def inBasicPlane (s : String) : String := String.ofList (s.toList.flatMap halves)

/-- The text that single units make, each by itself. -/
def ofUnits (units : List UInt16) : String := String.ofList (units.map charOfUnit)

theorem charOfUnit_lt (u : UInt16) : (charOfUnit u).val < 0x10000 := by
  unfold charOfUnit
  split
  · rw [UInt32.lt_iff_toNat_lt, UInt16.toNat_toUInt32]
    exact u.toNat_lt
  · decide

/-- Half of a surrogate pair is no character. -/
theorem charOfUnit_surrogate {u : UInt16} (h : 0xD800 ≤ u.toNat) (h' : u.toNat < 0xE000) :
    charOfUnit u = replacement := dif_neg (by simp only [Nat.isValidChar]; omega)

theorem charOfUnit_of_lt {c : Char} (h : c.val < 0x10000) : charOfUnit c.val.toUInt16 = c := by
  have hval : c.val.toUInt16.toUInt32 = c.val := by
    apply UInt32.toNat_inj.1
    rw [UInt32.lt_iff_toNat_lt] at h
    rw [UInt16.toNat_toUInt32, UInt32.toNat_toUInt16]
    exact Nat.mod_eq_of_lt h
  have hnat : c.val.toUInt16.toNat = c.val.toNat := by rw [← UInt16.toNat_toUInt32, hval]
  have hvalid : c.val.toUInt16.toNat.isValidChar := hnat ▸ c.valid
  rw [charOfUnit, dif_pos hvalid]
  exact Char.ext hval

theorem charOfUnit_high {v : UInt32} (h : v.toNat < 0x100000) :
    charOfUnit ((0xD800 : UInt16) + (v >>> 10).toUInt16) = replacement := by
  have hshift : (v >>> 10).toNat = v.toNat / 1024 := by
    rw [UInt32.toNat_shiftRight, Nat.shiftRight_eq_div_pow]
    rfl
  have hunit : ((0xD800 : UInt16) + (v >>> 10).toUInt16).toNat = 0xD800 + v.toNat / 1024 := by
    rw [UInt16.toNat_add, UInt32.toNat_toUInt16, hshift,
      show (0xD800 : UInt16).toNat = 0xD800 from rfl]
    omega
  exact charOfUnit_surrogate (by omega) (by omega)

theorem charOfUnit_low (v : UInt32) :
    charOfUnit ((0xDC00 : UInt16) + (v &&& 0x3FF).toUInt16) = replacement := by
  have hmask : (v &&& 0x3FF).toNat ≤ 0x3FF := by
    rw [UInt32.toNat_and]
    exact Nat.and_le_right
  have hunit : ((0xDC00 : UInt16) + (v &&& 0x3FF).toUInt16).toNat =
      0xDC00 + (v &&& 0x3FF).toNat := by
    rw [UInt16.toNat_add, UInt32.toNat_toUInt16, show (0xDC00 : UInt16).toNat = 0xDC00 from rfl]
    omega
  exact charOfUnit_surrogate (by omega) (by omega)

/-- The units of a character, each read by itself. -/
theorem map_unitsOfChar (c : Char) : (unitsOfChar c).map charOfUnit = halves c := by
  unfold unitsOfChar halves
  split
  · next h => rw [List.map_singleton, charOfUnit_of_lt h]
  · next h =>
    have hc : c.val.toNat < 0x110000 := by
      have := c.valid
      simp only [UInt32.isValidChar, Nat.isValidChar] at this
      omega
    have hle : 0x10000 ≤ c.val := UInt32.not_lt.1 h
    have hv : (c.val - 0x10000).toNat < 0x100000 := by
      rw [UInt32.toNat_sub_of_le _ _ hle, show (0x10000 : UInt32).toNat = 0x10000 from rfl]
      omega
    rw [List.map_cons, List.map_singleton, charOfUnit_high hv, charOfUnit_low]

theorem ofUnits_codeUnits (s : String) : ofUnits (codeUnits s) = inBasicPlane s := by
  rw [ofUnits, codeUnits, List.map_flatMap]
  simp only [map_unitsOfChar]
  rfl

theorem length_le_flatMap_halves (cs : List Char) : cs.length ≤ (cs.flatMap halves).length := by
  induction cs with
  | nil => exact le_rfl
  | cons c cs ih =>
    have hone : 1 ≤ (halves c).length := by unfold halves; split <;> simp
    rw [List.flatMap_cons, List.length_append, List.length_cons]
    omega

/-- Two characters in place of one leave no room for the others. -/
theorem flatMap_halves_eq_self_iff {cs : List Char} :
    cs.flatMap halves = cs ↔ ∀ c ∈ cs, c.val < 0x10000 := by
  induction cs with
  | nil => simp
  | cons c cs ih =>
    rw [List.flatMap_cons, List.forall_mem_cons, ← ih, halves]
    by_cases hc : c.val < 0x10000
    · rw [if_pos hc, List.singleton_append, List.cons.injEq]
      exact ⟨fun h => ⟨hc, h.2⟩, fun h => ⟨rfl, h.2⟩⟩
    · rw [if_neg hc]
      refine ⟨fun h => ?_, fun h => absurd h.1 hc⟩
      have hlength := congrArg List.length h
      have hle := length_le_flatMap_halves cs
      simp only [List.length_append, List.length_cons, List.length_nil] at hlength
      omega

/-- A text is left as it is just if no character takes a surrogate pair. -/
theorem inBasicPlane_eq_self_iff {s : String} :
    inBasicPlane s = s ↔ ∀ c ∈ s.toList, c.val < 0x10000 := by
  rw [← flatMap_halves_eq_self_iff, inBasicPlane]
  refine ⟨fun h => ?_, fun h => by rw [h, String.ofList_toList]⟩
  have hlist := congrArg String.toList h
  rwa [String.toList_ofList] at hlist

/-- Every unit makes one unit. -/
theorem unitCount_ofUnits (units : List UInt16) : unitCount (ofUnits units) = units.length := by
  rw [unitCount_eq_length, codeUnits, ofUnits, String.toList_ofList]
  induction units with
  | nil => rfl
  | cons u units ih =>
    rw [List.map_cons, List.flatMap_cons, List.length_append, ih, unitsOfChar,
      if_pos (charOfUnit_lt u), List.length_singleton, List.length_cons, Nat.add_comm]

/-! ## String builders -/

/-- The machine in which an object is a string builder that has collected a text. -/
def Machine.collecting (m : Machine) (b : Ref) (text : String) : Machine :=
  { m with heap := m.heap.update b fun o =>
      { o with payload := { o.payload with buffer := some text } } }

variable {m : Machine} {r b : Ref} {o : Object} {s text : String} {call : NativeCall}

namespace Machine

theorem get?_collecting (ho : m.heap.get? b = some o) :
    (m.collecting b text).heap.get? b =
      some { o with payload := { o.payload with buffer := some text } } :=
  Heap.get?_update_self ho

/-- Strings keep their texts. -/
theorem HasText.collecting (h : m.HasText r s) (b : Ref) (text : String) :
    (m.collecting b text).HasText r s := by
  obtain ⟨o, ho, hs⟩ := h
  by_cases hr : b = r
  · subst hr
    exact ⟨_, get?_collecting ho, hs⟩
  · exact ⟨o, (Heap.get?_update_of_ne hr).trans ho, hs⟩

theorem Complete.collecting (h : m.Complete) (b : Ref) (text : String) :
    (m.collecting b text).Complete := h.retains (.update fun _ _ => rfl)

end Machine

/-- Changing the payload of an object that is there. -/
theorem Exec.outcome_updatePayload (ho : m.heap.get? b = some o) (f : Payload → Payload) :
    outcome (updatePayload b f) m = (.ok (), { m with
      heap := m.heap.update b fun o => { o with payload := f o.payload } }) := by
  have hthere : outcome (discard (object b) : Exec PUnit) m = (.ok ⟨⟩, m) := by
    rw [outcome_discard, outcome_object ho]
    rfl
  rw [updatePayload, outcome_bind_ok hthere, outcome_updateObject]

namespace BuilderOp

theorem outcome_init (ho : m.heap.get? b = some o) :
    outcome ((Builtin.builder .init).run (call.on b [])) m = (.ok none, m.collecting b "") := by
  have hthis : outcome (liftM (call.on b []).this : Exec Ref) m = (.ok b, m) := rfl
  rw [Builtin.run, run, outcome_bind_ok hthis, outcome_bind_ok (outcome_updatePayload ho _),
    outcome_pure]
  rfl

/-- What a string builder has collected. -/
theorem outcome_collected (ho : m.heap.get? b = some o) {args : List Value} :
    outcome (call.on b args).collected (m.collecting b text) =
      (.ok (b, text), m.collecting b text) := by
  have hthis : outcome (liftM (call.on b args).this : Exec Ref) (m.collecting b text) =
      (.ok b, m.collecting b text) := rfl
  rw [NativeCall.collected, outcome_bind_ok hthis,
    outcome_bind_ok (outcome_object (Machine.get?_collecting ho))]
  rfl

theorem outcome_append (ho : m.heap.get? b = some o) {args : List Value} (more : String) :
    outcome ((call.on b args).append more) (m.collecting b text) =
      (.ok (some (.ofRef b)), m.collecting b (text ++ more)) := by
  have hset : outcome (updatePayload b fun p => { p with buffer := p.buffer.map (· ++ more) })
      (m.collecting b text) = (.ok (), m.collecting b (text ++ more)) := by
    rw [outcome_updatePayload (Machine.get?_collecting ho), Machine.collecting, Heap.update_update]
    rfl
  rw [NativeCall.append, outcome_bind_ok (outcome_collected ho)]
  dsimp only
  rw [outcome_bind_ok hset, outcome_pure]

theorem outcome_appendChar (ho : m.heap.get? b = some o) (i : Int32) :
    outcome ((Builtin.builder (.append .char)).run (call.on b [.int i])) (m.collecting b text) =
      (.ok (some (.ofRef b)),
        m.collecting b (text ++ String.ofList [charOfUnit i.toUInt32.toUInt16])) := by
  have htext : outcome (liftM (Primitive.text (.int i) .char) : Exec String) (m.collecting b text) =
      (.ok (String.ofList [charOfUnit i.toUInt32.toUInt16]), m.collecting b text) := rfl
  rw [Builtin.run, run, outcome_bind_ok (Builtin.outcome_arg rfl _), outcome_bind_ok htext,
    outcome_append ho]

theorem outcome_length (ho : m.heap.get? b = some o) :
    outcome ((Builtin.builder .length).run (call.on b [])) (m.collecting b text) =
      (.ok (some (.int (.ofNat (unitCount text)))), m.collecting b text) := by
  rw [Builtin.run, run, outcome_bind_ok (outcome_collected ho)]
  rfl

/-- A string builder gives a new string of what it has collected. -/
theorem outcome_toString (text : String) (call : NativeCall) (hm : m.Complete)
    (ho : m.heap.get? b = some o) :
    ∃ r m', outcome ((Builtin.builder .toString).run (call.on b [])) (m.collecting b text) =
        (.ok (some (.ofRef r)), m') ∧ m'.HasText r text ∧
      ∀ s t, m.HasText s t → m'.HasText s t := by
  obtain ⟨c, loaded, hnew⟩ := (hm.collecting b text).string text
  refine ⟨⟨(m.collecting b text).heap.objects.size⟩, _, ?_,
    ⟨.ofClass c { text := some text }, Heap.get?_allocate.trans (if_pos rfl), rfl⟩,
    fun s t hs => (hs.collecting b text).allocate loaded _⟩
  rw [Builtin.run, run, outcome_bind_ok (outcome_collected ho)]
  dsimp only
  rw [outcome_bind_ok hnew, outcome_pure]

end BuilderOp

/-- A string equals just those with its text. -/
theorem Machine.HasText.answers_equals {a : Ref} {t : String} (h : m.HasText r s)
    (h' : m.HasText a t) : m.Answers .equals r [.ofRef a] (.ok (.ofBool (t == s))) := by
  intro call
  obtain ⟨o, ho, ht⟩ := h'
  have hreference : outcome (liftM (Value.ofRef a).asReference : Exec (Option Ref)) m =
      (.ok (some a), m) := rfl
  rw [Builtin.run, StringOp.run, outcome_bind_ok (NativeCall.outcome_thisText h),
    outcome_bind_ok (Builtin.outcome_arg rfl m), outcome_bind_ok hreference]
  dsimp only
  rw [outcome_bind_ok (outcome_object ho), outcome_pure, ht]
  rfl

/-! ## From a string into a string builder -/

namespace NativeCall

/-- Makes an object an empty string builder and appends the first `n` characters of a string to it,
    one after the other. -/
def respell (call : NativeCall) (s b : Ref) (n : Nat) : Exec Unit := do
  discard <| (Builtin.builder .init).run (call.on b [])
  (List.range n).forM fun i => do
    let unit ← (Builtin.string .charAt).run (call.on s [.int (.ofNat i)])
    discard <| (Builtin.builder (.append .char)).run (call.on b unit.toList)

/-- One round: the unit at an index is found, and its character appended. -/
theorem outcome_round (call : NativeCall) (hs : m.HasText r s) (ho : m.heap.get? b = some o)
    {i : Nat} (hi : i < unitCount s) (hint : i < 0x80000000) :
    outcome (do
        let unit ← (Builtin.string .charAt).run (call.on r [.int (.ofNat i)])
        discard <| (Builtin.builder (.append .char)).run (call.on b unit.toList) : Exec Unit)
      (m.collecting b (ofUnits ((codeUnits s).take i))) =
        (.ok (), m.collecting b (ofUnits ((codeUnits s).take (i + 1)))) := by
  have hlt : i < (codeUnits s).length := unitCount_eq_length s ▸ hi
  have hunit : unitAt s (.ofNat i) = .ok (codeUnits s)[i] :=
    unitAt_of_some (Int32.toInt_ofNat_of_lt hint)
      ((unitAt?_eq_getElem? s i).trans (List.getElem?_eq_getElem hlt))
  have hchar := (hs.collecting b (ofUnits ((codeUnits s).take i))).answers_charAt (.ofNat i) call
  rw [hunit] at hchar
  have hback : ((codeUnits s)[i]).toUInt32.toInt32.toUInt32.toUInt16 = (codeUnits s)[i] := by
    simp
  have hnext : ofUnits ((codeUnits s).take (i + 1)) =
      ofUnits ((codeUnits s).take i) ++ String.ofList [charOfUnit (codeUnits s)[i]] := by
    rw [ofUnits, List.take_succ_eq_append_getElem hlt, List.map_append, String.ofList_append]
    rfl
  rw [outcome_bind_ok hchar, outcome_discard]
  show ((outcome ((Builtin.builder (.append .char)).run _) _).1.map _, _) = _
  rw [Option.toList_some, BuilderOp.outcome_appendChar ho, hback, hnext]
  rfl

/-- What the builder has collected after any number of rounds. -/
theorem outcome_respell (call : NativeCall) (hs : m.HasText r s) (ho : m.heap.get? b = some o)
    {n : Nat} (hn : n ≤ unitCount s) (hint : n ≤ 0x80000000) :
    outcome (call.respell r b n) m = (.ok (), m.collecting b (ofUnits ((codeUnits s).take n))) := by
  obtain ⟨m', hloop, rfl⟩ := exists_outcome_forM_range (n := n) (s := m.collecting b "")
    (I := fun i m' => m' = m.collecting b (ofUnits ((codeUnits s).take i)))
    (fun i m' hi hm' => ⟨_, hm' ▸ outcome_round call hs ho (hi.trans_le hn)
      (hi.trans_le hint), rfl⟩) rfl
  rw [respell, outcome_bind, outcome_discard, BuilderOp.outcome_init ho]
  exact hloop

/-- **A string that is taken to pieces and put together again.**  Appended one by one, the characters
    of a string make a builder as long as their number, and in the end a new string.  Its text is that
    of the string, but for the characters that take a surrogate pair: their halves are no characters,
    and each is replaced.  So the two strings are equal just if there are none of these. -/
theorem respells (hm : m.Complete) (hs : m.HasText r s) (ho : m.heap.get? b = some o)
    (call : NativeCall) :
    (∀ i : Nat, i ≤ unitCount s → i < 0x80000000 → ∃ (m' : Machine) (n : Int32),
      outcome (call.respell r b i) m = (.ok (), m') ∧
        outcome ((Builtin.builder .length).run (call.on b [])) m' = (.ok (some (.int n)), m') ∧
        n.toInt = i) ∧
    (unitCount s < 0x80000000 → ∃ (n : Int32) (m' : Machine) (c : Ref) (m'' : Machine) (x : Bool),
      m.Answers .length r [] (.ok (.int n)) ∧ n.toInt = unitCount s ∧
        outcome (call.respell r b n.toInt.toNat) m = (.ok (), m') ∧
        outcome ((Builtin.builder .toString).run (call.on b [])) m' =
          (.ok (some (.ofRef c)), m'') ∧
        m''.HasText r s ∧ m''.HasText c (inBasicPlane s) ∧
        m''.Answers .equals r [.ofRef c] (.ok (.ofBool x)) ∧
        (x = true ↔ ∀ ch ∈ s.toList, ch.val < 0x10000)) := by
  constructor
  · intro i hi hint
    refine ⟨_, _, outcome_respell call hs ho hi hint.le, BuilderOp.outcome_length ho, ?_⟩
    rw [unitCount_ofUnits, List.length_take_of_le (unitCount_eq_length s ▸ hi)]
    exact Int32.toInt_ofNat_of_lt hint
  · intro hint
    have hn : (Int32.ofNat (unitCount s)).toInt = unitCount s := toInt_unitCount hint
    have hrun := outcome_respell call hs ho le_rfl hint.le
    rw [unitCount_eq_length, List.take_length, ofUnits_codeUnits, ← unitCount_eq_length] at hrun
    obtain ⟨c, m'', hgives, hc, hkept⟩ :=
      BuilderOp.outcome_toString (inBasicPlane s) call hm ho
    refine ⟨_, _, c, m'', _, hs.answers_length, hn, ?_, hgives, hkept _ _ hs, hc,
      (hkept _ _ hs).answers_equals hc, ?_⟩
    · rwa [hn, Int.toNat_natCast]
    · rw [beq_iff_eq, inBasicPlane_eq_self_iff]

end NativeCall

/-- A machine with a string and an object that is to become a string builder. -/
def Machine.withBuilder (s : String) : Machine :=
  (outcome (discard (newObject ClassName.stringBuilder) : Exec Unit) (.ofTexts [s])).2

theorem Machine.complete_withBuilder (s : String) : (withBuilder s).Complete := by
  rw [withBuilder]
  exact .kept (.discard newObject_within) _ (complete_ofTexts [s])

/-- All of a text from the basic plane comes back. -/
theorem NativeCall.respells_plain :
    (Machine.withBuilder "aß€").Complete ∧ (Machine.withBuilder "aß€").HasText ⟨0⟩ "aß€" ∧
      (∃ o, (Machine.withBuilder "aß€").heap.get? ⟨1⟩ = some o ∧
        o.type.name = ClassName.stringBuilder) ∧
      ∃ (m' : Machine) (c : Ref) (m'' : Machine),
        outcome ((default : NativeCall).respell ⟨0⟩ ⟨1⟩ 3) (.withBuilder "aß€") = (.ok (), m') ∧
          outcome ((Builtin.builder .toString).run ((default : NativeCall).on ⟨1⟩ [])) m' =
            (.ok (some (.ofRef c)), m'') ∧
          m''.Answers .equals ⟨0⟩ [.ofRef c] (.ok (.ofBool true)) := by
  have hm := Machine.complete_withBuilder "aß€"
  obtain ⟨htext, hbuilder⟩ : ((Machine.withBuilder "aß€").heap.get? ⟨0⟩).any
        (·.payload.text == some "aß€") = true ∧
      ((Machine.withBuilder "aß€").heap.get? ⟨1⟩).any
        (·.type.name == ClassName.stringBuilder) = true := by
    decide +kernel
  have hs := Machine.hasText_of_any htext
  obtain ⟨o, ho, htype⟩ := (Option.any_eq_true _ _).1 hbuilder
  have hcount : unitCount "aß€" = 3 := by decide +kernel
  obtain ⟨n, m', c, m'', x, -, hn, hrun, hgives, -, -, hequals, hx⟩ :=
    (respells hm hs ho default).2 (by rw [hcount]; decide)
  rw [hn, hcount] at hrun
  have hall : "aß€".toList.all (fun ch => ch.val < 0x10000) = true := by decide +kernel
  obtain rfl : x = true := hx.2 fun ch hch => of_decide_eq_true (List.all_eq_true.1 hall ch hch)
  exact ⟨hm, hs, ⟨o, ho, eq_of_beq htype⟩, m', c, m'', hrun, hgives, hequals⟩

/-- A clef does not: two replacement characters come back for its halves. -/
theorem NativeCall.not_respells_clef :
    (outcome (do
        let call : NativeCall := default
        call.respell ⟨0⟩ ⟨1⟩ 2
        let c ← (Builtin.builder .toString).run (call.on ⟨1⟩ [])
        let length ← (Builtin.builder .length).run (call.on ⟨1⟩ [])
        let equal ← (Builtin.string .equals).run (call.on ⟨0⟩ c.toList)
        return (length, equal) : Exec (Option Value × Option Value))
      (Machine.withBuilder "𝄞")).1.toOption = some (some (.int 2), some (.ofBool false)) := by
  decide +kernel

end GreenVm
