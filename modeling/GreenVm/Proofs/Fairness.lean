/-
  How threads share the turns.

  * `Vm.pick?_ahead`: the search for the next thread stops at the first one that can run, so it never
    goes past one.
  * `Vm.given`: the places of the threads that had a turn in a run.
  * `Vm.canRun_until_given`: a thread that can run goes on being able to until it has a turn, and no
    other thread has two turns before that.
-/
import GreenVm.Proofs.Runs

namespace GreenVm

namespace Thread

variable {t u : Thread}

/-- Ending the waiting of a thread that can run changes nothing about that. -/
theorem Eases.runnable (h : t.Eases u) (hr : t.status = .runnable) : u.status = .runnable := by
  induction h with
  | same => exact hr
  | resumed => rfl
  | notified _ ih =>
    unfold Thread.notified
    split
    · rfl
    · exact ih

end Thread

/-- Coming from a place and going round, one passes a second place no later than the third. -/
def Ahead (start last index : Nat) : Prop :=
  if start ≤ last then start ≤ index ∧ index ≤ last else start ≤ index ∨ index ≤ last

/-- Going on from just after a place before the last one keeps to what was ahead, and does not come by
    that place again. -/
theorem Ahead.next {start last i k : Nat} (h : Ahead start last i) (hi : i ≠ last)
    (hk : Ahead (i + 1) last k) : Ahead start last k := by
  unfold Ahead at *
  split at h <;> split at hk <;> split <;> omega

theorem Ahead.ne {last i k : Nat} (hi : i ≠ last) (hk : Ahead (i + 1) last k) : k ≠ i := by
  unfold Ahead at hk
  split at hk <;> omega

namespace Vm

variable {host : Host} {vm : Vm} {i j : Nat}

/-! ## Choosing -/

/-- Whether there is a thread at a place that can run. -/
def CanRun (vm : Vm) (j : Nat) : Prop := ∃ t, vm.threads[j]? = some t ∧ t.status = .runnable

theorem CanRun.lt (h : vm.CanRun j) : j < vm.threads.size := by
  obtain ⟨t, ht, -⟩ := h
  exact (Array.getElem?_eq_some_iff.1 ht).1

theorem CanRun.eased {vm' : Vm} (h : vm.CanRun j) (he : Eased vm.threads vm'.threads) :
    vm'.CanRun j := by
  obtain ⟨t, ht, hr⟩ := h
  obtain ⟨u, hu, htu⟩ := he.get?_of_get? ht
  exact ⟨u, hu, htu.runnable hr⟩

theorem canRun_iff (vm : Vm) (j : Nat) :
    vm.CanRun j ↔ vm.threads[j]?.any Thread.isRunnable = true := by
  simp [CanRun, Option.any_eq_true, Thread.isRunnable]

instance (vm : Vm) (j : Nat) : Decidable (vm.CanRun j) :=
  decidable_of_iff _ (canRun_iff vm j).symm

/-- The search goes on until it comes to a thread that can run. -/
theorem pickFrom?_first (ts : Array Thread) : ∀ (count start : Nat),
    (pickFrom? ts count start = none ∧
        ∀ k < count, ts[(start + k) % ts.size]?.any Thread.isRunnable = false) ∨
      ∃ k < count, pickFrom? ts count start = some ((start + k) % ts.size) ∧
        ∀ l < k, ts[(start + l) % ts.size]?.any Thread.isRunnable = false
  | 0, _ => .inl ⟨rfl, fun k hk => absurd hk (Nat.not_lt_zero k)⟩
  | count + 1, start => by
    unfold pickFrom?
    dsimp only
    split
    · exact .inr ⟨0, Nat.succ_pos _, rfl, fun l hl => absurd hl (Nat.not_lt_zero l)⟩
    · next hr =>
      have before {k : Nat} (h : ∀ l < k,
          ts[(start + 1 + l) % ts.size]?.any Thread.isRunnable = false) (l : Nat) (hl : l < k + 1) :
          ts[(start + l) % ts.size]?.any Thread.isRunnable = false := by
        cases l with
        | zero => exact Bool.eq_false_iff.2 hr
        | succ l =>
          have := h l (by omega)
          rwa [Nat.add_assoc, Nat.add_comm 1] at this
      rcases pickFrom?_first ts count (start + 1) with
        ⟨hn, h⟩ | ⟨k, hk, hs, h⟩
      · exact .inl ⟨hn, before h⟩
      · refine .inr ⟨k + 1, by omega, ?_, before h⟩
        rw [hs, Nat.add_assoc, Nat.add_comm 1]

/-- Every place is come by in going round once. -/
theorem exists_offset {n : Nat} (start : Nat) (hj : j < n) : ∃ k < n, (start + k) % n = j := by
  have hs := Nat.mod_lt start (Nat.zero_lt_of_lt hj)
  rcases Nat.lt_or_ge j (start % n) with h | h
  · refine ⟨j + n - start % n, by omega, ?_⟩
    rw [← Nat.mod_add_mod, Nat.add_sub_cancel' (by omega), Nat.add_mod_right, Nat.mod_eq_of_lt hj]
  · refine ⟨j - start % n, by omega, ?_⟩
    rw [← Nat.mod_add_mod, Nat.add_sub_cancel' h, Nat.mod_eq_of_lt hj]

/-- No thread is chosen just if none can run. -/
theorem pick?_eq_none_iff (vm : Vm) : vm.pick? = none ↔ ∀ j, ¬ vm.CanRun j := by
  rcases pickFrom?_first vm.threads vm.threads.size vm.cursor with
    ⟨hn, h⟩ | ⟨k, -, hs, -⟩
  · refine ⟨fun _ j hr => ?_, fun _ => hn⟩
    obtain ⟨k, hk, rfl⟩ := exists_offset vm.cursor hr.lt
    rw [canRun_iff, h k hk] at hr
    cases hr
  · refine ⟨fun hn => (nomatch hs.symm.trans hn), fun h => ?_⟩
    obtain ⟨t, ht, hr⟩ := pickFrom?_spec hs
    exact absurd ⟨t, ht, hr⟩ (h _)

/-- The search does not go past a thread that can run. -/
theorem pick?_ahead (hc : vm.cursor ≤ vm.threads.size) (hr : vm.CanRun j) (hp : vm.pick? = some i) :
    Ahead vm.cursor j i := by
  have hj := hr.lt
  rcases pickFrom?_first vm.threads vm.threads.size vm.cursor with
    ⟨hn, -⟩ | ⟨k, hk, hs, hbefore⟩
  · cases hn.symm.trans hp
  cases hs.symm.trans hp
  -- the search would have stopped at `j`, which is less than one round away
  have first (l : Nat) (hl : (vm.cursor + l) % vm.threads.size = j) : k ≤ l := by
    by_contra hlt
    rw [canRun_iff, ← hl, hbefore l (by omega)] at hr
    cases hr
  unfold Ahead
  split
  · next h =>
    have := first (j - vm.cursor) (by rw [Nat.add_sub_cancel' h, Nat.mod_eq_of_lt hj])
    rw [Nat.mod_eq_of_lt (by omega)]
    omega
  · next h =>
    have := first (j + vm.threads.size - vm.cursor) (by
      rw [Nat.add_sub_cancel' (by omega), Nat.add_mod_right, Nat.mod_eq_of_lt hj])
    rcases Nat.lt_or_ge (vm.cursor + k) vm.threads.size with hlt | hge
    · rw [Nat.mod_eq_of_lt hlt]
      omega
    · rw [Nat.mod_eq_sub_mod hge, Nat.mod_eq_of_lt (by omega)]
      omega

/-- Choosing changes the threads and the machine, and sets the clock. -/
theorem choose_cases (vm : Vm) : vm.choose.1 = vm.choose.2.pick? ∧
    ∃ threads machine clock, vm.choose.2 = { vm with threads, machine, clock } := by
  unfold choose
  dsimp only
  split
  · next hp => exact ⟨hp.symm, _, _, _, rfl⟩
  · next hp =>
    split
    · exact ⟨hp.symm, _, _, _, rfl⟩
    · exact ⟨rfl, _, _, _, rfl⟩

/-- The place of the thread that has the next turn. -/
def picked? (vm : Vm) : Option Nat := if vm.exitStatus.isSome then none else vm.choose.1

/-- A turn in which no thread makes a step. -/
theorem turn_of_not_picked (host : Host) (h : vm.picked? = none) :
    vm.exitStatus.isSome ∧ vm.turn host = (.exited, vm) ∨
      vm.exitStatus = none ∧ vm.choose.1 = none ∧ vm.turn host = (.idle, vm.choose.2) := by
  cases hx : vm.exitStatus with
  | some status => exact .inl ⟨rfl, by simp [turn, hx]⟩
  | none =>
    rcases hc : vm.choose with ⟨_ | index, vm'⟩
    · exact .inr ⟨rfl, rfl, by simp [turn, hx, hc]⟩
    · simp [picked?, hx, hc] at h

/-- A turn in which a thread makes a step. -/
theorem turn_of_picked (host : Host) (h : vm.picked? = some i) :
    vm.exitStatus = none ∧ vm.choose.1 = some i ∧
      (vm.turn host).2 = vm.choose.2.runThread host i := by
  cases hx : vm.exitStatus with
  | some status => simp [picked?, hx] at h
  | none =>
    rcases hc : vm.choose with ⟨_ | index, vm'⟩
    · simp [picked?, hx, hc] at h
    · cases show some index = some i by simpa [picked?, hx, hc] using h
      exact ⟨rfl, rfl, by simp [turn, hx, hc]⟩

/-! ## Turns over a run -/

/-- The places of the threads that are given a turn in a run, one after another. -/
def given (host : Host) : Vm → List Action → List Nat
  | _, [] => []
  | vm, a :: as => (if a = .turn then vm.picked?.toList else []) ++ given host (vm.act host a) as

theorem CanRun.choose (h : vm.CanRun j) : vm.choose.2.CanRun j :=
  h.eased (choose_eased wakesWithin_anything vm).1

/-- A thread that has no turn goes on being able to run while another one makes a step. -/
theorem CanRun.runThread (h : vm.CanRun j) (hi : vm.CanRun i) (hj : i ≠ j) :
    (vm.runThread host i).CanRun j := by
  obtain ⟨t, ht, -⟩ := hi
  obtain ⟨v, hv, hr⟩ := h
  obtain ⟨u, hu, ⟨-, hvu⟩ | ⟨e, -⟩⟩ := runThread_get?_of_get? host ht hv
  · exact ⟨u, hu, hvu.runnable hr⟩
  · exact absurd e.symm hj

/-- A turn that finds a thread that can run goes to that thread or to one before it, and the search
    for the next one begins just after. -/
theorem CanRun.turn (host : Host) (hr : vm.choose.2.CanRun j) (hx : vm.exitStatus = none) :
    ∃ i, vm.picked? = some i ∧ (i ≠ j → (vm.act host .turn).CanRun j) ∧
      (vm.act host .turn).cursor = i + 1 ∧ i + 1 ≤ (vm.act host .turn).threads.size ∧
      (vm.cursor ≤ vm.threads.size → Ahead vm.cursor j i) := by
  obtain ⟨hpick, threads, machine, clock, hchoose⟩ := choose_cases vm
  have hcursor : vm.choose.2.cursor = vm.cursor := by rw [hchoose]
  have hsize : vm.choose.2.threads.size = vm.threads.size := by
    have := congrArg List.length (choose_ids vm)
    simpa [ids] using this
  cases hc : vm.choose.1 with
  | none => exact absurd hr ((pick?_eq_none_iff _).1 (hpick.symm.trans hc) j)
  | some i =>
    have hp : vm.picked? = some i := by simp [picked?, hx, hc]
    obtain ⟨-, -, e⟩ := turn_of_picked host hp
    obtain ⟨t, ht, hrun⟩ := pickFrom?_spec (hpick.symm.trans hc)
    replace e : vm.act host .turn = vm.choose.2.runThread host i := e
    refine ⟨i, hp, fun hi => e ▸ hr.runThread ⟨t, ht, hrun⟩ hi, by rw [e]; rfl, ?_, fun h => ?_⟩
    · rw [e]
      obtain ⟨u, hu, -⟩ := runThread_get?_of_get? host ht ht
      exact (Array.getElem?_eq_some_iff.1 hu).1
    · have := pick?_ahead (by rw [hcursor, hsize]; exact h) hr (hpick.symm.trans hc)
      rwa [hcursor] at this

/-- Until a thread that can run has a turn, the turns go to others that come before it. -/
theorem CanRun.given {as : List Action} (hr : vm.CanRun j ∨
      as.head? = some .turn ∧ vm.exitStatus = none ∧ vm.choose.2.CanRun j)
    (hj : j ∉ vm.given host as) :
    (vm.after host as).CanRun j ∧ (vm.given host as).Nodup ∧
      (vm.cursor ≤ vm.threads.size → ∀ k ∈ vm.given host as, Ahead vm.cursor j k) := by
  induction as generalizing vm with
  | nil =>
    rcases hr with hr | ⟨h, -⟩
    · exact ⟨hr, List.nodup_nil, fun _ k hk => absurd hk (List.not_mem_nil)⟩
    · cases h
  | cons a as ih =>
    rw [Vm.given] at hj ⊢
    by_cases ha : a = .turn
    · subst ha
      rw [if_pos rfl] at hj ⊢
      cases hx : vm.exitStatus with
      | some status =>
        have hr : vm.CanRun j := hr.resolve_right fun h => nomatch hx.symm.trans h.2.1
        have hp : vm.picked? = none := by simp [picked?, hx]
        have e : vm.act host .turn = vm := by simp [act, Vm.turn, hx]
        rw [hp, e, Option.toList_none, List.nil_append] at hj ⊢
        rw [after_cons, e]
        exact ih (.inl hr) hj
      | none =>
        have hr : vm.choose.2.CanRun j := hr.elim CanRun.choose fun h => h.2.2
        obtain ⟨i, hp, hrun, hcursor, hsize, hahead⟩ := hr.turn host hx
        rw [hp, Option.toList_some, List.singleton_append] at hj ⊢
        obtain ⟨hi, hj⟩ := not_or.1 (List.mem_cons.not.1 hj)
        obtain ⟨h, hn, hnext⟩ := ih (.inl (hrun (Ne.symm hi))) hj
        have hnext := hcursor ▸ hnext (hcursor ▸ hsize)
        refine ⟨h, List.nodup_cons.2 ⟨fun hm => ?_, hn⟩, fun hc k hk => ?_⟩
        · exact Ahead.ne (Ne.symm hi) (hnext i hm) rfl
        · rcases List.mem_cons.1 hk with rfl | hk
          · exact hahead hc
          · exact (hahead hc).next (Ne.symm hi) (hnext k hk)
    · rw [if_neg ha, List.nil_append] at hj ⊢
      obtain ⟨machine, new, e, -⟩ := act_appends host vm ha
      have hr : vm.CanRun j := hr.resolve_right fun h => ha (Option.some.inj h.1)
      obtain ⟨t, ht, hs⟩ := hr
      have hr : (vm.act host a).CanRun j := by
        refine ⟨t, ?_, hs⟩
        rw [e]
        exact (Array.getElem?_append_left (Array.getElem?_eq_some_iff.1 ht).1).trans ht
      obtain ⟨h, hn, hnext⟩ := ih (.inl hr) hj
      refine ⟨h, hn, fun hc => ?_⟩
      have hcursor : (vm.act host a).cursor = vm.cursor := by rw [e]
      rw [hcursor] at hnext
      refine hnext (hc.trans ?_)
      rw [e]
      simp

/-- **A thread that can run has its turn before any other has two**, and it can run until then.  It
    may have been able to run before, or have been woken just before the first turn. -/
theorem canRun_until_given {as : List Action} (hr : vm.CanRun j ∨
      as.head? = some .turn ∧ vm.exitStatus = none ∧ vm.choose.2.CanRun j)
    (hj : j ∉ vm.given host as) :
    (vm.after host as).CanRun j ∧ (vm.given host as).Nodup :=
  have h := CanRun.given hr hj
  ⟨h.1, h.2.1⟩

/-- The first of three threads waits while each of the others has a turn. -/
theorem canRun_until_given_three :
    let vm := (ofCaller "()V" []).after .idle [.spawn "A" "main" "()V" [],
      .spawn "A" "main" "()V" [], .spawn "A" "main" "()V" [], .turn]
    vm.CanRun 0 ∧ vm.given .idle [.turn, .turn] = [1, 2] ∧
      (vm.after .idle [.turn, .turn]).CanRun 0 := by
  have h : let vm := (ofCaller "()V" []).after .idle [.spawn "A" "main" "()V" [],
        .spawn "A" "main" "()V" [], .spawn "A" "main" "()V" [], .turn]
      vm.CanRun 0 ∧ vm.given .idle [.turn, .turn] = [1, 2] := by decide +kernel
  exact ⟨h.1, h.2, (canRun_until_given (.inl h.1) (by rw [h.2]; decide)).1⟩

end Vm

end GreenVm
