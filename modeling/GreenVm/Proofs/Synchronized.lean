/-
  Synchronized methods exclude one another, if they are called.

  * `Vm.Enters`: the next turn pushes the frame of a synchronized method.
  * `Vm.GivesUp`: in the next turn a thread may lose its hold on a monitor, by its own doing.
  * `Vm.enters_guarded`: a frame that a call has pushed is guarded by its lock, and no other thread
    calls a method that is guarded by the same lock until this thread has given it up.  The frame of
    an entry method, though, has recorded nothing.
-/
import GreenVm.Proofs.Ledger.Others
import GreenVm.Proofs.Releasing
import GreenVm.Proofs.Runs

namespace GreenVm

namespace Vm

/-- The thread that pushes a frame in the next turn, as it is before, and the frame. -/
def pushed? (host : Host) (vm : Vm) : Option (Thread × Frame) :=
  match vm.next? with
  | some (t, m) =>
    match ((t.step host).run m).1.frames with
    | f :: rest => if rest.length = t.frames.length then some (t, f) else none
    | [] => none
  | none => none

/-- The next turn pushes the frame of a synchronized method. -/
def Enters (host : Host) (vm : Vm) (t : Thread) (f : Frame) : Prop :=
  vm.pushed? host = some (t, f) ∧ f.kind = .method ∧ f.method.method.isSynchronized = true

/-- The next turn is that of a thread which may lose its hold on a monitor in it: it leaves a frame
    that has recorded the monitor, executes an instruction that leaves it, or waits there. -/
def GivesUp (host : Host) (vm : Vm) (id : ThreadId) (lock : Ref) : Prop :=
  ∃ t m, vm.next? = some (t, m) ∧ t.id = id ∧ t.GivesUp host m lock

variable {host : Host} {vm : Vm} {t : Thread} {f : Frame} {id : ThreadId} {lock : Ref}

/-! ## Keeping a monitor -/

/-- Nobody takes a monitor from a thread that holds it. -/
theorem act_givesUp (hh : host.Within LeavesLocks) {a : Action}
    (h : 1 ≤ vm.machine.holds id lock) (h' : (vm.act host a).machine.holds id lock = 0) :
    a = .turn ∧ vm.GivesUp host id lock := by
  by_cases ha : a = .turn
  · subst ha
    refine ⟨rfl, ?_⟩
    have hchoose : LeavesLocks vm.machine vm.choose.2.machine :=
      (choose_eased wakesWithin_leavesLocks vm).2
    replace h' : (vm.turn host).2.machine.holds id lock = 0 := h'
    rcases turn_cases host vm with ⟨-, e | e⟩ | ⟨index, t, hnext, ht, -, e⟩ <;> rw [e] at h'
    · omega
    · rw [hchoose.holds_eq] at h'
      omega
    · rw [(runThread_spec host ht).1] at h'
      replace h' : ((t.step host).run vm.choose.2.machine).2.holds id lock = 0 := h'
      rw [← hchoose.holds_eq] at h
      by_cases hid : t.id = id
      · subst hid
        exact ⟨t, _, hnext, rfl, Thread.step_givesUp hh h h'⟩
      · rw [(Thread.step_sparesOthers hh t _).holds_eq id (Ne.symm hid)] at h'
        omega
  · rw [(act_leavesLocks ha).holds_eq] at h'
    omega

/-- A monitor that a thread has lost over a run was given up in a turn of its own. -/
theorem after_givesUp (hh : host.Within LeavesLocks) : ∀ {as : List Action} {vm : Vm},
    1 ≤ vm.machine.holds id lock → (vm.after host as).machine.holds id lock = 0 →
    ∃ bs cs, as = bs ++ .turn :: cs ∧ (vm.after host bs).GivesUp host id lock
  | [], vm, h, h' => by
    rw [after_nil] at h'
    omega
  | a :: as, vm, h, h' => by
    by_cases ha : (vm.act host a).machine.holds id lock = 0
    · obtain ⟨rfl, hg⟩ := act_givesUp hh h ha
      exact ⟨[], as, rfl, hg⟩
    · obtain ⟨bs, cs, rfl, hg⟩ := after_givesUp hh (Nat.one_le_iff_ne_zero.2 ha) h'
      exact ⟨a :: bs, cs, rfl, hg⟩

/-! ## Entering methods -/

theorem pushed?_eq_some (h : vm.pushed? host = some (t, f)) :
    ∃ m rest, vm.next? = some (t, m) ∧ ((t.step host).run m).1.frames = f :: rest ∧
      rest.length = t.frames.length ∧
      (vm.turn host).2.machine = { ((t.step host).run m).2 with requests := {} } := by
  unfold pushed? at h
  split at h
  · next u m hnext =>
    split at h
    · next g rest hf =>
      split at h
      · next hlen =>
        cases h
        refine ⟨m, rest, hnext, hf, hlen, ?_⟩
        rcases turn_cases host vm with ⟨e, -⟩ | ⟨index, u, e, hu, -, hturn⟩
        · cases e.symm.trans hnext
        · cases e.symm.trans hnext
          rw [hturn]
          exact (runThread_spec host hu).1
      · cases h
    · cases h
  · cases h

namespace Enters

/-- The frame of a call has its lock recorded. -/
theorem guarded (h : vm.Enters host t f) (hf : t.frames ≠ []) :
    ∃ lock, f.Guarded t.id (vm.turn host).2.machine lock := by
  obtain ⟨hp, hkind, hsync⟩ := h
  obtain ⟨m, rest, -, hs, hlen, hm⟩ := pushed?_eq_some hp
  rcases Thread.step_callPushed host hf m with hlow | ⟨g, fs, hg, -, hfit⟩
  · rw [AtMost, hs, List.length_cons] at hlow
    omega
  · obtain ⟨rfl, -⟩ := List.cons.inj (hs.symm.trans hg)
    obtain ⟨lock, hl⟩ := hfit hkind hsync
    rw [hm]
    exact ⟨lock, hl.monitors_eq, hl.owner_eq, hl.count_pos, hl.static, hl.receiver⟩

/-- The frame of an entry method has nothing recorded. -/
theorem unguarded (h : vm.Enters host t f) (hf : t.frames = []) : f.monitors = [] := by
  obtain ⟨m, rest, -, hs, hlen, -⟩ := pushed?_eq_some h.1
  rcases Thread.step_entryPushed host hf m with hlow | ⟨g, hg, hm⟩
  · rw [AtMost, hs] at hlow
    cases hlow
  · obtain ⟨rfl, -⟩ := List.cons.inj (hs.symm.trans hg)
    exact hm

/-- Another thread that enters a method with the same lock finds it given up. -/
theorem excludes (hh : host.Within LeavesLocks) {u : Thread} {g : Frame} {as : List Action}
    (ht : f.Guarded t.id vm.machine lock) (hu : (vm.after host as).Enters host u g)
    (hg : g.Guarded u.id ((vm.after host as).turn host).2.machine lock) (hne : u.id ≠ t.id) :
    ∃ bs cs, as = bs ++ .turn :: cs ∧ (vm.after host bs).GivesUp host t.id lock := by
  refine after_givesUp hh ?_ ?_
  · rw [Machine.holds, Monitor.holds_eq_count ht.owner_eq]
    exact ht.count_pos
  · by_contra h
    have lost : ((vm.after host as).turn host).2.machine.holds t.id lock = 0 :=
      Monitor.holds_eq_zero fun e => hne (Option.some.inj (hg.owner_eq.symm.trans e))
    obtain ⟨-, v, m, hv, hid, -⟩ :=
      act_givesUp (a := .turn) hh (Nat.one_le_iff_ne_zero.2 h) lost
    obtain ⟨m', -, hnext, -⟩ := pushed?_eq_some hu.1
    cases hv.symm.trans hnext
    exact hne hid

end Enters

end Vm

end GreenVm
