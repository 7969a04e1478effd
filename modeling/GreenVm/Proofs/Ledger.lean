/-
  Every hold on a monitor is recorded in a frame of the thread that has it.

  * `Vm.Ledger`: no thread holds a monitor more often than its frames have recorded it, the holds
    included that it has given up for a wait and has to take back.
  * `Vm.keepsLocks`: over a run, every call that takes a lock goes as far as recording it.
  * `Vm.recorded_after`: the ledger is balanced in every state of such a run, so that a thread that has
    ended owns no monitor.
-/
import GreenVm.Proofs.Ledger.Others
import GreenVm.Proofs.Ledger.Step
import GreenVm.Proofs.Runs

namespace GreenVm

/-! ## Waking and pausing -/

namespace Thread

variable {t u : Thread}

theorem Eases.orderly (h : t.Eases u) (ho : t.Orderly) : u.Orderly := by
  induction h with
  | same => exact ho
  | resumed _ _ ih => exact ⟨fun _ => rfl, nofun, ih.reacquire_pos, nofun⟩
  | @notified u _ ih =>
    unfold Thread.notified
    split
    · next r c d hb =>
      refine ⟨fun _ => rfl, nofun, fun r' c' e => ?_, nofun⟩
      cases e
      exact ih.blocker_pos r c d hb
    · exact ⟨fun _ => rfl, nofun, ih.reacquire_pos,
        fun e => ⟨(ih.ended e).1, rfl, (ih.ended e).2.2⟩⟩

/-- Ending a wait turns holds that were saved with it into holds to be taken back. -/
theorem Eases.saved_le (h : t.Eases u) (r : Ref) : u.saved r ≤ t.saved r := by
  induction h with
  | same => exact le_rfl
  | @resumed u _ _ ih =>
    refine le_trans ?_ ih
    show 0 + _ ≤ _
    exact Nat.add_le_add_right (Nat.zero_le _) _
  | @notified u _ ih =>
    refine le_trans ?_ ih
    unfold Thread.notified
    split
    · next o c d hb =>
      simp only [saved, hb, Option.map_some, Option.getD_some, Blocker.saved]
      exact (Nat.zero_add _).trans_le (Nat.le_add_right _ _)
    · show 0 + _ ≤ _
      exact Nat.add_le_add_right (Nat.zero_le _) _

/-- So a thread whose holds are recorded can be woken. -/
theorem Eases.balanced (h : t.Eases u) {m : Machine} {r : Ref}
    (hb : m.holds t.id r + t.saved r ≤ t.recorded r) :
    m.holds u.id r + u.saved r ≤ u.recorded r := by
  have := h.saved_le r
  rw [h.id_eq, recorded, h.frames_eq]
  show _ ≤ t.recorded r
  omega

theorem suspended_orderly {s : Suspend} {b : Blocker} (ho : t.Orderly) (hb : Blocker.IsFor s b)
    (hp : ∀ r c d, s = .wait r c d → 1 ≤ c) : (t.suspended b).Orderly := by
  unfold suspended
  split
  · refine ⟨nofun, fun r c d e => ?_, ho.reacquire_pos, nofun⟩
    cases e
    cases s with
    | wait r' c' millis =>
      obtain ⟨d', hb⟩ := hb
      cases hb
      exact hp _ _ _ rfl
    | join t => cases hb
    | sleep millis => obtain ⟨d', hb⟩ := hb; cases hb
    | yield => cases hb
  · exact ho

/-- A pause saves no more than the holds that were given up for it. -/
theorem suspended_saved_le {m : Machine} {s : Suspend} {b : Blocker} (ho : t.Orderly)
    (hs : m.requests.suspend = some s) (hb : Blocker.IsFor s b) (r : Ref) :
    (t.suspended b).saved r ≤ t.saved r + m.pending r := by
  unfold suspended
  split
  · next hr =>
    have hp : b.saved r = m.pending r := by
      unfold Machine.pending
      rw [hs]
      cases s with
      | wait o c millis => obtain ⟨d, rfl⟩ := hb; rfl
      | join u => cases hb; rfl
      | sleep millis => obtain ⟨d, rfl⟩ := hb; rfl
      | yield => cases hb
    simp only [saved, ho.unblocked hr, Option.map_some, Option.getD_some, Option.map_none,
      Option.getD_none, hp]
    omega
  · exact Nat.le_add_right _ _

/-- A thread whose step is over can be woken, and may then pause as it has asked. -/
theorem settled_of_rested {id : ThreadId} {s : Thread × Machine} (h : Rested id s) (he : s.1.Eases t)
    (hu : u = t ∨ ∃ p b, s.2.requests.suspend = some p ∧ Blocker.IsFor p b ∧ u = t.suspended b) :
    (∀ r, s.2.holds u.id r + u.saved r ≤ u.recorded r) ∧ u.Orderly := by
  have ho := he.orderly h.orderly
  have hb (r : Ref) : s.2.holds t.id r + t.saved r + s.2.pending r ≤ t.recorded r := by
    have := h.balanced r
    have := he.saved_le r
    rw [he.id_eq, h.id_eq, recorded, he.frames_eq]
    show _ ≤ s.1.recorded r
    omega
  rcases hu with rfl | ⟨p, b, hs, hp, rfl⟩
  · exact ⟨fun r => (Nat.le_add_right _ _).trans (hb r), ho⟩
  · refine ⟨fun r => ?_, suspended_orderly ho hp fun r c d e => h.pending_pos r c d (e ▸ hs)⟩
    obtain ⟨hi, hf⟩ := suspended_id t b
    have := suspended_saved_le ho hs hp r
    have := hb r
    rw [hi, recorded, hf]
    show _ ≤ t.recorded r
    omega

/-- A thread that has not run has recorded nothing and saved nothing. -/
theorem IsNew.orderly (h : t.IsNew) : t.Orderly := by
  obtain ⟨method, args, h⟩ := h
  rw [h]
  exact ⟨fun _ => rfl, nofun, nofun, nofun⟩

theorem IsNew.saved_eq (h : t.IsNew) (r : Ref) : t.saved r = 0 := by
  obtain ⟨method, args, h⟩ := h
  rw [h]
  rfl

end Thread

/-! ## The ledger of a virtual machine -/

namespace Vm

/-- Whether the call that the next turn makes, if it makes one and gets the lock for it, goes ahead
    with the lock. -/
def keepsLock (host : Host) (vm : Vm) : Bool := vm.next?.all fun (t, m) => t.keepsLock host m

/-- Whether all calls over a run that take a lock go ahead with it. -/
def keepsLocks (host : Host) : Vm → List Action → Bool
  | _, [] => true
  | vm, a :: as => (a != .turn || vm.keepsLock host) && keepsLocks host (vm.act host a) as

/-- Between turns, no thread holds a monitor more often than its frames have recorded it. -/
structure Ledger (vm : Vm) : Prop where
  counted : vm.machine.Counted
  noWait : ∀ w, vm.machine.requests.suspend = some w → ¬ w.IsWait
  spawned : ∀ t ∈ vm.machine.requests.spawned, t.IsNew
  holders : ∀ u r, 1 ≤ vm.machine.holds u r → u ∈ vm.ids
  balanced : ∀ {j : Nat} {t : Thread}, vm.threads[j]? = some t →
    ∀ r, vm.machine.holds t.id r + t.saved r ≤ t.recorded r
  orderly : ∀ {j : Nat} {t : Thread}, vm.threads[j]? = some t → t.Orderly

variable {vm vm' : Vm} {host : Host}

namespace Ledger

/-- Quiet work between turns, and ending the waiting of threads. -/
theorem eased (h : Ledger vm) (he : Eased vm.threads vm'.threads)
    (hl : LeavesLocks vm.machine vm'.machine) : Ledger vm' where
  counted := hl.counted h.counted
  noWait := fun w e hw => h.noWait w (hl.suspend w e hw) hw
  spawned := by
    obtain ⟨ts, e, hn⟩ := hl.spawned
    intro t ht
    rw [e] at ht
    exact (List.mem_append.1 ht).elim (h.spawned t) (hn t)
  holders := fun u r hp => by
    rw [hl.holds_eq] at hp
    rw [show vm'.ids = vm.ids from he.ids_eq]
    exact h.holders u r hp
  balanced := fun hu r => by
    obtain ⟨t, ht, hu⟩ := he.get? hu
    rw [hl.holds_eq]
    exact hu.balanced (h.balanced ht r)
  orderly := fun hu => by
    obtain ⟨t, ht, hu⟩ := he.get? hu
    exact hu.orderly (h.orderly ht)

/-- A step of one thread, what it asked for included. -/
theorem runThread (h : Ledger vm) (hh : host.Within LeavesLocks) {index : Nat} {t : Thread}
    (ht : vm.threads[index]? = some t) (hr : t.status = .runnable)
    (hk : t.keepsLock host vm.machine) (hd : (vm.runThread host index).ids.Nodup) :
    Ledger (vm.runThread host index) := by
  obtain ⟨hm, -⟩ := runThread_spec host ht
  obtain ⟨hothers, -, new, hnew, hnews⟩ := Thread.step_sparesOthers hh t vm.machine
  have hrest : Rested t.id ((t.step host).run vm.machine) := Thread.step_rested hh
    { id_eq := rfl, counted := h.counted, status_eq := hr, noWait := h.noWait
      balanced := h.balanced ht, orderly := h.orderly ht } hk
  have hids := runThread_ids host ht
  have hget {j : Nat} {u : Thread} (hu : (vm.runThread host index).threads[j]? = some u) :=
    runThread_get? host ht hu
  generalize (t.step host).run vm.machine = s at *
  have hspawned : ∀ u ∈ s.2.requests.spawned, u.IsNew := by
    intro u hu
    rw [hnew] at hu
    exact (List.mem_append.1 hu).elim (h.spawned u) (hnews u)
  have hholds (u : ThreadId) (r : Ref) : (vm.runThread host index).machine.holds u r =
      s.2.holds u r := by rw [hm]; rfl
  have hmem : t.id ∈ vm.ids :=
    List.mem_map_of_mem (Array.mem_toList_iff.2 (Array.mem_of_getElem? ht))
  rw [hids] at hd
  have hdisjoint := List.disjoint_of_nodup_append hd
  have holders (u : ThreadId) (r : Ref) (hu : 1 ≤ s.2.holds u r) : u ∈ vm.ids := by
    by_cases e : u = t.id
    · exact e ▸ hmem
    · exact h.holders u r (hothers u e r ▸ hu)
  refine
    { counted := by rw [hm]; exact hrest.counted
      noWait := fun w e => by rw [hm] at e; cases e
      spawned := fun u hu => by rw [hm] at hu; cases hu
      holders := fun u r hu => ?_
      balanced := fun {j u} hu r => ?_
      orderly := fun {j u} hu => ?_ }
  · rw [hids]
    exact List.mem_append_left _ (holders u r (hholds u r ▸ hu))
  · rw [hholds]
    rcases hget hu with ⟨hj, v, hv, hvu⟩ | ⟨-, v, hv, hu⟩ | hnewu
    · have hne : v.id ≠ t.id := fun e =>
        hj (index_eq (List.Nodup.of_append_left hd) hv ht e)
      exact hvu.balanced (hothers _ hne r ▸ h.balanced hv r)
    · exact (Thread.settled_of_rested hrest hv hu).1 r
    · have hn := hspawned u hnewu
      have : s.2.holds u.id r = 0 := by
        by_contra hne
        exact hdisjoint (holders u.id r (Nat.pos_of_ne_zero hne)) (List.mem_map_of_mem hnewu)
      rw [this, hn.saved_eq]
      exact Nat.zero_le _
  · rcases hget hu with ⟨-, v, hv, hvu⟩ | ⟨-, v, hv, hu⟩ | hnewu
    · exact hvu.orderly (h.orderly hv)
    · exact (Thread.settled_of_rested hrest hv hu).2
    · exact (hspawned u hnewu).orderly

/-- A thread that has not run comes after the others. -/
theorem push (h : Ledger vm) {t : Thread} (ht : t.IsNew) (hd : (vm.ids ++ [t.id]).Nodup) :
    Ledger { vm with threads := vm.threads.push t } where
  counted := h.counted
  noWait := h.noWait
  spawned := h.spawned
  holders := fun u r hu => by
    simp only [ids, Array.toList_push, List.map_append]
    exact List.mem_append_left _ (h.holders u r hu)
  balanced := fun {j u} hu r => by
    rw [Array.getElem?_push] at hu
    split at hu
    · cases hu
      have : vm.machine.holds t.id r = 0 := by
        by_contra hne
        exact List.disjoint_of_nodup_append hd (h.holders t.id r (Nat.pos_of_ne_zero hne))
          (List.mem_singleton.2 rfl)
      show vm.machine.holds t.id r + _ ≤ _
      rw [this, ht.saved_eq]
      exact Nat.zero_le _
    · exact h.balanced hu r
  orderly := fun {j u} hu => by
    rw [Array.getElem?_push] at hu
    split at hu
    · cases hu
      exact ht.orderly
    · exact h.orderly hu

theorem spawn (h : Ledger vm) {className methodName descriptor : String} {args : List Value}
    (hd : (vm.spawn className methodName descriptor args).2.ids.Nodup) :
    Ledger (vm.spawn className methodName descriptor args).2 := by
  obtain ⟨hm, hthreads⟩ := spawn_cases vm className methodName descriptor args
  have hl : LeavesLocks vm.machine (vm.spawn className methodName descriptor args).2.machine := by
    rw [hm]
    exact prepareThread_leavesLocks vm.machine
  generalize (vm.spawn className methodName descriptor args).2 = vm' at *
  rcases hthreads with ⟨-, -, hthreads⟩ | ⟨t, ht, hthreads⟩
  · exact h.eased (hthreads ▸ .refl _) hl
  · have hnew : t.IsNew := by
      obtain ⟨c, r, o, m₁, -, -, -, rfl, -⟩ := prepareThread_ok (Prod.ext ht rfl)
      exact ⟨_, _, rfl⟩
    have hids : vm'.ids = vm.ids ++ [t.id] := by simp [ids, hthreads]
    exact (h.push hnew (hids ▸ hd)).eased (hthreads ▸ .refl _) hl

/-- One turn. -/
theorem turn (h : Ledger vm) (hh : host.Within LeavesLocks) (hk : vm.keepsLock host)
    (hd : (vm.turn host).2.ids.Nodup) : Ledger (vm.turn host).2 := by
  have hchoose : Ledger vm.choose.2 :=
    h.eased (choose_eased wakesWithin_leavesLocks vm).1 (choose_eased wakesWithin_leavesLocks vm).2
  rcases turn_cases host vm with ⟨-, e | e⟩ | ⟨index, t, hnext, ht, hr, e⟩ <;> rw [e] at hd ⊢
  · exact h
  · exact hchoose
  · refine hchoose.runThread hh ht hr ?_ hd
    simpa [keepsLock, hnext] using hk

theorem act (h : Ledger vm) (hh : host.Within LeavesLocks) {a : Action}
    (hk : a = .turn → vm.keepsLock host) (hd : (vm.act host a).ids.Nodup) :
    Ledger (vm.act host a) := by
  cases a with
  | turn => exact h.turn hh (hk rfl) hd
  | spawn className methodName descriptor args => exact h.spawn hd
  | startMain mainClass args =>
    obtain ⟨vm', hvm, e⟩ := startMain_cases vm mainClass args
    have hl : Ledger vm' := by
      subst hvm
      exact h.eased (.refl _) (argumentArray_within vm.machine)
    have e : (vm.act host (.startMain mainClass args)) = vm' ∨ ∃ array,
      vm.act host (.startMain mainClass args) = _ := e
    rcases e with e | ⟨array, e⟩ <;> rw [e] at hd ⊢
    · exact hl
    · exact hl.spawn hd
  | register => exact h.eased (.refl _) (.of_same (fun _ => rfl) rfl)

/-- A machine that has just been set up. -/
theorem boot (config : Config) (classPath : Table String ClassFile) (wallClock : Nat) :
    Ledger (.boot config classPath wallClock) where
  counted := fun r => monitorAt_boot config classPath wallClock r ▸ Monitor.counted_default
  noWait := fun w e => by cases e
  spawned := fun u hu => by cases hu
  holders := fun u r hu => by
    rw [Machine.holds, monitorAt_boot] at hu
    cases hu
  balanced := fun hu => by simp [Vm.boot] at hu
  orderly := fun hu => by simp [Vm.boot] at hu

/-- A whole run. -/
theorem after (hh : host.Within LeavesLocks) : ∀ {as : List Action} {vm : Vm}, Ledger vm →
    vm.keepsLocks host as → (vm.after host as).ids.Nodup → Ledger (vm.after host as)
  | [], _, h, _, _ => h
  | a :: as, vm, h, hk, hd => by
    rw [keepsLocks, Bool.and_eq_true] at hk
    have hd' : (vm.act host a).ids.Nodup := hd.sublist (after_ids host _ as).sublist
    have h' : Ledger (vm.act host a) := h.act hh (fun ha => by simpa [ha] using hk.1) hd'
    show Ledger ((vm.act host a).after host as)
    exact after hh h' hk.2 hd

end Ledger

/-- Every hold on a monitor is recorded in a frame of its thread, with the holds that the thread has
    given up for a wait and takes back afterwards.  A thread that has ended owns no monitor. -/
def Recorded (vm : Vm) : Prop :=
  ∀ t ∈ vm.threads, ∀ r, vm.machine.holds t.id r + t.saved r ≤ t.recorded r ∧
    (t.status = .terminated → (vm.machine.monitorAt r).owner ≠ some t.id)

theorem Ledger.recorded (h : Ledger vm) : vm.Recorded := by
  intro t ht r
  obtain ⟨j, hj⟩ := Array.getElem?_of_mem ht
  have hb := h.balanced hj r
  refine ⟨hb, fun hs ho => ?_⟩
  have hheld : 1 ≤ vm.machine.holds t.id r := (h.counted r).owner_iff.1 ho
  have hnone : t.recorded r = 0 := by rw [Thread.recorded, ((h.orderly hj).ended hs).1]; rfl
  omega

/-- **No thread holds a monitor more often than its frames have recorded it**, as long as every call
    that takes a lock goes ahead with it and all threads have different ids. -/
theorem recorded_after (hh : host.Within LeavesLocks) (config : Config)
    (classPath : Table String ClassFile) (wallClock : Nat) (as : List Action)
    (hk : (boot config classPath wallClock).keepsLocks host as)
    (hd : ((boot config classPath wallClock).after host as).ids.Nodup) :
    ((boot config classPath wallClock).after host as).Recorded :=
  (Ledger.after hh (.boot config classPath wallClock) hk hd).recorded

/-- A main thread in the synchronized method it has called. -/
theorem recorded_after_call :
    (ofCaller "()V" []).keepsLocks .idle [.spawn "A" "main" "()V" [], .turn, .turn] ∧
      ((ofCaller "()V" []).after .idle [.spawn "A" "main" "()V" [], .turn, .turn]).ids.Nodup ∧
      ((ofCaller "()V" []).after .idle [.spawn "A" "main" "()V" [], .turn, .turn]).Recorded :=
  have h : (ofCaller "()V" []).keepsLocks .idle [.spawn "A" "main" "()V" [], .turn, .turn] ∧
      ((ofCaller "()V" []).after .idle [.spawn "A" "main" "()V" [], .turn, .turn]).ids.Nodup := by
    decide +kernel
  ⟨h.1, h.2, recorded_after Host.idle_within _ _ _ _ h.1 h.2⟩

/-- A method that has no room for its argument is never entered, but its lock stays with the thread,
    which ends with an engine error. -/
theorem not_recorded_after_call :
    ¬ ((ofCaller "(I)V" [.literal (.int 1)]).after .idle
      [.spawn "A" "main" "()V" [], .turn, .turn, .turn]).Recorded := by
  generalize hvm : (ofCaller "(I)V" [.literal (.int 1)]).after .idle
    [.spawn "A" "main" "()V" [], .turn, .turn, .turn] = vm
  have hend : vm.threads[0]?.any (fun t => t.status = .terminated ∧
      (vm.machine.monitorAt ⟨2⟩).owner = some t.id) := by
    rw [← hvm]
    decide +kernel
  obtain ⟨t, ht, hs⟩ := (Option.any_eq_true _ _).1 hend
  obtain ⟨hs, ho⟩ := of_decide_eq_true hs
  exact fun h => (h t (Array.mem_of_getElem? ht) ⟨2⟩).2 hs ho

end Vm

end GreenVm
