/-
  The status of a thread and the queues, wait sets and reservations of monitors agree.

  * `Vm.ended_after`: a thread that has ended stays as it is over every run.
  * `Vm.Agrees`: what the status and the blocker of a thread say about the monitors, and the other way
    round.
  * `Vm.agrees_after`: it holds in every state of every run in which all threads have different ids.
-/
import GreenVm.Proofs.Queues.Runs

namespace GreenVm

namespace Vm

variable {host : Host} {vm : Vm} {lost : List (String × ThreadId)} {j : Nat} {t : Thread}

/-! ## Threads that have ended -/

/-- A thread that has ended stays as it is, whatever happens next. -/
theorem ended_act (h : Initializing lost vm) (ht : vm.threads[j]? = some t)
    (hs : t.status = .terminated) (a : Action) :
    ∃ u, (vm.act host a).threads[j]? = some u ∧ u.id = t.id ∧ u.status = .terminated ∧
      u.completion = t.completion := by
  have hf := (h.threads t (Array.mem_of_getElem? ht)).2
  by_cases ha : a = .turn
  · subst ha
    obtain ⟨v, hv, htv⟩ := (choose_eased wakesWithin_anything vm).1.get?_of_get? ht
    have hsv := htv.ended hf hs
    show ∃ u, (vm.turn host).2.threads[j]? = some u ∧ _
    rcases turn_cases host vm with ⟨-, e | e⟩ | ⟨index, w, -, hw, hr, e⟩ <;> rw [e]
    · exact ⟨t, ht, rfl, hs, rfl⟩
    · exact ⟨v, hv, htv.id_eq, hsv, htv.completion_eq⟩
    · obtain ⟨u, hu, ⟨-, hvu⟩ | ⟨rfl, -⟩⟩ := runThread_get?_of_get? host hw hv
      · exact ⟨u, hu, hvu.id_eq.trans htv.id_eq, hvu.ended (htv.final hf) hsv,
          hvu.completion_eq.trans htv.completion_eq⟩
      · cases hw.symm.trans hv
        cases hr.symm.trans hsv
  · obtain ⟨machine, new, e, -⟩ := act_appends host vm ha
    refine ⟨t, ?_, rfl, hs, rfl⟩
    rw [e]
    exact (Array.getElem?_append_left (Array.getElem?_eq_some_iff.1 ht).1).trans ht

theorem ended_after (hk : host.Within KeepsInit) (h : Initializing lost vm)
    (ht : vm.threads[j]? = some t) (hs : t.status = .terminated) (as : List Action) :
    ∃ u, (vm.after host as).threads[j]? = some u ∧ u.id = t.id ∧ u.status = .terminated ∧
      u.completion = t.completion := by
  induction as generalizing vm lost t with
  | nil => exact ⟨t, ht, rfl, hs, rfl⟩
  | cons a as ih =>
    obtain ⟨_, _, _, h', -⟩ := h.act hk a
    have hact : ∃ u, (vm.act host a).threads[j]? = some u ∧ u.id = t.id ∧ u.status = .terminated ∧
        u.completion = t.completion := ended_act h ht hs a
    obtain ⟨u, hu, hid, hs', hc⟩ := hact
    obtain ⟨v, hv, hid', hs'', hc'⟩ := ih h' hu hs'
    exact ⟨v, hv, hid'.trans hid, hs'', hc'.trans hc⟩

/-! ## Reservations -/

/-- A reservation lasts until its thread has a turn, and then the thread acquires the monitor. -/
theorem Placed.acquires_after (hh : host.Within LeavesMonitors) (hk : host.Within KeepsInit)
    (h : Placed host vm) (hi : Initializing lost vm) {r : Ref} (ht : vm.threads[j]? = some t)
    (hs : (vm.machine.monitorAt r).successor = some t.id) (as : List Action)
    (hd : (vm.after host as).ids.Nodup) (hj : j ∉ vm.given host as) {u : Thread} {m : Machine}
    (hu : (vm.after host as).next? = some (u, m)) (hid : u.id = t.id) : u.Acquires host m r := by
  induction as generalizing vm lost t with
  | nil =>
    have hchosen := h.choose hd
    rcases turn_cases host vm with ⟨hn, -⟩ | ⟨index, v, hn, hv, -, -⟩
    · cases hn.symm.trans hu
    · cases hn.symm.trans hu
      have hr : (vm.choose.2.machine.monitorAt r).successor = some u.id := by
        rw [choose_successor, hs, hid]
      exact ((hchosen.threads u (Array.mem_of_getElem? hv)).tries r (.inr hr)).acquires hr
        (hchosen.free r (by simp [hr]))
  | cons a as ih =>
    have hd' : (vm.act host a).ids.Nodup := hd.sublist (after_ids host _ as).sublist
    rw [given, List.mem_append, not_or] at hj
    obtain ⟨_, _, _, hi', -⟩ := hi.act hk a
    obtain ⟨hs', v, hv, hv'⟩ := h.act_successor hh hd' ht hs (by simpa [given] using hj.1)
    exact ih (h.act hh hk hi a hd') hi' hv (hv' ▸ hs') hd hj.2 hu (hid.trans hv'.symm)

/-! ## Agreement -/

/-- How threads stand and what the monitors know of them. -/
structure Agrees (host : Host) (vm : Vm) : Prop where
  runnable_iff : ∀ t ∈ vm.threads, t.status = .runnable ↔ t.blocker = none ∧ t.completion = none
  blocked_iff : ∀ t ∈ vm.threads, t.status = .blocked ↔ ∃ r, t.blocker = some (.monitor r)
  mem_queue_iff : ∀ t ∈ vm.threads, ∀ r, t.id ∈ (vm.machine.monitorAt r).queue ↔
    t.status = .blocked ∧ t.blocker = some (.monitor r)
  queue_nodup : ∀ r, (vm.machine.monitorAt r).queue.Nodup
  mem_waiting_iff : ∀ t ∈ vm.threads, ∀ r, t.id ∈ (vm.machine.monitorAt r).waiting ↔
    t.status = .waiting ∧ ∃ count deadline, t.blocker = some (.wait r count deadline)
  waiting_nodup : ∀ r, (vm.machine.monitorAt r).waiting.Nodup
  /-- A thread that a monitor is reserved for acquires it when it has its next turn. -/
  successor : ∀ (t : Thread) (j : Nat) (r : Ref), vm.threads[j]? = some t →
    (vm.machine.monitorAt r).successor = some t.id → t.status = .runnable ∧
      (vm.machine.monitorAt r).owner = none ∧
      ∀ as, (vm.after host as).ids.Nodup → j ∉ vm.given host as → ∀ u m,
        (vm.after host as).next? = some (u, m) → u.id = t.id → u.Acquires host m r
  terminated_iff : ∀ t ∈ vm.threads, t.status = .terminated ↔ t.completion.isSome
  ended : ∀ t ∈ vm.threads, t.status = .terminated → t.frames = [] ∧ t.entry = none ∧
    ∀ r, t.id ∉ (vm.machine.monitorAt r).line ∧ t.id ∉ (vm.machine.monitorAt r).waiting
  /-- A thread that has ended stays as it is. -/
  stays : ∀ (t : Thread) (j : Nat), vm.threads[j]? = some t → t.status = .terminated → ∀ as,
    ∃ u, (vm.after host as).threads[j]? = some u ∧ u.id = t.id ∧ u.status = .terminated ∧
      u.completion = t.completion

theorem Placed.agrees (hh : host.Within LeavesMonitors) (hk : host.Within KeepsInit)
    (h : Placed host vm) (hi : Initializing lost vm) : Agrees host vm where
  runnable_iff t ht := by
    obtain ⟨queue, wait, hs, -⟩ := (h.threads t ht).standing
    cases hs with
    | running hr => simp [hr.status_eq, hr.blocker_eq, hr.completion_eq]
    | queued hs hb => simp [hs, hb]
    | parked hs hb => simp [hs, hb]
    | paused hs hb => simp [hs, hb]
    | ended hs hb hc => simp [hs, Option.isSome_iff_ne_none.1 hc]
  blocked_iff t ht := by
    obtain ⟨queue, wait, hs, -⟩ := (h.threads t ht).standing
    cases hs with
    | running hr => simp [hr.status_eq, hr.blocker_eq]
    | queued hs hb => simp [hs, hb]
    | parked hs hb => simp [hs, hb]
    | @paused b hs hb hp =>
      refine iff_of_false (by simp [hs]) ?_
      rintro ⟨r, hr⟩
      cases hb.symm.trans hr
      exact hp
    | ended hs hb => simp [hs, hb]
  mem_queue_iff t ht r := by
    obtain ⟨queue, wait, hs, hl⟩ := (h.threads t ht).standing
    have hmem : t.id ∈ (vm.machine.monitorAt r).queue ↔ queue = some r := by
      rw [← List.count_pos_iff, hl.queue]
      split <;> simp [*]
    rw [hmem]
    refine ⟨fun e => ?_, fun ⟨_, hb⟩ => hs.queue_eq hb⟩
    subst e
    cases hs with
    | queued hs hb => exact ⟨hs, hb⟩
  queue_nodup r := by
    have hn := (h.lined default r).line_nodup
    exact List.Nodup.of_append_right hn
  mem_waiting_iff t ht r := by
    obtain ⟨queue, wait, hs, hl⟩ := (h.threads t ht).standing
    have hmem : t.id ∈ (vm.machine.monitorAt r).waiting ↔ wait = some r := by
      rw [← List.count_pos_iff, hl.waiting]
      split <;> simp [*]
    rw [hmem]
    constructor
    · intro e
      subst e
      cases hs with
      | parked hs hb => exact ⟨hs, _, _, hb⟩
    · rintro ⟨hs', count, deadline, hb⟩
      cases hs with
      | running hr => cases hr.blocker_eq.symm.trans hb
      | queued _ hb' => cases hb'.symm.trans hb
      | parked _ hb' => cases hb'.symm.trans hb; rfl
      | paused _ hb' hp => cases hb'.symm.trans hb; exact hp.elim
      | ended _ hb' => cases hb'.symm.trans hb
  waiting_nodup r := h.waiting_nodup r
  successor t j r ht hs :=
    ⟨(h.threads t (Array.mem_of_getElem? ht)).reserved r hs, h.free r (by simp [hs]),
      fun as hd hj _ _ hu hid => h.acquires_after hh hk hi ht hs as hd hj hu hid⟩
  terminated_iff t ht := (hi.threads t ht).2.iff
  ended t ht hs := by
    obtain ⟨hf, he, -⟩ := (hi.threads t ht).2.ended hs
    obtain ⟨queue, wait, hst, hl⟩ := (h.threads t ht).standing
    have hnone : queue = none ∧ wait = none := by
      cases hst with
      | ended => exact ⟨rfl, rfl⟩
      | running hr => cases hs.symm.trans hr.status_eq
      | queued hs' => cases hs.symm.trans hs'
      | parked hs' => cases hs.symm.trans hs'
      | paused hs' => cases hs.symm.trans hs'
    obtain ⟨rfl, rfl⟩ := hnone
    refine ⟨hf, he, fun r => ⟨fun hm => ?_, hl.not_mem_waiting r⟩⟩
    rcases List.mem_append.1 hm with hm | hm
    · cases hs.symm.trans ((h.threads t ht).reserved r (by simpa using hm))
    · exact hl.not_mem_queue r hm
  stays t j ht hs as := ended_after hk hi ht hs as

/-- **The status of every thread agrees with the queues, wait sets and reservations of the monitors**,
    as long as all threads have different ids and the natives of the embedder leave monitors and the
    initialization of classes alone. -/
theorem agrees_after (hh : host.Within LeavesMonitors) (hk : host.Within KeepsInit) (config : Config)
    (classPath : Table String ClassFile) (wallClock : Nat) (as : List Action)
    (hd : ((boot config classPath wallClock).after host as).ids.Nodup) :
    Agrees host ((boot config classPath wallClock).after host as) := by
  have hi := Initializing.boot config classPath wallClock
  obtain ⟨lost, hi'⟩ := hi.after hk as
  exact ((Placed.boot host config classPath wallClock).after hh hk hi hd).agrees hh hk hi'

/-- The second of two threads that call the same synchronized method is in the queue of its lock. -/
theorem agrees_after_contention :
    let vm := (ofCaller "()V" []).after .idle [.spawn "A" "main" "()V" [],
      .spawn "A" "main" "()V" [], .turn, .turn, .turn, .turn]
    vm.ids.Nodup ∧ (vm.machine.monitorAt ⟨4⟩).queue = [⟨1⟩] ∧ vm.Agrees .idle := by
  have h : let vm := (ofCaller "()V" []).after .idle [.spawn "A" "main" "()V" [],
        .spawn "A" "main" "()V" [], .turn, .turn, .turn, .turn]
      vm.ids.Nodup ∧ (vm.machine.monitorAt ⟨4⟩).queue = [⟨1⟩] := by decide +kernel
  exact ⟨h.1, h.2, agrees_after Host.idle_within Host.idle_within _ _ _ _ h.1⟩

end Vm

end GreenVm
