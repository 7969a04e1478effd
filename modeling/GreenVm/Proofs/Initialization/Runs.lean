/-
  The initializations under way over a run of a virtual machine.

  * `Vm.Initializing lost vm`: between turns, just those initializations are under way that the frames
    of threads go on with, and those of `lost`, which are stranded.
  * `Vm.Initializing.act`: every action keeps it so, and takes classes from one state of their
    initialization to the next.
-/
import GreenVm.Proofs.Endings
import GreenVm.Proofs.Initialization.Step

namespace GreenVm

/-! ## Lists of initializations -/

/-- Replacing an element of a list replaces what comes of it. -/
theorem flatMap_set_perm {α β : Type} (g : α → List β) {l : List α} {i : Nat} {a : α} (b : α)
    (h : l[i]? = some a) :
    ∃ rest, (l.flatMap g).Perm (g a ++ rest) ∧ ((l.set i b).flatMap g).Perm (g b ++ rest) := by
  induction l generalizing i with
  | nil => simp at h
  | cons c l ih =>
    cases i with
    | zero =>
      obtain rfl : c = a := by simpa using h
      exact ⟨l.flatMap g, .refl _, .refl _⟩
    | succ i =>
      obtain ⟨rest, h₁, h₂⟩ := ih (by simpa using h)
      refine ⟨g c ++ rest, ?_, ?_⟩
      · exact (h₁.append_left (g c)).trans (List.perm_append_comm_assoc _ _ _)
      · exact (h₂.append_left (g c)).trans (List.perm_append_comm_assoc _ _ _)

/-- The initializations that the frames of a thread go on with. -/
def Thread.initializations (t : Thread) : List (String × ThreadId) :=
  GreenVm.initializations t.id t.frames

namespace Vm

/-- The initializations that the frames of all threads go on with. -/
def initializations (vm : Vm) : List (String × ThreadId) :=
  vm.threads.toList.flatMap Thread.initializations

end Vm

theorem Eased.initializations_eq {ts us : Array Thread} (h : Eased ts us) :
    us.toList.flatMap Thread.initializations = ts.toList.flatMap Thread.initializations := by
  unfold Eased at h
  generalize ts.toList = l, us.toList = l' at h ⊢
  induction h with
  | nil => rfl
  | cons h _ ih =>
    rw [List.flatMap_cons, List.flatMap_cons, ih, Thread.initializations, h.id_eq, h.frames_eq]
    rfl

theorem Vm.Paused.initializations_eq {index : Nat} {suspend : Option Suspend}
    {ts us : Array Thread} (h : Paused index suspend ts us) :
    us.toList.flatMap Thread.initializations = ts.toList.flatMap Thread.initializations := by
  rcases h with rfl | ⟨s, b, -, -, rfl⟩
  · rfl
  · rw [Array.toList_modify, List.flatMap_def, List.flatMap_def]
    congr 1
    refine List.ext_getElem? fun k => ?_
    simp only [List.getElem?_map, List.getElem?_modify]
    split
    · cases ts.toList[k]? with
      | none => rfl
      | some v =>
        obtain ⟨hid, hf⟩ := v.suspended_id b
        simp [Thread.initializations, hid, hf]
    · simp

/-- Threads that have not run initialize nothing. -/
theorem Machine.Starts.initializations_eq {m : Machine} {t : Thread} (h : m.Starts t) :
    t.initializations = [] := by
  obtain ⟨r, args, e, -⟩ := h
  rw [e]
  rfl

theorem Machine.Starts.grounded {m : Machine} {t : Thread} (h : m.Starts t) : t.Grounded m := by
  obtain ⟨r, args, e, hd⟩ := h
  rw [e]
  exact ⟨nofun, fun p hp => by cases hp; exact hd⟩

theorem Machine.Starts.final {m : Machine} {t : Thread} (h : m.Starts t) : t.Final := by
  obtain ⟨r, args, e, -⟩ := h
  rw [e]
  exact Thread.final_starting _ _ _ _

theorem Thread.Eases.grounded {t u : Thread} {m : Machine} (h : t.Eases u) (ht : t.Grounded m) :
    u.Grounded m :=
  ⟨h.frames_eq ▸ ht.frames, h.entry_eq ▸ ht.entry⟩

theorem Thread.Grounded.suspended {t : Thread} {m : Machine} (h : t.Grounded m) (b : Blocker) :
    (t.suspended b).Grounded m :=
  ⟨(t.suspended_id b).2 ▸ h.frames, (t.suspended_same b).2 ▸ h.entry⟩

namespace Stranded

variable {p : String × ThreadId} {t u : Thread} {m m' : Machine}

theorem mono (h : Stranded p t m) (hr : Retains m m') : Stranded p t m' := by
  obtain ⟨k, hk, hd, hu⟩ := h.unrunnable
  exact ⟨h.id_eq, h.aborted, k, hk, hr.defines hd, hu.mono hr⟩

theorem of_same (h : Stranded p t m) (hid : u.id = t.id) (hc : u.completion = t.completion) :
    Stranded p u m := ⟨hid.trans h.id_eq, hc ▸ h.aborted, h.unrunnable⟩

end Stranded

/-! ## Between turns -/

/-- Nothing is asked of the scheduler any more. -/
theorem KeepsInit.cleared (m : Machine) : KeepsInit m { m with requests := {} } := by
  refine .of_classStates ?_ rfl
  exact
    { config_eq := rfl
      classPath_eq := rfl
      natives := fun _ h => h
      types := .of_heap rfl
      classObjects := fun _ _ h => h
      grounded := fun h =>
        { loaded := h.loaded, types := h.types
          started := fun _ ht => absurd ht List.not_mem_nil } }

/-- Nothing is initialized in a machine that has loaded nothing. -/
theorem Machine.progress_boot (config : Config) (classPath : Table String ClassFile)
    (wallClock : Nat) (name : String) :
    (boot config classPath wallClock).progress name =
      if isArrayName name then .done else .uninitialized := rfl

/-- Another function of the embedder as a native method. -/
theorem KeepsInit.register (m : Machine) (className name descriptor : String) (native : Native) :
    KeepsInit m { m with natives := m.natives.register className name descriptor native } := by
  have more (key : String) (h : m.natives.table.contains key = true) :
      (m.natives.register className name descriptor native).table.contains key = true := by
    rw [Natives.register, Table.contains, Table.get?_put]
    split
    · rfl
    · exact h
  have extends_ : (Exec.sources m).Extends (Exec.sources
      { m with natives := m.natives.register className name descriptor native }) :=
    ⟨fun _ _ h => h, id, more⟩
  refine .of_classStates ⟨rfl, rfl, more, .of_heap rfl, fun _ _ h => h, fun h => ?_⟩ rfl
  exact
    { loaded := fun name c hc => extends_.defines (h.loaded name c hc)
      types := fun r o ho => extends_.defines (h.types r o ho)
      started := fun t ht => by
        obtain ⟨r, args, e, hr⟩ := h.started t ht
        exact ⟨r, args, e, extends_.defines hr⟩ }

namespace Vm

/-- Between turns, just those initializations are under way that the frames of threads go on with,
    and those of `lost`, which are stranded. -/
structure Initializing (lost : List (String × ThreadId)) (vm : Vm) : Prop where
  machine : vm.machine.Grounded
  threads : ∀ t ∈ vm.threads, t.Grounded vm.machine ∧ t.Final
  underway : Underway (vm.initializations ++ lost) vm.machine
  stranded : ∀ p ∈ lost, ∃ t ∈ vm.threads, Stranded p t vm.machine

variable {vm vm' : Vm} {host : Host} {lost : List (String × ThreadId)}

theorem wakesWithin_keepsInit : WakesWithin KeepsInit :=
  fun m r _ => Lively.change m r _ fun _ _ => ⟨rfl, rfl, rfl, rfl⟩

/-- A thread that was made ready starts in a class that is defined. -/
theorem prepareThread_starts {className methodName descriptor : String} {args : List Value}
    {t : Thread} {m m' : Machine} (hg : m.Grounded)
    (h : outcome (prepareThread className methodName descriptor args) m = (.ok t, m')) :
    m'.Starts t := by
  obtain ⟨c, r, o, m₁, hc, hr, -, ht, ho⟩ := prepareThread_ok h
  have hd : m₁.Defines r.owner := m₁.ascends_defines.findMethod? (Exec.loadClass_defines hg hc) hr
  have hk : Retains { m₁ with nextThread := m₁.nextThread + 1 } m' :=
    Exec.newThreadObject_within.of_eq ho
  exact ⟨r, args, by rw [ht]; rfl, hk.defines hd⟩

namespace Initializing

/-- A class whose initializer a thread runs is being initialized by that thread. -/
theorem progress (h : Initializing lost vm) {t : Thread} {f : Frame} (ht : t ∈ vm.threads)
    (hf : f ∈ t.frames) (hk : f.kind = .classInit) :
    vm.machine.progress f.owner.name = .inProgress t.id := by
  refine (h.underway.iff _ _).2 (List.mem_append_left _ ?_)
  refine List.mem_flatMap.2 ⟨t, Array.mem_toList_iff.2 ht, List.mem_map.2 ⟨f, ?_, rfl⟩⟩
  simp [hf, hk]

/-- The initializations of one thread are some of those that are under way. -/
theorem share (h : Initializing lost vm) {index : Nat} {t : Thread}
    (ht : vm.threads[index]? = some t) :
    ∃ others, Underway (GreenVm.initializations t.id t.frames ++ others) vm.machine := by
  have htoList : vm.threads.toList[index]? = some t := by simpa using ht
  obtain ⟨rest, hbefore, -⟩ := flatMap_set_perm Thread.initializations t htoList
  refine ⟨rest ++ lost, ?_⟩
  rw [← List.append_assoc]
  exact h.underway.perm (hbefore.append_right lost)

/-- Work between turns, and ending the waiting of threads. -/
theorem eased (h : Initializing lost vm) (he : Eased vm.threads vm'.threads)
    (hk : KeepsInit vm.machine vm'.machine) : Initializing lost vm' where
  machine := hk.grounded h.machine
  threads u hu := by
    obtain ⟨j, hj⟩ := Array.getElem?_of_mem hu
    obtain ⟨t, ht, hu⟩ := he.get? hj
    obtain ⟨hg, hf⟩ := h.threads t (Array.mem_of_getElem? ht)
    exact ⟨(hu.grounded hg).mono hk.toRetains, hu.final hf⟩
  underway := by
    rw [initializations, he.initializations_eq]
    exact h.underway.keeps hk
  stranded p hp := by
    obtain ⟨t, ht, hs⟩ := h.stranded p hp
    obtain ⟨j, hj⟩ := Array.getElem?_of_mem ht
    obtain ⟨u, hu, he⟩ := he.get?_of_get? hj
    exact ⟨u, Array.mem_of_getElem? hu, (hs.of_same he.id_eq he.completion_eq).mono hk.toRetains⟩

section RunThread

variable {index : Nat} {t : Thread}

/-- After a turn the threads initialize what they do with the one that had it as its step leaves it. -/
theorem runThread_initializations (ht : vm.threads[index]? = some t)
    (hg : ((t.step host).run vm.machine).2.Grounded) :
    (vm.runThread host index).initializations =
      (vm.threads.toList.set index ((t.step host).run vm.machine).1).flatMap
        Thread.initializations := by
  obtain ⟨-, ts, us, heased, hpaused, hthreads⟩ := runThread_spec host ht
  generalize (t.step host).run vm.machine = s at *
  have hnew : s.2.requests.spawned.flatMap Thread.initializations = [] :=
    List.flatMap_eq_nil_iff.2 fun u hu => (hg.started u hu).initializations_eq
  rw [Vm.initializations, hthreads, Array.toList_append, List.flatMap_append,
    hpaused.initializations_eq, heased.initializations_eq, Array.toList_setIfInBounds]
  show _ ++ s.2.requests.spawned.flatMap _ = _
  rw [hnew, List.append_nil]

/-- What a turn does to the machine after the step. -/
theorem runThread_cleared (host : Host) (ht : vm.threads[index]? = some t) :
    KeepsInit ((t.step host).run vm.machine).2 (vm.runThread host index).machine :=
  (runThread_spec host ht).1 ▸ KeepsInit.cleared _

/-- All threads are as they should be after a turn, if the one that had it is so after its step. -/
theorem runThread_threads (h : Initializing lost vm) (ht : vm.threads[index]? = some t)
    (hr : Retains vm.machine ((t.step host).run vm.machine).2)
    (hg : ((t.step host).run vm.machine).2.Grounded)
    (hs : ((t.step host).run vm.machine).1.Grounded ((t.step host).run vm.machine).2 ∧
      ((t.step host).run vm.machine).1.Final) :
    ∀ u ∈ (vm.runThread host index).threads,
      u.Grounded (vm.runThread host index).machine ∧ u.Final := by
  have hclear := (runThread_cleared host ht).toRetains
  intro u hu
  obtain ⟨j, hj⟩ := Array.getElem?_of_mem hu
  rcases runThread_get? host ht hj with ⟨-, v, hv, hvu⟩ | ⟨-, v, hv, huv⟩ | hnew
  · obtain ⟨hvg, hvf⟩ := h.threads v (Array.mem_of_getElem? hv)
    exact ⟨(hvu.grounded (hvg.mono hr)).mono hclear, hvu.final hvf⟩
  · have hvg := (hv.grounded hs.1).mono hclear
    have hvf := hv.final hs.2
    rcases huv with rfl | ⟨_, b, -, -, rfl⟩
    · exact ⟨hvg, hvf⟩
    · exact ⟨hvg.suspended b, hvf.suspended b⟩
  · have starts := hg.started u hnew
    exact ⟨starts.grounded.mono hclear, starts.final⟩

/-- What was stranded stays so over a turn, and so does what the step has stranded. -/
theorem runThread_stranded (h : Initializing lost vm) (ht : vm.threads[index]? = some t)
    (hrun : t.status = .runnable) (hr : Retains vm.machine ((t.step host).run vm.machine).2)
    {lost' : List (String × ThreadId)}
    (hl : ∀ p ∈ lost', Stranded p ((t.step host).run vm.machine).1
      ((t.step host).run vm.machine).2) :
    ∀ p ∈ lost' ++ lost, ∃ u ∈ (vm.runThread host index).threads,
      Stranded p u (vm.runThread host index).machine := by
  have hclear := (runThread_cleared host ht).toRetains
  have eased {v u : Thread} {p : String × ThreadId} {m : Machine} (hv : Stranded p v m)
      (hm : Retains m (vm.runThread host index).machine) (hvu : v.Eases u) :
      Stranded p u (vm.runThread host index).machine :=
    (hv.of_same hvu.id_eq hvu.completion_eq).mono hm
  intro p hp
  rcases List.mem_append.1 hp with hp | hp
  · obtain ⟨u, hu, ⟨hne, -⟩ | ⟨-, w, hw, huw⟩⟩ := runThread_get?_of_get? host ht ht
    · exact absurd rfl hne
    · have stranded := eased (hl p hp) hclear hw
      refine ⟨u, Array.mem_of_getElem? hu, ?_⟩
      rcases huw with rfl | ⟨_, b, -, -, rfl⟩
      · exact stranded
      · exact stranded.of_same (w.suspended_id b).1 (w.suspended_same b).1
  · obtain ⟨v, hv, hs⟩ := h.stranded p hp
    obtain ⟨j, hj⟩ := Array.getElem?_of_mem hv
    obtain ⟨u, hu, ⟨-, hvu⟩ | ⟨rfl, -⟩⟩ := runThread_get?_of_get? host ht hj
    · exact ⟨u, Array.mem_of_getElem? hu, eased hs (hr.trans hclear) hvu⟩
    · -- a thread that has ended has no more turns
      cases ht.symm.trans hj
      obtain ⟨e, he⟩ := hs.aborted
      have := (h.threads t hv).2.iff.2 (by rw [he]; rfl)
      cases hrun.symm.trans this

/-- Over the turn of a thread, initializations go on as its step has left them. -/
theorem runThread (hh : host.Within KeepsInit) (h : Initializing lost vm)
    (ht : vm.threads[index]? = some t) (hr : t.status = .runnable) :
    ∃ lost', Initializing (lost' ++ lost) (vm.runThread host index) ∧
      (∃ es, InitPath t.id vm.machine es (vm.runThread host index).machine) ∧
      Fresh vm.machine t.frames.length ((t.step host).run vm.machine).1 ∧
      ∀ f ∈ ((t.step host).run vm.machine).1.frames, f.kind = .classInit →
        (vm.runThread host index).machine.progress f.owner.name = .inProgress t.id := by
  obtain ⟨hground, hfinal⟩ := h.threads t (Array.mem_of_getElem? ht)
  have htoList : vm.threads.toList[index]? = some t := by simpa using ht
  obtain ⟨rest, hbefore, hafter⟩ := flatMap_set_perm Thread.initializations
    ((t.step host).run vm.machine).1 htoList
  have hw : Underway (GreenVm.initializations t.id t.frames ++ (rest ++ lost)) vm.machine := by
    rw [← List.append_assoc]
    exact h.underway.perm (hbefore.append_right lost)
  obtain ⟨lost', hc, hfresh, hlost⟩ := Thread.step_stepped hh h.machine hground hw hr
  have hfinal' := hfinal.step host vm.machine
  have hgm := hc.grounded_machine h.machine
  have hret := hc.tracked.retains
  have hclear := runThread_cleared host ht
  have hinit := runThread_initializations ht hgm
  have hthreads := runThread_threads h ht hret hgm ⟨hc.grounded, hfinal'⟩
  have hstranded := runThread_stranded h ht hr hret hlost
  generalize (t.step host).run vm.machine = s at *
  obtain ⟨t', m'⟩ := s
  dsimp only at hc hfresh hgm hinit hafter hclear
  have hperm : (lost' ++ (GreenVm.initializations t.id t'.frames ++ (rest ++ lost))).Perm
      ((vm.runThread host index).initializations ++ (lost' ++ lost)) := by
    rw [hinit, ← hc.id_eq]
    have := ((hafter.append_right lost).append_left lost').symm
    rw [List.append_assoc] at this
    refine this.trans ?_
    exact List.perm_append_comm_assoc _ _ _
  have htracked := (hc.tracked.keeps hclear).perm hperm
  refine ⟨lost', ⟨hclear.grounded hgm, hthreads, htracked.underway, hstranded⟩, htracked.path,
    hfresh, fun f hf hk => ?_⟩
  refine (htracked.underway.iff _ _).2 (hperm.mem_iff.1 ?_)
  refine List.mem_append_right _ (List.mem_append_left _ (List.mem_map.2 ⟨f, ?_, rfl⟩))
  simp [hf, hk]

end RunThread

/-- A new thread. -/
theorem push (h : Initializing lost vm) {t : Thread} (hthreads : vm'.threads = vm.threads.push t)
    (hk : KeepsInit vm.machine vm'.machine) (ht : vm'.machine.Starts t) :
    Initializing lost vm' where
  machine := hk.grounded h.machine
  threads u hu := by
    rw [hthreads] at hu
    rcases Array.mem_push.1 hu with hu | rfl
    · obtain ⟨hg, hf⟩ := h.threads u hu
      exact ⟨hg.mono hk.toRetains, hf⟩
    · exact ⟨ht.grounded, ht.final⟩
  underway := by
    have same : vm'.initializations = vm.initializations := by
      rw [initializations, hthreads, Array.toList_push, List.flatMap_append, List.flatMap_singleton,
        ht.initializations_eq, List.append_nil]
      rfl
    rw [same]
    exact h.underway.keeps hk
  stranded p hp := by
    obtain ⟨u, hu, hs⟩ := h.stranded p hp
    exact ⟨u, hthreads ▸ Array.mem_push_of_mem t hu, hs.mono hk.toRetains⟩

theorem spawn (h : Initializing lost vm) (className methodName descriptor : String)
    (args : List Value) :
    Initializing lost (vm.spawn className methodName descriptor args).2 ∧
      KeepsInit vm.machine (vm.spawn className methodName descriptor args).2.machine := by
  obtain ⟨hm, hthreads⟩ := spawn_cases vm className methodName descriptor args
  have hk : KeepsInit vm.machine (vm.spawn className methodName descriptor args).2.machine := by
    rw [hm]
    exact prepareThread_within_of Exec.issueThreadId_within Exec.newThreadObject_within vm.machine
  refine ⟨?_, hk⟩
  rcases hthreads with ⟨-, -, he⟩ | ⟨t, ht, he⟩
  · exact h.eased (he ▸ Eased.refl _) hk
  · refine h.push he hk ?_
    rw [hm]
    exact prepareThread_starts h.machine (Prod.ext ht rfl)

theorem turn (hh : host.Within KeepsInit) (h : Initializing lost vm) :
    ∃ lost' id es, Initializing (lost' ++ lost) (vm.turn host).2 ∧
      InitPath id vm.machine es (vm.turn host).2.machine := by
  obtain ⟨heased, hk⟩ := choose_eased wakesWithin_keepsInit vm
  have chosen := h.eased heased hk
  rcases turn_cases host vm with ⟨-, e | e⟩ | ⟨index, t, -, ht, hr, e⟩ <;> rw [e]
  · exact ⟨[], default, [], h, .keeps (refl_of KeepsInit _)⟩
  · exact ⟨[], default, [], chosen, .keeps hk⟩
  · obtain ⟨lost', h', ⟨es, hpath⟩, -⟩ := chosen.runThread hh ht hr
    exact ⟨lost', t.id, es, h', (InitPath.keeps hk).append hpath⟩

/-- Every action goes on with the initializations that are under way. -/
theorem act (hh : host.Within KeepsInit) (h : Initializing lost vm) (a : Action) :
    ∃ lost' id es, Initializing (lost' ++ lost) (vm.act host a) ∧
      InitPath id vm.machine es (vm.act host a).machine := by
  cases a with
  | turn => exact h.turn hh
  | spawn className methodName descriptor args =>
    obtain ⟨h', hk⟩ := h.spawn className methodName descriptor args
    exact ⟨[], default, [], h', .keeps hk⟩
  | startMain mainClass args =>
    obtain ⟨vm', hvm, e⟩ := startMain_cases vm mainClass args
    have hk : KeepsInit vm.machine vm'.machine := by
      rw [hvm]
      exact argumentArray_within vm.machine
    have h' : Initializing lost vm' := h.eased (by rw [hvm]; exact .refl _) hk
    show ∃ lost' id es, Initializing (lost' ++ lost) (vm.startMain mainClass args).2 ∧
      InitPath id vm.machine es (vm.startMain mainClass args).2.machine
    rcases e with e | ⟨array, e⟩ <;> rw [e]
    · exact ⟨[], default, [], h', .keeps hk⟩
    · obtain ⟨h'', hk'⟩ := h'.spawn mainClass "main" "([Ljava/lang/String;)V" [.ofRef array]
      exact ⟨[], default, [], h'', .keeps (trans_of KeepsInit hk hk')⟩
  | register className methodName descriptor function =>
    have hk := KeepsInit.register vm.machine className methodName descriptor (.host function)
    exact ⟨[], default, [], h.eased (.refl _) hk, .keeps hk⟩

theorem after (hh : host.Within KeepsInit) (h : Initializing lost vm) (as : List Action) :
    ∃ lost', Initializing lost' (vm.after host as) := by
  induction as generalizing vm lost with
  | nil => exact ⟨lost, h⟩
  | cons a as ih =>
    obtain ⟨_, _, _, h', -⟩ := h.act hh a
    exact ih h'

theorem boot (config : Config) (classPath : Table String ClassFile) (wallClock : Nat) :
    Initializing [] (.boot config classPath wallClock) where
  machine :=
    { loaded := nofun
      types := fun r o h => by simp [Vm.boot, Machine.boot, Heap.get?] at h
      started := fun _ h => absurd h List.not_mem_nil }
  threads t ht := by simp [Vm.boot] at ht
  underway := by
    refine ⟨List.nodup_nil, fun name id => ?_⟩
    have hp := Machine.progress_boot config classPath wallClock name
    show (Machine.boot config classPath wallClock).progress name = _ ↔ (name, id) ∈ []
    rw [hp]
    split <;> simp
  stranded _ hp := absurd hp List.not_mem_nil

end Initializing

/-! ## A program -/

/-- A machine that knows a class `A` with an initializer, and a `main` that does nothing. -/
def ofInitializer (flags : List Flag) (code : Option CodeDecl) : Vm :=
  .boot {} (.ofList [("A", { ClassFile.ofClass "A" with
    methods := [
      { flags := .ofList (.staticMember :: flags), name := "<clinit>", descriptor := "()V", code },
      { flags := .ofList [.staticMember], name := "main", descriptor := "()V"
        code := some (.ofList 1 0 [.leave none]) }] })]) 0

end Vm

end GreenVm
