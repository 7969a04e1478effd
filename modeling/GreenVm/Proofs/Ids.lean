/-
  The ids of the threads of a virtual machine.

  * `Vm.rootIds`, `Vm.startedIds`: the ids of the threads that an embedder started over a run, and of
    those that the program has started itself.
  * `Vm.ids_after`: no thread has any other id, no id is twice among the first, and none is twice
    among the second.  All threads have different ids just if the program has not started the object
    of a thread that the embedder had started.
-/
import GreenVm.Proofs.Registry
import GreenVm.Proofs.Runs

namespace GreenVm

namespace Vm

/-- The ids of the threads that an action starts. -/
def newIds (host : Host) (vm : Vm) (a : Action) : List ThreadId :=
  (vm.act host a).ids.drop vm.ids.length

/-- The ids of the threads that an embedder starts over a run. -/
def rootIds (host : Host) : Vm → List Action → List ThreadId
  | _, [] => []
  | vm, a :: as => (if a = .turn then [] else vm.newIds host a) ++ rootIds host (vm.act host a) as

/-- The ids of the threads that the program starts over a run. -/
def startedIds (host : Host) : Vm → List Action → List ThreadId
  | _, [] => []
  | vm, a :: as =>
    (if a = .turn then vm.newIds host a else []) ++ startedIds host (vm.act host a) as

/-- The threads of a virtual machine are those started by the embedder, all of them different, and
    those started by the program, as the registry has them. -/
structure Enrolled (roots started : List ThreadId) (vm : Vm) : Prop where
  registry : Registry vm.ids started vm.machine
  perm : vm.ids.Perm (roots ++ started)
  roots_nodup : roots.Nodup

variable {host : Host} {vm vm' : Vm} {roots started ids before : List ThreadId}

theorem newIds_eq {a : Action} {new : List ThreadId} (h : (vm.act host a).ids = vm.ids ++ new) :
    vm.newIds host a = new := by
  rw [newIds, h, List.drop_left]

theorem wakesWithin_sameThreads : WakesWithin SameThreads :=
  fun _ _ _ => .update fun _ _ => ⟨rfl, rfl⟩

/-- The thread that is made ready has an id that no thread in use has. -/
theorem prepareThread_leads {className methodName descriptor : String} {args : List Value} :
    Leads (Registry ids before) (prepareThread className methodName descriptor args)
      (fun t m => t.id ∉ ids ∧ Registry (ids ++ [t.id]) before m) (Registry ids before) := by
  have ready (r : MethodRef) : Leads (Registry ids before) (do
      let id ← Exec.issueThreadId
      let name := rootThreadName id
      discard <| Exec.newThreadObject id name
      return .starting id name r args : Exec Thread)
      (fun t m => t.id ∉ ids ∧ Registry (ids ++ [t.id]) before m) (Registry ids before) := by
    refine .bind (Q := fun id m => id ∉ ids ∧ Reserved (ids ++ [id]) before id m) (fun m h => ?_)
      fun id => ?_
    · exact ⟨fun hid => Nat.lt_irrefl _ (h.inUse _ hid), h.issue.use⟩
    · rintro m ⟨hid, h⟩
      refine Leads.bind (Leads.discard Exec.newThreadObject_leads |>.failing fun m h => ?_)
        (fun _ => .pure _ fun m h => ⟨hid, h⟩) m h
      exact { h with inUse := fun id hid => h.inUse id (List.mem_append_left _ hid) }
  have quiet {α : Type} {x : Exec α} (h : Within SameThreads x) :
      Leads (Registry ids before) x (fun _ => Registry ids before) (Registry ids before) :=
    .of_within h fun _ _ hr hs => hs.registry hr
  refine .bind (quiet Exec.loadClass_within) fun c => ?_
  split
  · dsimp only
    split
    · exact .throw_bind _ fun _ h => h
    · split
      · exact .throw_bind _ fun _ h => h
      · exact ready _
  · exact .throw _ fun _ h => h

namespace Enrolled

variable {a : Action}

/-- Work between turns that starts no thread. -/
theorem of_same (h : Enrolled roots started vm) (hi : vm'.ids = vm.ids)
    (hs : SameThreads vm.machine vm'.machine) : Enrolled roots started vm' where
  registry := hi ▸ hs.registry h.registry
  perm := hi ▸ h.perm
  roots_nodup := h.roots_nodup

/-- What a turn adds was started by the program. -/
theorem turn (h : Enrolled roots started vm) (hh : host.KeepsRegistry) :
    Enrolled roots (started ++ vm.newIds host .turn) (vm.turn host).2 := by
  obtain ⟨-, hchoose⟩ := choose_eased wakesWithin_sameThreads vm
  have idle (hi : (vm.turn host).2.ids = vm.ids)
      (hs : SameThreads vm.machine (vm.turn host).2.machine) :
      Enrolled roots (started ++ vm.newIds host .turn) (vm.turn host).2 := by
    rw [newIds_eq (a := .turn) (hi.trans (List.append_nil _).symm), List.append_nil]
    exact h.of_same hi hs
  rcases turn_cases host vm with ⟨-, e | e⟩ | ⟨index, t, -, ht, -, e⟩
  · exact idle (by rw [e]) (by rw [e]; exact .refl _)
  · exact idle (by rw [e, choose_ids]) (by rw [e]; exact hchoose)
  · have hids := runThread_ids host ht
    have hm := (runThread_spec host ht).1
    rw [choose_ids] at hids
    have hmem : t.id ∈ vm.ids := by
      rw [← choose_ids]
      exact List.mem_map_of_mem (Array.mem_toList_iff.2 (Array.mem_of_getElem? ht))
    have hstep := Thread.step_keepsRegistry hh t vm.choose.2.machine vm.ids started
      (by simpa using hmem) (hchoose.registry h.registry)
    generalize ((t.step host).run vm.choose.2.machine).2 = m at hids hm hstep
    rw [newIds_eq (a := .turn) (show (vm.turn host).2.ids = _ from e ▸ hids), e]
    exact
      { registry :=
          { inUse := fun id hid => by
              rw [hids] at hid
              rw [hm]
              refine (List.mem_append.1 hid).elim (hstep.inUse id) fun hid => ?_
              exact hstep.issued id (hstep.started id (List.mem_append_right _ hid))
            listed := by rw [hm]; exact hstep.listed
            issued := by rw [hm]; exact hstep.issued
            unique := by rw [hm]; exact hstep.unique
            unstarted := by simpa [hm, Machine.startedIds] using hstep.unstarted
            started := by simpa [hm, Machine.startedIds] using hstep.started
            nodup := by simpa [hm, Machine.startedIds] using hstep.nodup }
        perm := by
          rw [hids, ← List.append_assoc]
          exact h.perm.append_right _
        roots_nodup := h.roots_nodup }

theorem spawn (h : Enrolled roots started vm) {className methodName descriptor : String}
    {args : List Value} : ∃ new,
      (vm.spawn className methodName descriptor args).2.ids = vm.ids ++ new ∧
      Enrolled (roots ++ new) started (vm.spawn className methodName descriptor args).2 := by
  obtain ⟨hm, hthreads⟩ := spawn_cases vm className methodName descriptor args
  have hp := @prepareThread_leads vm.ids started className methodName descriptor args
    vm.machine h.registry
  generalize outcome (prepareThread className methodName descriptor args) vm.machine = x at *
  generalize (vm.spawn className methodName descriptor args).2 = vm' at *
  obtain ⟨result, m⟩ := x
  rcases hthreads with ⟨e, rfl, hthreads⟩ | ⟨t, rfl, hthreads⟩
  · have hids : vm'.ids = vm.ids := by rw [ids, hthreads, ids]
    refine ⟨[], by simp [hids], ?_⟩
    rw [List.append_nil]
    exact { registry := by rw [hids, hm]; exact hp, perm := hids ▸ h.perm,
            roots_nodup := h.roots_nodup }
  · have hids : vm'.ids = vm.ids ++ [t.id] := by simp [ids, hthreads]
    obtain ⟨hnew, hr⟩ := hp
    have hroots : t.id ∉ roots := fun e => hnew (h.perm.mem_iff.2 (List.mem_append_left _ e))
    refine ⟨[t.id], hids, ?_⟩
    exact
      { registry := by rw [hids, hm]; exact hr
        perm := by
          rw [hids, List.append_assoc]
          exact (h.perm.append_right _).trans
            (by rw [List.append_assoc]; exact List.perm_append_comm.append_left _)
        roots_nodup := by
          refine List.nodup_append.2 ⟨h.roots_nodup, by simp, fun a ha b hb => ?_⟩
          rw [List.mem_singleton.1 hb]
          exact fun e => hroots (e ▸ ha) }

theorem act (h : Enrolled roots started vm) (ha : a ≠ .turn) :
    Enrolled (roots ++ vm.newIds host a) started (vm.act host a) := by
  have same (hi : (vm.act host a).ids = vm.ids)
      (hs : SameThreads vm.machine (vm.act host a).machine) :
      Enrolled (roots ++ vm.newIds host a) started (vm.act host a) := by
    rw [newIds_eq (hi.trans (List.append_nil _).symm), List.append_nil]
    exact h.of_same hi hs
  cases a with
  | turn => exact absurd rfl ha
  | spawn className methodName descriptor args =>
    obtain ⟨new, hi, h'⟩ := h.spawn
    replace hi : (vm.act host (.spawn className methodName descriptor args)).ids = vm.ids ++ new :=
      hi
    rw [newIds_eq hi]
    exact h'
  | startMain mainClass args =>
    obtain ⟨vm', hvm, e⟩ := startMain_cases vm mainClass args
    have hs : SameThreads vm.machine vm'.machine := by
      rw [hvm]
      exact argumentArray_within vm.machine
    have hi : vm'.ids = vm.ids := by rw [hvm]; rfl
    replace e : vm.act host (.startMain mainClass args) = vm' ∨ ∃ array,
      vm.act host (.startMain mainClass args) = _ := e
    rcases e with e | ⟨array, e⟩
    · exact same (by rw [e, hi]) (by rw [e]; exact hs)
    · obtain ⟨new, hi', h'⟩ := (h.of_same hi hs).spawn
      have hids : (vm.act host (.startMain mainClass args)).ids = vm.ids ++ new := by
        rw [e, hi', hi]
      rw [newIds_eq hids, e]
      exact h'
  | register => exact same rfl (.of_heap rfl rfl rfl rfl)

theorem after (hh : host.KeepsRegistry) : ∀ {as : List Action} {vm : Vm}
    {roots started : List ThreadId}, Enrolled roots started vm →
    Enrolled (roots ++ vm.rootIds host as) (started ++ vm.startedIds host as) (vm.after host as)
  | [], vm, roots, started, h => by
    simpa [rootIds, startedIds] using h
  | a :: as, vm, roots, started, h => by
    rw [rootIds, startedIds, ← List.append_assoc, ← List.append_assoc, after_cons]
    by_cases ha : a = .turn
    · subst ha
      simp only [if_true, List.append_nil]
      exact after hh (h.turn hh)
    · simp only [ha, if_false, List.append_nil]
      exact after hh (h.act ha)

/-- A machine that has just been set up has no threads. -/
theorem boot (config : Config) (classPath : Table String ClassFile) (wallClock : Nat) :
    Enrolled [] [] (.boot config classPath wallClock) := by
  have threadAt (r : Ref) : (Vm.boot config classPath wallClock).machine.heap.threadAt r = none := by
    simp [Vm.boot, Machine.boot, Heap.threadAt, Heap.get?]
  exact
    { registry :=
        { inUse := by simp [ids, Vm.boot]
          listed := fun r id e => by cases (threadAt r).symm.trans e
          issued := fun id e => by simp [Vm.boot, Machine.boot] at e
          unique := fun r r' id e => by cases (threadAt r).symm.trans e
          unstarted := fun r id e => by cases (threadAt r).symm.trans e
          started := fun id hm => by simp [Machine.startedIds, Vm.boot, Machine.boot] at hm
          nodup := by simp [Machine.startedIds, Vm.boot, Machine.boot] }
      perm := .refl _
      roots_nodup := List.nodup_nil }

end Enrolled

/-- **All threads have different ids, unless the program starts the object of a root thread**: the
    ids of the threads are those of the threads that the embedder has started, which are different,
    and those of the threads that the program has started, which are different, too. -/
theorem ids_after (hh : host.KeepsRegistry) (config : Config) (classPath : Table String ClassFile)
    (wallClock : Nat) (as : List Action) :
    let vm := boot config classPath wallClock
    (vm.after host as).ids.Perm (vm.rootIds host as ++ vm.startedIds host as) ∧
      (vm.rootIds host as).Nodup ∧ (vm.startedIds host as).Nodup ∧
      ((vm.after host as).ids.Nodup ↔ ∀ id ∈ vm.startedIds host as, id ∉ vm.rootIds host as) := by
  intro vm
  have h : Enrolled ([] ++ vm.rootIds host as) ([] ++ vm.startedIds host as) (vm.after host as) :=
    (Enrolled.boot config classPath wallClock).after hh
  rw [List.nil_append, List.nil_append] at h
  have hs : (vm.startedIds host as).Nodup := (List.nodup_append.1 h.registry.nodup).1
  refine ⟨h.perm, h.roots_nodup, hs, ?_⟩
  rw [h.perm.nodup_iff, List.nodup_append]
  exact ⟨fun hn id hi hr => hn.2.2 id hr id hi rfl,
    fun hd => ⟨h.roots_nodup, hs, fun id hr id' hi e => hd id' hi (e ▸ hr)⟩⟩

end Vm

/-! ## A program -/

/-- A class `A` whose `main` starts the thread object that some instructions have left on the
    stack. -/
def starterOf (before : List Instruction) : ClassFile :=
  { ClassFile.ofClass "A" with
    pool := [.method ⟨ClassName.thread, "currentThread", "()Ljava/lang/Thread;"⟩,
      .classRef ClassName.thread, .method ⟨ClassName.thread, "<init>", "()V"⟩,
      .method ⟨ClassName.thread, "start", "()V"⟩]
    methods := [
      { flags := .ofList [.staticMember], name := "main", descriptor := "()V"
        code := some (.ofList 2 0 (before ++ [.invokeVirtual 4, .leave none])) }] }

namespace Vm

/-- A virtual machine that has this class, and has run nothing yet. -/
def ofStarter (before : List Instruction) : Vm :=
  .boot {} (.ofList [("A", starterOf before)]) 0

/-- A thread that makes another one and starts it. -/
theorem ids_after_new : Host.idle.KeepsRegistry ∧
    let vm := ofStarter [.new 2, .dup 1 0, .invokeSpecial 3]
    let as := [.spawn "A" "main" "()V" [], .turn, .turn, .turn, .turn, .turn]
    vm.startedIds .idle as = [⟨1⟩] ∧ (vm.after .idle as).ids.Nodup := by
  refine ⟨Host.idle_keepsRegistry, ?_⟩
  intro vm as
  have h : vm.startedIds .idle as = [⟨1⟩] ∧ vm.rootIds .idle as = [⟨0⟩] := by decide +kernel
  have distinct : ∀ id ∈ vm.startedIds .idle as, id ∉ vm.rootIds .idle as := by
    rw [h.1, h.2]
    decide
  exact ⟨h.1, (ids_after Host.idle_keepsRegistry _ _ _ as).2.2.2.2 distinct⟩

/-- A thread that starts itself is there twice. -/
theorem not_nodup_after_start :
    ¬ ((ofStarter [.invokeStatic 1]).after .idle
      [.spawn "A" "main" "()V" [], .turn, .turn, .turn]).ids.Nodup := by
  decide +kernel

end Vm

end GreenVm
