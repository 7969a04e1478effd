/-
  Which thread an object stands for, and which threads have been started.

  * `Registry ids started`: no two objects stand for the same thread, and a thread whose object has
    not been started is not among the threads that were `started`.
  * `KeepsRegistry`: a relation between machines that keeps it so.
  * `Thread.step_keepsRegistry`: every step of a thread stays within it, however it ends.
-/
import GreenVm.Proofs.Quiet.Steps

namespace GreenVm

/-! ## Objects that stand for threads -/

namespace Heap

/-- The thread an object stands for. -/
def threadAt (h : Heap) (r : Ref) : Option ThreadId := (h.get? r).bind (·.payload.thread)

/-- Whether the thread an object stands for was started through this object. -/
def startedAt (h : Heap) (r : Ref) : Bool := (h.get? r).any (·.payload.started)

variable {h : Heap} {r r' : Ref} {o : Object} {f : Object → Object} {id : ThreadId}

/-- Changing objects otherwise than in what they stand for. -/
theorem threadAt_update (hf : ∀ o, h.get? r = some o →
      (f o).payload.thread = o.payload.thread ∧ (f o).payload.started = o.payload.started) :
    (h.update r f).threadAt r' = h.threadAt r' ∧ (h.update r f).startedAt r' = h.startedAt r' := by
  unfold threadAt startedAt
  rw [get?_update]
  by_cases hr : r = r'
  · subst hr
    cases ho : h.get? r with
    | none => simp
    | some o => simp [hf o ho]
  · simp [hr]

/-- A new object stands for nothing. -/
theorem threadAt_allocate (ho : o.Untouched) :
    (h.allocate o).2.threadAt r = h.threadAt r ∧ (h.allocate o).2.startedAt r = h.startedAt r := by
  unfold threadAt startedAt
  rw [get?_allocate]
  by_cases hr : r.index = h.objects.size
  · have hn : h.get? r = none := by simp [get?, hr]
    simp [hr, hn, ho.thread_eq, ho.started_eq]
  · simp [hr]

end Heap

namespace Machine

/-- The threads that were started, those included that are to be started after the step. -/
def startedIds (m : Machine) (before : List ThreadId) : List ThreadId :=
  before ++ m.requests.spawned.map Thread.id

end Machine

/-- Nothing has changed in what objects stand for, or in what was started. -/
structure SameThreads (m m' : Machine) : Prop where
  threadAt_eq : ∀ r, m'.heap.threadAt r = m.heap.threadAt r
  startedAt_eq : ∀ r, m'.heap.startedAt r = m.heap.startedAt r
  threadObjects_eq : m'.threadObjects = m.threadObjects
  nextThread_eq : m'.nextThread = m.nextThread
  spawned_eq : m'.requests.spawned = m.requests.spawned

/-- The threads of a machine, where `ids` are in use and those in `before` were started. -/
structure Registry (ids before : List ThreadId) (m : Machine) : Prop where
  inUse : ∀ id ∈ ids, id.index < m.nextThread
  listed : ∀ r id, m.heap.threadAt r = some id → (m.threadObjects.get? id).isSome
  issued : ∀ id, (m.threadObjects.get? id).isSome → id.index < m.nextThread
  unique : ∀ r r' id, m.heap.threadAt r = some id → m.heap.threadAt r' = some id → r = r'
  unstarted : ∀ r id, m.heap.threadAt r = some id → m.heap.startedAt r = false →
    id ∉ m.startedIds before
  started : ∀ id ∈ m.startedIds before, (m.threadObjects.get? id).isSome
  nodup : (m.startedIds before).Nodup

/-- Whatever threads are in use, those in `needed` among them, the registry is kept. -/
def KeepsRegistry (needed : List ThreadId) (m m' : Machine) : Prop :=
  ∀ ids before, needed ⊆ ids → Registry ids before m → Registry ids before m'

variable {α : Type} {ids before needed : List ThreadId} {id : ThreadId} {m m' m'' : Machine}
  {r : Ref} {x : Exec α} {call : NativeCall} {host : Host}

namespace SameThreads

theorem of_heap (hh : m'.heap = m.heap) (ht : m'.threadObjects = m.threadObjects)
    (hn : m'.nextThread = m.nextThread) (hs : m'.requests.spawned = m.requests.spawned) :
    SameThreads m m' :=
  ⟨fun _ => by rw [hh], fun _ => by rw [hh], ht, hn, hs⟩

theorem refl (m : Machine) : SameThreads m m := of_heap rfl rfl rfl rfl

theorem trans (h : SameThreads m m') (h' : SameThreads m' m'') : SameThreads m m'' where
  threadAt_eq := fun r => (h'.threadAt_eq r).trans (h.threadAt_eq r)
  startedAt_eq := fun r => (h'.startedAt_eq r).trans (h.startedAt_eq r)
  threadObjects_eq := h'.threadObjects_eq.trans h.threadObjects_eq
  nextThread_eq := h'.nextThread_eq.trans h.nextThread_eq
  spawned_eq := h'.spawned_eq.trans h.spawned_eq

theorem update {f : Object → Object} (hf : ∀ o, m.heap.get? r = some o →
      (f o).payload.thread = o.payload.thread ∧ (f o).payload.started = o.payload.started) :
    SameThreads m { m with heap := m.heap.update r f } :=
  ⟨fun _ => (Heap.threadAt_update hf).1, fun _ => (Heap.threadAt_update hf).2, rfl, rfl, rfl⟩

theorem allocate {o : Object} (h : o.Untouched) :
    SameThreads m { m with heap := (m.heap.allocate o).2 } :=
  ⟨fun _ => (Heap.threadAt_allocate h).1, fun _ => (Heap.threadAt_allocate h).2, rfl, rfl, rfl⟩

instance : Quiet SameThreads where
  refl := .refl
  trans _ _ _ := .trans
  load _ _ := .of_heap rfl rfl rfl rfl
  setStatics _ _ _ := .of_heap rfl rfl rfl rfl
  create _ _ h _ := .allocate h
  update _ _ _ h _ := .update fun o ho => ⟨(h o ho).thread_eq, (h o ho).started_eq⟩
  intern _ _ _ _ h _ _ _ := (SameThreads.allocate h).trans (.of_heap rfl rfl rfl rfl)
  classObject _ _ _ _ h _ _ _ := (SameThreads.allocate h).trans (.of_heap rfl rfl rfl rfl)
  print _ _ _ := .of_heap rfl rfl rfl rfl

instance : StoresBytes SameThreads where
  storeByte _ _ _ _ _ _ _ := .update fun _ _ => ⟨rfl, rfl⟩

instance : Initializes SameThreads where
  setInit _ _ _ := .of_heap rfl rfl rfl rfl

theorem startedIds_eq (h : SameThreads m m') (before : List ThreadId) :
    m'.startedIds before = m.startedIds before := by
  rw [Machine.startedIds, h.spawned_eq, Machine.startedIds]

theorem registry (h : SameThreads m m') (hr : Registry ids before m) : Registry ids before m' where
  inUse := h.nextThread_eq ▸ hr.inUse
  listed := fun r id e => by
    rw [h.threadObjects_eq]
    exact hr.listed r id (h.threadAt_eq r ▸ e)
  issued := fun id e => by
    rw [h.nextThread_eq]
    exact hr.issued id (h.threadObjects_eq ▸ e)
  unique := fun r r' id e e' => hr.unique r r' id (h.threadAt_eq r ▸ e) (h.threadAt_eq r' ▸ e')
  unstarted := fun r id e e' => by
    rw [h.startedIds_eq]
    exact hr.unstarted r id (h.threadAt_eq r ▸ e) (h.startedAt_eq r ▸ e')
  started := fun id e => by
    rw [h.threadObjects_eq]
    exact hr.started id (h.startedIds_eq before ▸ e)
  nodup := h.startedIds_eq before ▸ hr.nodup

theorem keepsRegistry (h : SameThreads m m') : KeepsRegistry needed m m' :=
  fun _ _ _ => h.registry

end SameThreads

namespace KeepsRegistry

instance : Std.Refl (KeepsRegistry needed) := ⟨fun _ _ _ _ h => h⟩

instance : IsTrans Machine (KeepsRegistry needed) :=
  ⟨fun _ _ _ h h' ids before hn hr => h' ids before hn (h ids before hn hr)⟩

instance : Quiet (KeepsRegistry needed) := .mono fun _ _ => SameThreads.keepsRegistry

instance : StoresBytes (KeepsRegistry needed) := .mono fun _ _ => SameThreads.keepsRegistry

instance : Initializes (KeepsRegistry needed) where
  setInit m c init := (Initializes.setInit (R := SameThreads) m c init).keepsRegistry

theorem of_leads (h : ∀ ids before, needed ⊆ ids → Leads (Registry ids before) x
      (fun _ => Registry ids before) (Registry ids before)) : Within (KeepsRegistry needed) x :=
  fun _ ids before hn hr => (h ids before hn).outcome_snd hr

theorem of_same (h : Within SameThreads x) : Within (KeepsRegistry needed) x :=
  fun m => (h m).keepsRegistry

end KeepsRegistry

/-! ## Giving ids to objects -/

/-- The registry with an id that was issued but is not in it yet. -/
structure Reserved (ids before : List ThreadId) (id : ThreadId) (m : Machine) : Prop
    extends Registry ids before m where
  below : id.index < m.nextThread
  absent : m.threadObjects.get? id = none

namespace Registry

/-- The next id is in use for nothing. -/
theorem issue (h : Registry ids before m) :
    Reserved ids before ⟨m.nextThread⟩ { m with nextThread := m.nextThread + 1 } where
  inUse := fun id hid => Nat.lt_succ_of_lt (h.inUse id hid)
  listed := h.listed
  issued := fun id hid => Nat.lt_succ_of_lt (h.issued id hid)
  unique := h.unique
  unstarted := h.unstarted
  started := h.started
  nodup := h.nodup
  below := Nat.lt_succ_self _
  absent := by
    by_contra hne
    exact (Nat.lt_irrefl _) (h.issued _ (Option.isSome_iff_ne_none.2 hne))

end Registry

namespace Reserved

theorem of_same (h : Reserved ids before id m) (hs : SameThreads m m') :
    Reserved ids before id m' where
  toRegistry := hs.registry h.toRegistry
  below := hs.nextThread_eq ▸ h.below
  absent := hs.threadObjects_eq ▸ h.absent

/-- The id may be used. -/
theorem use (h : Reserved ids before id m) : Reserved (ids ++ [id]) before id m :=
  { h with
    inUse := fun id' hid => (List.mem_append.1 hid).elim (h.inUse id')
      fun hid => List.mem_singleton.1 hid ▸ h.below }

/-- Quiet work between issuing an id and giving it to an object. -/
theorem leads (hx : Within SameThreads x) : Leads (Reserved ids before id) x
    (fun _ => Reserved ids before id) (Registry ids before) :=
  (Leads.of_within hx fun _ _ h hs => h.of_same hs).failing fun _ h => h.toRegistry

/-- An object that is to stand for the thread. -/
theorem bind (h : Reserved ids before id m) (r : Ref) : Registry ids before
    { m with
      heap := m.heap.update r fun o => { o with payload := { o.payload with thread := some id } }
      threadObjects := m.threadObjects.put id r } := by
  have threadAt {r' : Ref} {id' : ThreadId} (e : (m.heap.update r fun o =>
      { o with payload := { o.payload with thread := some id } }).threadAt r' = some id') :
      (r' = r ∧ id' = id) ∨ m.heap.threadAt r' = some id' := by
    unfold Heap.threadAt at e ⊢
    rw [Heap.get?_update] at e
    split at e
    · next hr =>
      cases ho : m.heap.get? r' with
      | none => simp [ho] at e
      | some o => exact .inl ⟨hr.symm, by simpa [ho] using e.symm⟩
    · exact .inr e
  have startedAt (r' : Ref) : (m.heap.update r fun o =>
      { o with payload := { o.payload with thread := some id } }).startedAt r' =
      m.heap.startedAt r' := by
    unfold Heap.startedAt
    rw [Heap.get?_update]
    split
    · cases m.heap.get? r' <;> rfl
    · rfl
  have isSome {id' : ThreadId} : ((m.threadObjects.put id r).get? id').isSome ↔
      id' = id ∨ (m.threadObjects.get? id').isSome := by
    rw [Table.get?_put]
    split
    · next e => simp [e]
    · next e => simp [Ne.symm e]
  have absent : ¬ (m.threadObjects.get? id).isSome := by simp [h.absent]
  exact
    { inUse := h.inUse
      listed := fun r' id' e => isSome.2 ((threadAt e).imp And.right (h.listed r' id'))
      issued := fun id' e => (isSome.1 e).elim (fun e => e ▸ h.below) (h.issued id')
      unique := fun r₁ r₂ id' e₁ e₂ => by
        rcases threadAt e₁ with ⟨hr₁, hid⟩ | h₁ <;> rcases threadAt e₂ with ⟨hr₂, hid'⟩ | h₂
        · exact hr₁.trans hr₂.symm
        · exact absurd (hid ▸ h.listed _ _ h₂) absent
        · exact absurd (hid' ▸ h.listed _ _ h₁) absent
        · exact h.unique r₁ r₂ id' h₁ h₂
      unstarted := fun r' id' e hs hm => by
        rcases threadAt e with ⟨-, rfl⟩ | e
        · exact absent (h.started _ hm)
        · exact h.unstarted r' id' e (startedAt r' ▸ hs) hm
      started := fun id' hm => isSome.2 (.inr (h.started id' hm))
      nodup := h.nodup }

end Reserved

namespace Exec

theorem issueThreadId_leads : Leads (Registry ids before) issueThreadId (Reserved ids before)
    (Registry ids before) := fun _ h => h.issue

theorem bindThread_leads : Leads (Reserved ids before id) (bindThread id r)
    (fun _ => Registry ids before) (Registry ids before) := by
  intro m h
  unfold bindThread updatePayload
  rcases object_cases r m with ⟨-, ho⟩ | ⟨o, ho, hr⟩
  · have hd : outcome (discard (object r)) m = (.error (.fatal (.danglingReference r)), m) := by
      rw [outcome_discard, ho]
      rfl
    rw [outcome_bind_error (outcome_bind_error hd)]
    exact h.toRegistry
  · have hd : outcome (discard (object r)) m = (.ok (), m) := by
      rw [outcome_discard, hr]
      rfl
    rw [outcome_bind, outcome_bind_ok hd]
    exact h.bind r

theorem newThreadObject_leads {name : String} : Leads (Reserved ids before id)
    (newThreadObject id name) (fun _ => Registry ids before) (Registry ids before) :=
  .bind (Reserved.leads newObject_within) fun _ => .bind (Reserved.leads newString_within) fun _ =>
    .bind (Reserved.leads putField_within) fun _ => .bind bindThread_leads fun _ =>
      .pure _ fun _ h => h

theorem threadObject_leads (hid : id ∈ ids) : Leads (Registry ids before) (threadObject id)
    (fun _ => Registry ids before) (Registry ids before) := by
  intro m h
  unfold threadObject
  rw [outcome_bind_ok (outcome_get m)]
  cases ho : m.threadObjects.get? id with
  | some r => exact h
  | none => exact newThreadObject_leads m { h with below := h.inUse id hid, absent := ho }

end Exec

/-! ## Starting threads -/

/-- The registry, with an object whose thread can be started. -/
structure Startable (ids before : List ThreadId) (r : Ref) (id : ThreadId) (m : Machine) : Prop
    extends Registry ids before m where
  threadAt_eq : m.heap.threadAt r = some id
  startedAt_eq : m.heap.startedAt r = false

namespace Startable

theorem of_same (h : Startable ids before r id m) (hs : SameThreads m m') :
    Startable ids before r id m' where
  toRegistry := hs.registry h.toRegistry
  threadAt_eq := (hs.threadAt_eq r).trans h.threadAt_eq
  startedAt_eq := (hs.startedAt_eq r).trans h.startedAt_eq

theorem leads (hx : Within SameThreads x) : Leads (Startable ids before r id) x
    (fun _ => Startable ids before r id) (Registry ids before) :=
  (Leads.of_within hx fun _ _ h hs => h.of_same hs).failing fun _ h => h.toRegistry

/-- The thread is started, and its object is marked. -/
theorem start (h : Startable ids before r id m) {t : Thread} (ht : t.id = id) :
    Registry ids before { m with
      heap := m.heap.update r fun o => { o with payload := { o.payload with started := true } }
      requests := { m.requests with spawned := m.requests.spawned ++ [t] } } := by
  let heap := m.heap.update r fun o => { o with payload := { o.payload with started := true } }
  have threadAt (r' : Ref) : heap.threadAt r' = m.heap.threadAt r' := by
    unfold Heap.threadAt
    rw [Heap.get?_update]
    split
    · cases m.heap.get? r' <;> rfl
    · rfl
  have startedAt {r' : Ref} (hr : r ≠ r') : heap.startedAt r' = m.heap.startedAt r' := by
    rw [Heap.startedAt, Heap.get?_update_of_ne hr, Heap.startedAt]
  have marked : heap.startedAt r = true := by
    cases ho : m.heap.get? r with
    | none => exact absurd h.threadAt_eq (by simp [Heap.threadAt, ho])
    | some o => simp [heap, Heap.startedAt, Heap.get?_update, ho]
  have ids_eq : before ++ (m.requests.spawned ++ [t]).map Thread.id =
      m.startedIds before ++ [id] := by
    simp [Machine.startedIds, ht]
  have unstarted : id ∉ m.startedIds before := h.unstarted r id h.threadAt_eq h.startedAt_eq
  refine
    { inUse := h.inUse
      listed := fun r' id' e => h.listed r' id' (threadAt r' ▸ e)
      issued := h.issued
      unique := fun r₁ r₂ id' e₁ e₂ => h.unique r₁ r₂ id' (threadAt r₁ ▸ e₁) (threadAt r₂ ▸ e₂)
      unstarted := fun r' id' e hs => ?_
      started := fun id' hm => ?_
      nodup := ?_ }
  · have hr : r ≠ r' := fun hr => by
      subst hr
      cases marked.symm.trans hs
    replace e : m.heap.threadAt r' = some id' := threadAt r' ▸ e
    show id' ∉ before ++ (m.requests.spawned ++ [t]).map Thread.id
    rw [ids_eq, List.mem_append, List.mem_singleton]
    rintro (hm | rfl)
    · exact h.unstarted r' id' e (startedAt hr ▸ hs) hm
    · exact hr (h.unique r r' id' h.threadAt_eq e)
  · rw [Machine.startedIds, ids_eq, List.mem_append, List.mem_singleton] at hm
    rcases hm with hm | rfl
    · exact h.started id' hm
    · exact h.listed r id' h.threadAt_eq
  · rw [Machine.startedIds, ids_eq]
    refine List.nodup_append.2 ⟨h.nodup, by simp, fun a ha b hb => ?_⟩
    rw [List.mem_singleton.1 hb]
    exact fun e => unstarted (e ▸ ha)

end Startable

namespace NativeCall

theorem initThread_leads {target : Option Ref} {name : Option String} :
    Leads (Registry ids before) (call.initThread target name) (fun _ => Registry ids before)
      (Registry ids before) :=
  .bind (.liftExcept _ (fun _ _ _ h => h) fun _ h => h) fun _ =>
    .bind Exec.issueThreadId_leads fun _ => .bind (Reserved.leads Exec.newString_within) fun _ =>
      .bind (Reserved.leads Exec.putField_within) fun _ =>
        .bind (Reserved.leads Exec.putField_within) fun _ =>
          .bind Exec.bindThread_leads fun _ => .pure _ fun _ h => h

/-- The thread of an object that was not started is. -/
theorem startRun_leads {r : Ref} {id : ThreadId} : Leads (Startable ids before r id) (startRun r id)
    (fun _ => Registry ids before) (Registry ids before) := by
  refine .bind (Startable.leads Exec.typeOf_within) fun c => ?_
  split
  · exact .throw _ fun _ h => h.toRegistry
  · refine .bind (Startable.leads threadName_within) fun name => ?_
    intro m h
    obtain ⟨o, ho, -⟩ := Option.bind_eq_some_iff.1 h.threadAt_eq
    have hd : outcome (discard (Exec.object r)) m = (.ok (), m) := by
      rw [outcome_discard, Exec.outcome_object ho]
      rfl
    unfold Exec.updatePayload
    rw [outcome_bind, outcome_bind_ok hd]
    exact h.start rfl

/-- Only an object that was not started is. -/
theorem startThread_leads : Leads (Registry ids before) call.startThread
    (fun _ => Registry ids before) (Registry ids before) := by
  refine .bind (.liftExcept _ (fun _ _ _ h => h) fun _ h => h) fun r => ?_
  intro m h
  rcases Exec.object_cases r m with ⟨-, ho⟩ | ⟨o, ho, hr⟩
  · rw [outcome_bind_error ho]
    exact h
  rw [outcome_bind_ok hr]
  cases hs : o.payload.started with
  | true => exact h
  | false =>
    simp only [Bool.false_eq_true, if_false]
    cases ht : o.payload.thread with
    | none =>
      have hid : outcome (threadOf r) m =
          (.error (.fatal (.unsupported .threadNotConstructed)), m) := by
        rw [threadOf, outcome_bind_ok hr, ht, outcome_throw]
      rw [outcome_bind_error hid]
      exact h
    | some id =>
      have hid : outcome (threadOf r) m = (.ok id, m) := by
        rw [threadOf, outcome_bind_ok hr, ht, outcome_pure]
      rw [outcome_bind_ok hid]
      have startable : Startable ids before r id m :=
        { h with
          threadAt_eq := by simp [Heap.threadAt, ho, ht]
          startedAt_eq := by simp [Heap.startedAt, ho, hs] }
      exact startRun_leads m startable

end NativeCall

/-! ## Native methods -/

namespace Exec

theorem request_sameThreads {f : Requests → Requests} (hf : ∀ q, (f q).spawned = q.spawned) :
    Within SameThreads (request f) := fun _ => .of_heap rfl rfl rfl (hf _)

theorem suspend_sameThreads {s : Suspend} : Within SameThreads (suspend s) :=
  request_sameThreads fun _ => rfl

theorem withMonitor_sameThreads {f : Monitor → Except Fault (α × Monitor)} :
    Within SameThreads (withMonitor r f) := by
  intro m
  rcases withMonitor_cases r f m with ⟨e, he⟩ | ⟨o, a, monitor, ho, -, he⟩
  · rw [he]
    exact .refl m
  · rw [he]
    refine .update fun o' ho' => ?_
    cases ho.symm.trans ho'
    exact ⟨rfl, rfl⟩

end Exec

theorem NativeCall.wait_sameThreads {millis : Option Nat} :
    Within SameThreads (call.wait millis) :=
  .bind (.liftExcept _) fun _ => .bind Exec.withMonitor_sameThreads fun _ =>
    .bind (Exec.request_sameThreads fun _ => rfl) fun _ =>
      .bind Exec.suspend_sameThreads fun _ => .pure _

theorem ObjectOp.run_sameThreads {op : ObjectOp} : Within SameThreads (op.run call) := by
  cases op with
  | wait => exact NativeCall.wait_sameThreads
  | waitTimeout =>
    refine .bind (.liftExcept _) fun _ => .bind (.liftExcept _) fun millis => ?_
    dsimp only
    split
    · exact .bind (.throw _) fun _ => NativeCall.wait_sameThreads
    · exact NativeCall.wait_sameThreads
  | notify =>
    exact .bind (.liftExcept _) fun _ => .bind Exec.withMonitor_sameThreads fun _ =>
      .bind (Exec.request_sameThreads fun _ => rfl) fun _ => .pure _
  | notifyAll =>
    exact .bind (.liftExcept _) fun _ => .bind Exec.withMonitor_sameThreads fun _ =>
      .bind (Exec.request_sameThreads fun _ => rfl) fun _ => .pure _
  | _ => exact ObjectOp.run_within rfl

theorem ThreadOp.run_keepsRegistry {op : ThreadOp} :
    Within (KeepsRegistry [call.thread]) (op.run call) := by
  have init {target : Option Ref} {name : Option String} :
      Within (KeepsRegistry [call.thread]) (call.initThread target name) :=
    .of_leads fun _ _ _ => NativeCall.initThread_leads
  have suspend {s : Suspend} : Within (KeepsRegistry [call.thread]) (do
      Exec.suspend s
      return none : Exec (Option Value)) :=
    .bind (.of_same Exec.suspend_sameThreads) fun _ => .pure _
  cases op with
  | init => exact init
  | initTarget => exact .bind (.liftExcept _) fun _ => .bind (.liftExcept _) fun _ => init
  | initTargetName =>
    exact .bind (.liftExcept _) fun _ => .bind (.liftExcept _) fun _ =>
      .bind NativeCall.stringArg_within fun _ => init
  | start => exact .of_leads fun _ _ _ => NativeCall.startThread_leads
  | join => exact .bind (.liftExcept _) fun _ => .bind threadOf_within fun _ => suspend
  | getName => exact run_within rfl
  | getId => exact run_within rfl
  | currentThread =>
    refine .bind (.of_leads fun ids _ hn => ?_) fun _ => .pure _
    exact Exec.threadObject_leads (hn (List.mem_singleton.2 rfl))
  | sleep =>
    refine .bind (.liftExcept _) fun _ => .bind (.liftExcept _) fun millis => ?_
    dsimp only
    split
    · exact .bind (.throw _) fun _ => suspend
    · exact suspend
  | yield => exact suspend

/-- The functions of an embedder keep the registry when they are called by a thread in use. -/
def Host.KeepsRegistry (host : Host) : Prop :=
  ∀ name call, GreenVm.Within (GreenVm.KeepsRegistry [call.thread]) (host name call)

theorem Host.idle_keepsRegistry : Host.idle.KeepsRegistry := fun _ _ => .pure _

theorem Native.run_keepsRegistry (hh : host.KeepsRegistry) {native : Native} :
    Within (KeepsRegistry [call.thread]) (native.run host call) := by
  cases native with
  | host name => exact hh name call
  | builtin op =>
    cases op with
    | object op => exact .of_same ObjectOp.run_sameThreads
    | system op =>
      cases op with
      | exit =>
        exact .bind (.liftExcept _) fun _ => .bind (.liftExcept _) fun _ =>
          .bind (.of_same (Exec.request_sameThreads fun _ => rfl)) fun _ => .pure _
      | _ => exact SystemOp.run_within rfl
    | thread op => exact ThreadOp.run_keepsRegistry
    | _ => exact Builtin.run_within rfl

/-! ## Steps -/

theorem stepsWithin_keepsRegistry (hh : host.KeepsRegistry) (id : ThreadId) :
    StepsWithin (KeepsRegistry [id]) host id where
  native native call h := by
    subst h
    exact Native.run_keepsRegistry hh
  tryEnter _ _ := .of_same Exec.withMonitor_sameThreads
  leave _ := .bind (.of_same Exec.withMonitor_sameThreads) fun _ =>
    .of_same (Exec.request_sameThreads fun _ => rfl)

/-- A step of a thread in use keeps the registry. -/
theorem Thread.step_keepsRegistry (hh : host.KeepsRegistry) (t : Thread) (m : Machine) :
    KeepsRegistry [t.id] m ((t.step host).run m).2 :=
  (Thread.step_within (stepsWithin_keepsRegistry hh t.id)).2

end GreenVm
