import Moxy.TaskConservation
import Moxy.Lib.Fifo

/-!
# Moxy: ready storage serves in order of arrival

Four operations put tasks into ready storage: an enqueue, the rollback of a fetch, the
expiry of a lease and the reconciliation after a restart.  All of them append.  The
only operation that takes a task out takes the first one.

`Store.Serves s u` gives the account between two stores: the transitions that were
logged in between, the tasks that they appended, and the tasks that they took.  Every
custody move has such an account, so every run has one.  The rest is a fact about
queues.
-/

namespace Moxy

open Lib

/-- The ID of the task that a transition appends to ready storage. -/
def Transition.arrives : Transition → Option GoString
  | .enqueued task => some task.id
  | .requeued taskID _ => some taskID
  | .orphaned taskID _ => some taskID
  | .acquired _ _ => none
  | .completed _ _ => none
  | .deadLettered _ _ => none

/-- The task that a transition takes out of ready storage. -/
def Transition.acquires : Transition → Option Task
  | .acquired _ task => some task
  | .enqueued _ => none
  | .requeued _ _ => none
  | .orphaned _ _ => none
  | .completed _ _ => none
  | .deadLettered _ _ => none

/-- The IDs of the arrivals of a history, in order. -/
def arrivals (log : List Transition) : List GoString :=
  log.filterMap Transition.arrives

/-- The tasks taken by the successful acquires of a history, in order. -/
def acquisitions (log : List Transition) : List Task :=
  log.filterMap Transition.acquires

@[simp] theorem arrivals_append
    (l m : List Transition) :
    arrivals (l ++ m) = arrivals l ++ arrivals m :=
  List.filterMap_append

@[simp] theorem acquisitions_append
    (l m : List Transition) :
    acquisitions (l ++ m) = acquisitions l ++ acquisitions m :=
  List.filterMap_append

namespace Store

variable {s t u : Store} {issued : List GoString}

/-- The account of ready storage from `s` to `u`. -/
def Serves (s u : Store) : Prop :=
  ∃ new added,
    u.log = s.log ++ new ∧
    added.map Task.id = arrivals new ∧
    Fifo.Passes s.queue.ready added (acquisitions new) u.queue.ready

theorem Serves.refl
    (s : Store) :
    s.Serves s :=
  ⟨[], [], (List.append_nil _).symm, rfl, Fifo.Passes.refl _⟩

theorem Serves.trans
    (h : s.Serves t)
    (h' : t.Serves u) :
    s.Serves u := by
  obtain ⟨new, added, hlog, hids, hpasses⟩ := h
  obtain ⟨new', added', hlog', hids', hpasses'⟩ := h'
  refine ⟨new ++ new', added ++ added', ?_, ?_, ?_⟩
  · rw [hlog', hlog, List.append_assoc]
  · rw [List.map_append, hids, hids', arrivals_append]
  · rw [acquisitions_append]
    exact hpasses.trans hpasses'

theorem serves_enqueue
    (task : Task) (s : Store) :
    s.Serves (s.enqueue task).2 :=
  ⟨[.enqueued task], [task], rfl, rfl, Fifo.Passes.arrive _ _⟩

theorem serves_acquire
    (leaseID : GoString) (s : Store) :
    s.Serves (s.acquire leaseID).2 := by
  rcases s.acquire_cases leaseID with ⟨next, rest, hready, heq⟩ | ⟨_, heq⟩
  · rw [heq]
    refine ⟨[.acquired leaseID next], [], rfl, rfl, ?_⟩
    rw [hready]
    exact Fifo.Passes.leave next rest
  · rw [heq]
    exact Serves.refl s

/-- Of the three endings only a requeue appends a task, the one it is about. -/
theorem serves_finish
    (hsound : s.Sound issued) (ending : Ending) (taskID leaseID : GoString) :
    s.Serves (s.finish ending taskID leaseID).2 := by
  rcases s.finish_cases ending taskID leaseID with ⟨task, hlookup, heq⟩ | ⟨_, _, _, heq⟩
  · rw [heq]
    have hid : task.id = taskID := hsound.keyed taskID _ hlookup
    cases ending with
    | completed =>
        exact ⟨[.completed taskID leaseID], [], rfl, rfl, Fifo.Passes.refl _⟩
    | requeued =>
        refine ⟨[.requeued taskID leaseID], [task.charged], rfl, ?_, Fifo.Passes.arrive _ _⟩
        exact congrArg (fun id => [id]) hid
    | deadLettered reason now =>
        exact ⟨[.deadLettered taskID leaseID], [], rfl, rfl, Fifo.Passes.refl _⟩
  · rw [heq]
    exact Serves.refl s

/-- A reconciliation appends the orphaned tasks, in the order of its visit. -/
theorem serves_recoverOrphanedProcessing
    (hsound : s.Sound issued) (order : List GoString) (active : List LeaseFence) :
    s.Serves (s.recoverOrphanedProcessing order active).2 := by
  refine ⟨(s.queue.orphans order active).map (fun o => .orphaned o.1 o.2.leaseID),
    (s.queue.orphans order active).map (·.2.task), rfl, ?_, ?_⟩
  · have hids : ∀ o ∈ s.queue.orphans order active, o.2.task.id = o.1 := by
      intro o ho
      exact hsound.keyed o.1 o.2 ((Map.mem_range order _ _ _).mp (List.mem_of_mem_filter ho))
    rw [arrivals, List.filterMap_map, List.map_map]
    exact (List.map_congr_left hids).trans (congrFun List.filterMap_eq_map _).symm
  · have htaken : acquisitions ((s.queue.orphans order active).map
        (fun o => .orphaned o.1 o.2.leaseID)) = [] := by
      rw [acquisitions, List.filterMap_map]
      exact List.filterMap_eq_nil_iff.mpr (fun _ _ => rfl)
    have hready : (s.recoverOrphanedProcessing order active).2.queue.ready =
        s.queue.ready ++ (s.queue.orphans order active).map (·.2.task) :=
      MemoryQueue.recoverOrphanedProcessing_ready order active s.queue
    rw [htaken, hready]
    exact Fifo.Passes.arrive _ _

/-- Arrivals are known, and an ID that is enqueued has not arrived before. -/
structure FirstEnqueued (issued : List GoString) (log : List Transition) : Prop where
  known : ∀ id ∈ arrivals log, id ∈ issued
  first : ∀ l task m, log = l ++ .enqueued task :: m → task.id ∉ arrivals l

namespace FirstEnqueued

variable {log : List Transition}

theorem mono
    {issued' : List GoString}
    (h : FirstEnqueued issued log)
    (hsub : ∀ id ∈ issued, id ∈ issued') :
    FirstEnqueued issued' log :=
  ⟨fun id hid => hsub id (h.known id hid), h.first⟩

theorem enqueue
    {task : Task}
    (h : FirstEnqueued issued log)
    (hfresh : task.id ∉ issued) :
    FirstEnqueued (task.id :: issued) (log ++ [.enqueued task]) where
  known := by
    intro id hid
    rw [arrivals_append] at hid
    rcases List.mem_append.mp hid with hold | hnew
    · exact List.mem_cons_of_mem _ (h.known id hold)
    · exact List.mem_cons.mpr (Or.inl (List.mem_singleton.mp hnew))
  first := by
    intro l other m hsplit
    rcases List.eq_nil_or_concat m with rfl | ⟨m', last, rfl⟩
    · obtain ⟨rfl, hlast⟩ := List.append_inj' hsplit rfl
      cases hlast
      exact fun hin => hfresh (h.known _ hin)
    · rw [List.concat_eq_append, ← List.cons_append, ← List.append_assoc] at hsplit
      exact h.first l other m' (List.append_inj' hsplit rfl).1

/-- Transitions other than an enqueue, about tasks that are known. -/
theorem extend
    {new : List Transition}
    (h : FirstEnqueued issued log)
    (hknown : ∀ id ∈ arrivals new, id ∈ issued)
    (hold : ∀ task, .enqueued task ∉ new) :
    FirstEnqueued issued (log ++ new) where
  known := by
    intro id hid
    rw [arrivals_append] at hid
    exact (List.mem_append.mp hid).elim (h.known id) (hknown id)
  first := by
    intro l task m hsplit
    rcases List.append_eq_append_iff.mp hsplit with ⟨mid, rfl, hnew⟩ | ⟨mid, rfl, hmid⟩
    · exact absurd (hnew ▸ List.mem_append_right _ List.mem_cons_self) (hold task)
    · cases mid with
      | nil =>
          rw [List.nil_append] at hmid
          exact absurd (hmid ▸ List.mem_cons_self) (hold task)
      | cons first mid =>
          rw [List.cons_append, List.cons.injEq] at hmid
          obtain ⟨rfl, rfl⟩ := hmid
          exact h.first l task mid rfl

theorem acquire
    (h : FirstEnqueued issued s.log) (leaseID : GoString) :
    FirstEnqueued issued (s.acquire leaseID).2.log := by
  rcases s.acquire_cases leaseID with ⟨next, rest, _, heq⟩ | ⟨_, heq⟩
  · rw [heq]
    exact h.extend (by simp [arrivals, Transition.arrives]) (by simp)
  · rw [heq]
    exact h

theorem finish
    (h : FirstEnqueued issued s.log)
    (hsound : s.Sound issued)
    (ending : Ending) (taskID leaseID : GoString) :
    FirstEnqueued issued (s.finish ending taskID leaseID).2.log := by
  rcases s.finish_cases ending taskID leaseID with ⟨task, hlookup, heq⟩ | ⟨_, _, _, heq⟩
  · rw [heq]
    have hknown : taskID ∈ issued :=
      hsound.taskIDs_issued _ (hsound.mem_taskIDs_of_processing hlookup)
    cases ending with
    | completed | deadLettered =>
        exact h.extend (by simp [arrivals, Transition.arrives, Ending.transition])
          (by simp [Ending.transition])
    | requeued =>
        refine h.extend ?_ (by simp [Ending.transition])
        intro id hid
        rw [List.mem_singleton.mp hid]
        exact hknown
  · rw [heq]
    exact h

theorem recoverOrphanedProcessing
    (h : FirstEnqueued issued s.log)
    (hsound : s.Sound issued)
    (order : List GoString) (active : List LeaseFence) :
    FirstEnqueued issued (s.recoverOrphanedProcessing order active).2.log := by
  refine h.extend ?_ ?_
  · intro id hid
    rw [arrivals, List.filterMap_map] at hid
    obtain ⟨o, ho, hsome⟩ := List.mem_filterMap.mp hid
    cases hsome
    exact hsound.taskIDs_issued _ (hsound.mem_taskIDs_of_processing
      ((Map.mem_range order _ _ _).mp (List.mem_of_mem_filter ho)))
  · intro task hmem
    obtain ⟨o, _, ho⟩ := List.mem_map.mp hmem
    cases ho

end FirstEnqueued

end Store

section Moves

variable {amb dur : Prop} {e : Event LeaseLog} {c c' : Custody}

/-- A move has an account. -/
theorem Move.serves
    (h : Move amb dur e c c')
    (hc : c.Sound) :
    c.store.Serves c'.store := by
  cases h with
  | enqueue => exact Store.serves_enqueue _ _
  | acquire => exact Store.serves_acquire _ _
  | rollback | finish => exact Store.serves_finish hc _ _ _
  | reconcile => exact Store.serves_recoverOrphanedProcessing hc _ _
  | waste | note | publish | abandon | close | drop | stop | reopen | closeStale
  | recovered => exact Store.Serves.refl _

theorem Move.firstEnqueued
    (h : Move amb dur e c c')
    (hc : c.Sound)
    (hfirst : Store.FirstEnqueued c.issued c.store.log) :
    Store.FirstEnqueued c'.issued c'.store.log := by
  have hsub : ∀ id : GoString, ∀ x ∈ c.issued, x ∈ id :: c.issued :=
    fun _ _ hx => List.mem_cons_of_mem _ hx
  cases h with
  | waste => exact hfirst.mono (hsub _)
  | enqueue _ _ hfresh => exact @Store.FirstEnqueued.enqueue _ _ ⟨_, _, 0⟩ hfirst hfresh
  | acquire => exact (hfirst.acquire _).mono (hsub _)
  | rollback | finish => exact hfirst.finish hc _ _ _
  | reconcile => exact hfirst.recoverOrphanedProcessing hc _ _
  | note | publish | abandon | close | drop | stop | reopen | closeStale
  | recovered => exact hfirst

end Moves

section Runs

variable {calls : List CallEnv} {appends : List AppendFate}
  {s u : System Storage LeaseLog} {es : List (Event LeaseLog × Reply)}

/-- A run has an account. -/
theorem anyRestart_serves
    (hrun : anyRestart.Run s es u)
    (hregular : s.Regular True)
    (hs : s.custody.Sound) :
    s.backend.store.Serves u.backend.store :=
  (anyRestart_keeps (K := fun _ => True)
    (P := fun c => s.backend.store.Serves c.store ∧ c.Sound) hrun
    (fun _ _ => trivial)
    (fun _ _ _ _ hmove hc => ⟨hc.1.trans (hmove.serves hc.2), hmove.sound hc.2⟩)
    hregular ⟨Store.Serves.refl _, hs⟩).2.1

theorem anyRestart_firstEnqueued
    (hrun : anyRestart.Run (System.empty calls appends) es u) :
    Store.FirstEnqueued u.issued u.backend.store.log :=
  (anyRestart_keeps (K := fun _ => True)
    (P := fun c => Store.FirstEnqueued c.issued c.store.log ∧ c.Sound) hrun
    (fun _ _ => trivial)
    (fun _ _ _ _ hmove hc => ⟨hmove.firstEnqueued hc.2 hc.1, hmove.sound hc.2⟩)
    System.regular_true ⟨⟨nofun, by simp [System.empty, System.custody]⟩, System.sound_empty⟩).2.1

end Runs

/-- A task is acquired only behind every task that was enqueued before it. -/
def FirstComeFirstServed (log : List Transition) : Prop :=
  ∀ l a m b n, log = (l ++ .enqueued a :: m) ++ .enqueued b :: n →
    ∀ p leaseID task q, log = p ++ .acquired leaseID task :: q → task.id = b.id →
      a.id ∈ (acquisitions p).map Task.id

theorem firstComeFirstServed_of_account
    {log : List Transition} {ready issued : List GoString}
    (hfirst : Store.FirstEnqueued issued log)
    (haccount : Fifo.Passes [] (arrivals log) ((acquisitions log).map Task.id) ready) :
    FirstComeFirstServed log := by
  intro l a m b n hb p leaseID task q hp hid
  have harrived : arrivals log =
      (arrivals l ++ a.id :: arrivals m) ++ b.id :: arrivals n := by
    rw [hb, arrivals_append, arrivals_append]
    rfl
  have htaken : (acquisitions log).map Task.id =
      (acquisitions p).map Task.id ++ b.id :: (acquisitions q).map Task.id := by
    rw [hp, acquisitions_append, List.map_append, ← hid]
    rfl
  have hnew : b.id ∉ arrivals l ++ a.id :: arrivals m := by
    have h := hfirst.first _ b n hb
    rwa [arrivals_append] at h
  rw [harrived, htaken] at haccount
  exact haccount.first_in hnew

/--
Ready storage is served without overtaking.  Take any run from an empty store, with
failing calls, stops and restarts, and any continuation of it.  Let `new` be what the
store logged in the continuation, and let a task be in ready storage at the start of it
with the entries `ahead` in front of it.

* As long as the task has not been acquired, it is in ready storage, and the entries in
  front of it are a suffix of `ahead`.
* If there were more acquires than entries in `ahead`, the one that follows as many as
  there were entries took the task.

In the whole run a task is acquired only behind every task that was enqueued before it.
-/
theorem ready_served_without_overtaking
    {calls : List CallEnv} {appends : List AppendFate}
    {es fs : List (Event LeaseLog × Reply)} {s u : System Storage LeaseLog}
    (hrun : anyRestart.Run (System.empty calls appends) es s)
    (hlater : anyRestart.Run s fs u) :
    ∃ new,
      u.backend.store.log = s.backend.store.log ++ new ∧
      (∀ ahead task behind,
        s.backend.store.queue.ready = ahead ++ task :: behind →
        (task.id ∉ (acquisitions new).map Task.id →
          ∃ ahead' behind',
            u.backend.store.queue.ready = ahead' ++ task :: behind' ∧
            ahead' <:+ ahead) ∧
        (ahead.length < (acquisitions new).length →
          (acquisitions new)[ahead.length]? = some task)) ∧
      FirstComeFirstServed u.backend.store.log := by
  obtain ⟨hregular, hsound⟩ := anyRestart_sound hrun System.regular_true System.sound_empty
  obtain ⟨new, added, hlog, _, hpasses⟩ := anyRestart_serves hlater hregular hsound
  have hwhole := hrun.trans hlater
  obtain ⟨all, arrived, hall, hids, haccount⟩ :=
    anyRestart_serves hwhole System.regular_true System.sound_empty
  refine ⟨new, hlog, ?_, ?_⟩
  · intro ahead task behind hready
    rw [hready] at hpasses
    refine ⟨?_, hpasses.leaves⟩
    intro hwaits
    have hfew : (acquisitions new).length ≤ ahead.length := by
      by_contra hmany
      have htaken := hpasses.leaves (Nat.lt_of_not_le hmany)
      exact hwaits (List.mem_map_of_mem (List.mem_of_getElem? htaken))
    obtain ⟨behind', hafter⟩ := hpasses.front hfew
    exact ⟨_, behind', hafter, List.drop_suffix _ _⟩
  · have hlogged : u.backend.store.log = all := hall
    have hserved := haccount.map Task.id
    rw [hids, ← hlogged] at hserved
    exact firstComeFirstServed_of_account (anyRestart_firstEnqueued hwhole) hserved

/-- Two tasks wait; the record of the first fetch will be refused. -/
def twoWait : List (Event LeaseLog) :=
  [.restart ⟨3, 0, true⟩ ⟨[], [], []⟩ ⟨[], [.refused []]⟩ [], .enqueue [65] [],
    .enqueue [66] []]

/-- A fetch is rolled back; the task behind is taken next, not the returned one. -/
theorem ready_served_without_overtaking_rollback :
    ∃ fs u new,
      anyRestart.Run (anyRestart.final (System.empty [] []) twoWait) fs u ∧
      u.backend.store.log =
        (anyRestart.final (System.empty [] []) twoWait).backend.store.log ++ new ∧
      (acquisitions new)[1]? = some ⟨[66], [], 0⟩ := by
  have hrun := anyRestart.run_of_admits twoWait (System.empty [] []) (by decide)
  have hlater := anyRestart.run_of_admits [.fetch [76] 5 10, .fetch [77] 6 10]
    (anyRestart.final (System.empty [] []) twoWait) (by decide)
  obtain ⟨new, hlog, hserves, _⟩ := ready_served_without_overtaking hrun hlater
  have hnew : new = [.acquired [76] ⟨[65], [], 0⟩, .requeued [65] [76],
      .acquired [77] ⟨[66], [], 0⟩] :=
    List.append_cancel_left (hlog.symm.trans (by decide))
  refine ⟨_, _, new, hlater, hlog, ?_⟩
  exact (hserves [⟨[65], [], 0⟩] ⟨[66], [], 0⟩ [] (by decide)).2 (by rw [hnew]; decide)

end Moxy
