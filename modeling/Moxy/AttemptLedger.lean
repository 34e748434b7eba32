import Moxy.EngineSystem
import Moxy.StoreHistory
import Mathlib.Logic.Relation

/-!
# Moxy: the ledger of attempts

The history of a store says which leases of a task were charged: those that ended
in a requeue or in the dead-letter list.  `Store.Tallied` compares the attempts that
the tasks carry with that history, and bounds the number of times a task can leave
ready storage for good.

`Effect` lists what an event may do to the store as long as no fetch has to hand a
task back.  Whatever an event does, the ledger stays balanced (`Effect.tallied`).
-/

namespace Moxy

open Lib

namespace Transition

/-- The lease that a transition charges to the task. -/
def charge (taskID : GoString) : Transition → Option GoString
  | .requeued t leaseID => if t = taskID then some leaseID else none
  | .deadLettered t leaseID => if t = taskID then some leaseID else none
  | _ => none

/-- The lease with which a transition completes the task. -/
def completion (taskID : GoString) : Transition → Option GoString
  | .completed t leaseID => if t = taskID then some leaseID else none
  | _ => none

end Transition

/-- The ending that the cap `m` provides for a task whose lease ends. -/
def Ending.Suits (m : Int) (task : Task) : Ending → Prop
  | .completed => True
  | .requeued => 0 < m → task.attempts + 1 < m
  | .deadLettered _ _ => 0 < m ∧ m ≤ task.attempts + 1

theorem Ending.charge_transition
    (ending : Ending) (taskID leaseID other : GoString) :
    [ending.transition taskID leaseID].filterMap (Transition.charge other) =
      if taskID = other ∧ ending ≠ .completed then [leaseID] else [] := by
  by_cases h : taskID = other <;> cases ending <;>
    simp [Ending.transition, Transition.charge, List.filterMap_cons, h]

theorem Ending.completion_transition
    (ending : Ending) (taskID leaseID other : GoString) :
    [ending.transition taskID leaseID].filterMap (Transition.completion other) =
      if taskID = other ∧ ending = .completed then [leaseID] else [] := by
  by_cases h : taskID = other <;> cases ending <;>
    simp [Ending.transition, Transition.completion, List.filterMap_cons, h]

/-- What an ending may add to ready storage. -/
theorem Ending.mem_place_ready
    {ending : Ending} {task other : Task} {q : MemoryQueue}
    (h : other ∈ (ending.place task q).ready) :
    other ∈ q.ready ∨ (ending = .requeued ∧ other = task.charged) := by
  cases ending with
  | completed => exact Or.inl h
  | deadLettered reason now => exact Or.inl h
  | requeued =>
      rcases List.mem_append.mp h with hold | hnew
      · exact Or.inl hold
      · exact Or.inr ⟨rfl, List.mem_singleton.mp hnew⟩

/-- What an ending may add to dead-letter storage. -/
theorem Ending.mem_place_dead
    {ending : Ending} {task : Task} {other : DeadTask} {q : MemoryQueue}
    (h : other ∈ (ending.place task q).dead) :
    other ∈ q.dead ∨
      ∃ reason now, ending = .deadLettered reason now ∧
        other = ⟨task.charged, reason, now⟩ := by
  cases ending with
  | completed => exact Or.inl h
  | requeued => exact Or.inl h
  | deadLettered reason now =>
      rcases List.mem_append.mp h with hold | hnew
      · exact Or.inl hold
      · exact Or.inr ⟨reason, now, rfl, List.mem_singleton.mp hnew⟩

namespace Store

/-- The leases of a task that a requeue or a dead-letter move used up. -/
def charges (taskID : GoString) (s : Store) : List GoString :=
  s.log.filterMap (Transition.charge taskID)

/-- The leases with which a task was completed. -/
def completions (taskID : GoString) (s : Store) : List GoString :=
  s.log.filterMap (Transition.completion taskID)

/-- The lease that fences a task now, if there is one. -/
def holder (taskID : GoString) (s : Store) : List GoString :=
  (s.queue.processing.lookup taskID).toList.map ProcessingEntry.leaseID

/-- The leases under which a task left ready storage and was not simply returned. -/
def deliveries (taskID : GoString) (s : Store) : List GoString :=
  s.charges taskID ++ (s.completions taskID ++ s.holder taskID)

section Append

variable (taskID : GoString) (s : Store) (q : MemoryQueue) (moves : List Transition)

theorem charges_append :
    Store.charges taskID ⟨q, s.log ++ moves⟩ =
      s.charges taskID ++ moves.filterMap (Transition.charge taskID) :=
  List.filterMap_append

theorem completions_append :
    Store.completions taskID ⟨q, s.log ++ moves⟩ =
      s.completions taskID ++ moves.filterMap (Transition.completion taskID) :=
  List.filterMap_append

variable {taskID s q moves}

theorem charges_quiet
    (hquiet : ∀ move ∈ moves, move.charge taskID = none) :
    Store.charges taskID ⟨q, s.log ++ moves⟩ = s.charges taskID := by
  rw [charges_append, List.filterMap_eq_nil_iff.mpr hquiet, List.append_nil]

theorem completions_quiet
    (hquiet : ∀ move ∈ moves, move.completion taskID = none) :
    Store.completions taskID ⟨q, s.log ++ moves⟩ = s.completions taskID := by
  rw [completions_append, List.filterMap_eq_nil_iff.mpr hquiet, List.append_nil]

end Append

theorem mem_charges
    {taskID leaseID : GoString} {s : Store} :
    leaseID ∈ s.charges taskID ↔
      .requeued taskID leaseID ∈ s.log ∨ .deadLettered taskID leaseID ∈ s.log := by
  unfold charges
  rw [List.mem_filterMap]
  constructor
  · rintro ⟨move, hmove, hcharge⟩
    cases move with
    | requeued t l =>
        simp only [Transition.charge, Option.ite_none_right_eq_some,
          Option.some.injEq] at hcharge
        obtain ⟨rfl, rfl⟩ := hcharge
        exact Or.inl hmove
    | deadLettered t l =>
        simp only [Transition.charge, Option.ite_none_right_eq_some,
          Option.some.injEq] at hcharge
        obtain ⟨rfl, rfl⟩ := hcharge
        exact Or.inr hmove
    | enqueued | acquired | completed | orphaned => cases hcharge
  · rintro (h | h)
    · exact ⟨_, h, if_pos rfl⟩
    · exact ⟨_, h, if_pos rfl⟩

theorem mem_completions
    {taskID leaseID : GoString} {s : Store} :
    leaseID ∈ s.completions taskID ↔ .completed taskID leaseID ∈ s.log := by
  unfold completions
  rw [List.mem_filterMap]
  constructor
  · rintro ⟨move, hmove, hcompletion⟩
    cases move with
    | completed t l =>
        simp only [Transition.completion, Option.ite_none_right_eq_some,
          Option.some.injEq] at hcompletion
        obtain ⟨rfl, rfl⟩ := hcompletion
        exact hmove
    | enqueued | acquired | requeued | deadLettered | orphaned => cases hcompletion
  · exact fun h => ⟨_, h, if_pos rfl⟩

theorem mem_holder
    {taskID leaseID : GoString} {s : Store} :
    leaseID ∈ s.holder taskID ↔ s.queue.FencedBy taskID leaseID := by
  unfold holder MemoryQueue.FencedBy
  constructor
  · intro h
    obtain ⟨⟨task, l⟩, hentry, rfl⟩ := List.mem_map.mp h
    exact ⟨task, Option.mem_toList.mp hentry⟩
  · rintro ⟨task, hlookup⟩
    rw [hlookup]
    exact List.mem_singleton.mpr rfl

/-- The charges of all tasks are part of the lease IDs used up. -/
theorem charges_sublist_consumed
    (taskID : GoString) (s : Store) :
    (s.charges taskID).Sublist s.consumed := by
  unfold charges consumed
  induction s.log with
  | nil => exact List.Sublist.refl _
  | cons move rest ih =>
      cases move with
      | requeued t l | deadLettered t l =>
          simp only [List.filterMap_cons, Transition.charge, Transition.consumes]
          split_ifs
          · exact ih.cons_cons l
          · exact ih.cons l
      | completed t l | orphaned t l =>
          simp only [List.filterMap_cons, Transition.charge, Transition.consumes]
          exact ih.cons l
      | enqueued | acquired =>
          simpa only [List.filterMap_cons, Transition.charge,
            Transition.consumes] using ih

/--
The balance of a store under the cap `m`: a task carries as many attempts as it has
charges, only a dead task has used up the cap, and deliveries do not exceed it.
-/
structure Tallied (m : Int) (issued : List GoString) (s : Store) : Prop where
  ready : ∀ task ∈ s.queue.ready,
    task.attempts = (s.charges task.id).length ∧ (0 < m → task.attempts < m)
  processing : ∀ taskID entry, s.queue.processing.lookup taskID = some entry →
    entry.task.attempts = (s.charges taskID).length ∧
      (0 < m → entry.task.attempts < m)
  dead : ∀ dead ∈ s.queue.dead,
    dead.task.attempts = (s.charges dead.task.id).length ∧
      0 < m ∧ dead.task.attempts = m
  bounded : 0 < m → ∀ taskID, ((s.deliveries taskID).length : Int) ≤ m
  charged_issued : ∀ taskID, s.charges taskID ≠ [] → taskID ∈ issued

namespace Sound

variable {issued : List GoString} {s : Store}

/-- A task in processing is in no other place. -/
theorem not_mem_erased
    (h : Sound issued s) {taskID leaseID : GoString} {task : Task}
    (hlookup : s.queue.processing.lookup taskID = some ⟨task, leaseID⟩) :
    (∀ other ∈ s.queue.ready, other.id ≠ taskID) ∧
      ∀ other ∈ s.queue.dead, other.task.id ≠ taskID := by
  have hids := (MemoryQueue.erase_cards hlookup).map Prod.fst
  have hnodup := hids.nodup_iff.mpr h.taskIDs_nodup
  rw [List.map_cons, List.nodup_cons, MemoryQueue.cards_eq] at hnodup
  have hkey : task.card.1 = taskID := h.keyed _ _ hlookup
  rw [hkey] at hnodup
  constructor
  · intro other hother hid
    refine hnodup.1 (List.mem_map.mpr ⟨other.card, ?_, hid⟩)
    exact List.mem_append_left _ (List.mem_map_of_mem hother)
  · intro other hother hid
    refine hnodup.1 (List.mem_map.mpr ⟨other.task.card, ?_, hid⟩)
    exact List.mem_append_right _
      (List.mem_append_right _ (List.mem_map.mpr ⟨other, hother, rfl⟩))

/-- A task that is still in the store has not been completed. -/
theorem completions_eq_nil
    (h : Sound issued s)
    {taskID : GoString}
    (hin : taskID ∈ s.taskIDs) :
    s.completions taskID = [] := by
  rw [List.eq_nil_iff_forall_not_mem]
  intro leaseID hmem
  exact (h.completed_gone taskID leaseID (mem_completions.mp hmem)).1 hin

end Sound

section Balance

variable {m : Int} {issued : List GoString} {s : Store}

theorem deliveries_length
    (taskID : GoString) (s : Store) :
    (s.deliveries taskID).length =
      (s.charges taskID).length +
        ((s.completions taskID).length + (s.holder taskID).length) := by
  simp [deliveries]

/-- A transition that neither charges nor completes, seen from one task. -/
theorem Tallied.of_quiet
    {issued' : List GoString} {q : MemoryQueue} {moves : List Transition}
    (h : Tallied m issued s)
    (hsub : ∀ id ∈ issued, id ∈ issued')
    (hcharge : ∀ taskID, ∀ move ∈ moves, move.charge taskID = none)
    (hcompletion : ∀ taskID, ∀ move ∈ moves, move.completion taskID = none)
    (hready : ∀ task ∈ q.ready,
      task.attempts = (s.charges task.id).length ∧ (0 < m → task.attempts < m))
    (hprocessing : ∀ taskID entry, q.processing.lookup taskID = some entry →
      entry.task.attempts = (s.charges taskID).length ∧
        (0 < m → entry.task.attempts < m))
    (hdead : q.dead = s.queue.dead)
    (hbounded : 0 < m → ∀ taskID,
      ((s.charges taskID).length : Int) + ((s.completions taskID).length +
        ((q.processing.lookup taskID).toList.map
          ProcessingEntry.leaseID).length) ≤ m) :
    Tallied m issued' ⟨q, s.log ++ moves⟩ := by
  have hcharges : ∀ taskID,
      Store.charges taskID ⟨q, s.log ++ moves⟩ = s.charges taskID :=
    fun taskID => charges_quiet (hcharge taskID)
  have hcompletions : ∀ taskID,
      Store.completions taskID ⟨q, s.log ++ moves⟩ = s.completions taskID :=
    fun taskID => completions_quiet (hcompletion taskID)
  refine ⟨?_, ?_, ?_, ?_, ?_⟩
  · intro task htask
    rw [hcharges]
    exact hready task htask
  · intro taskID entry hlookup
    rw [hcharges]
    exact hprocessing taskID entry hlookup
  · intro dead hmem
    rw [hcharges]
    exact h.dead dead (by rw [← hdead]; exact hmem)
  · intro hm taskID
    rw [deliveries_length, hcharges, hcompletions]
    exact_mod_cast hbounded hm taskID
  · intro taskID hne
    rw [hcharges] at hne
    exact hsub taskID (h.charged_issued taskID hne)

theorem Tallied.mono
    {issued' : List GoString}
    (h : Tallied m issued s)
    (hsub : ∀ id ∈ issued, id ∈ issued') :
    Tallied m issued' s :=
  ⟨h.ready, h.processing, h.dead, h.bounded,
    fun taskID hne => hsub taskID (h.charged_issued taskID hne)⟩

theorem Tallied.new : Tallied m [] ⟨MemoryQueue.new, []⟩ where
  ready _ hmem := by cases hmem
  processing _ _ hlookup := by cases hlookup
  dead _ hmem := by cases hmem
  bounded hm _ := le_of_lt hm
  charged_issued _ hne := absurd rfl hne

theorem Tallied.bound
    (h : Tallied m issued s)
    (hm : 0 < m)
    (taskID : GoString) :
    ((s.charges taskID).length : Int) + ((s.completions taskID).length +
      (s.holder taskID).length) ≤ m := by
  have hbounded := h.bounded hm taskID
  rw [deliveries_length] at hbounded
  exact_mod_cast hbounded

/-- A new task has no charges. -/
theorem Tallied.enqueue
    {newID : GoString} {payload : Bytes}
    (h : Tallied m issued s)
    (hfresh : newID ∉ issued) :
    Tallied m (newID :: issued) (s.enqueue ⟨newID, payload, 0⟩).2 := by
  refine h.of_quiet (fun _ hid => List.mem_cons_of_mem _ hid) (by simp [Transition.charge])
    (by simp [Transition.completion]) ?_ h.processing rfl (fun hm => h.bound hm)
  intro task htask
  rcases List.mem_append.mp htask with hold | hnew
  · exact h.ready task hold
  · cases List.mem_singleton.mp hnew
    have hnone : s.charges newID = [] := by
      by_contra hne
      exact hfresh (h.charged_issued newID hne)
    rw [hnone]
    exact ⟨rfl, fun hm => hm⟩

/-- A task in ready storage has room for one more delivery. -/
theorem Tallied.acquire
    {leaseID : GoString}
    (h : Tallied m issued s)
    (hsound : Sound issued s) :
    Tallied m (leaseID :: issued) (s.acquire leaseID).2 := by
  have hsub : ∀ id ∈ issued, id ∈ leaseID :: issued :=
    fun _ hid => List.mem_cons_of_mem _ hid
  rcases acquire_cases leaseID s with ⟨next, rest, hready, heq⟩ | ⟨_, heq⟩
  · have hnext : next ∈ s.queue.ready := by simp [hready]
    rw [heq]
    refine h.of_quiet hsub (by simp [Transition.charge])
      (by simp [Transition.completion]) ?_ ?_ rfl ?_
    · intro task htask
      exact h.ready task (by simp [hready, htask])
    · intro taskID entry hlookup
      rw [Map.lookup_insert_ite] at hlookup
      split_ifs at hlookup with hk
      · cases hlookup
        rw [hk]
        exact h.ready next hnext
      · exact h.processing taskID entry hlookup
    · intro hm taskID
      rw [Map.lookup_insert_ite]
      split_ifs with hk
      · subst hk
        have hcompletions := hsound.completions_eq_nil
          (Sound.mem_taskIDs_of_ready hnext)
        obtain ⟨hattempts, hlt⟩ := h.ready next hnext
        have hroom := hlt hm
        rw [hcompletions]
        simp only [Option.toList_some, List.map_cons, List.map_nil,
          List.length_nil, List.length_singleton]
        omega
      · exact h.bound hm taskID
  · rw [heq]
    exact h.mono hsub

theorem Tallied.recoverOrphanedProcessing
    (h : Tallied m issued s)
    (hsound : Sound issued s)
    (order : List GoString) (active : List LeaseFence) :
    Tallied m issued (s.recoverOrphanedProcessing order active).2 := by
  have hkept := MemoryQueue.recoverOrphanedProcessing_lookup order active s.queue
  refine h.of_quiet (fun _ hid => hid) ?_ ?_ ?_ ?_ ?_ ?_
  · intro taskID move hmove
    obtain ⟨orphan, _, rfl⟩ := List.mem_map.mp hmove
    rfl
  · intro taskID move hmove
    obtain ⟨orphan, _, rfl⟩ := List.mem_map.mp hmove
    rfl
  · intro task htask
    rw [MemoryQueue.recoverOrphanedProcessing_ready] at htask
    rcases List.mem_append.mp htask with hold | hreturned
    · exact h.ready task hold
    · obtain ⟨⟨taskID, entry⟩, horphan, rfl⟩ := List.mem_map.mp hreturned
      have hlookup := (Map.mem_range order _ _ _).mp (List.mem_filter.mp horphan).1
      rw [hsound.keyed taskID entry hlookup]
      exact h.processing taskID entry hlookup
  · intro taskID entry hlookup
    exact h.processing taskID entry ((hkept taskID entry).mp hlookup).1
  · exact MemoryQueue.recoverOrphanedProcessing_dead order active s.queue
  · intro hm taskID
    have hbound := h.bound hm taskID
    cases hl : (s.queue.recoverOrphanedProcessing order active).2.processing.lookup
        taskID with
    | none =>
        simp only [Option.toList_none, List.map_nil, List.length_nil]
        omega
    | some entry =>
        rw [← ((hkept taskID entry).mp hl).1]
        exact hbound

/-- The deliveries of a task are the same before and after its lease ends. -/
theorem finish_deliveries
    {ending : Ending} {taskID leaseID : GoString} {task : Task}
    (hlookup : s.queue.processing.lookup taskID = some ⟨task, leaseID⟩)
    (other : GoString) :
    (Store.deliveries other
      ⟨ending.place task
        { s.queue with processing := s.queue.processing.erase taskID },
        s.log ++ [ending.transition taskID leaseID]⟩).length =
      (s.deliveries other).length := by
  rw [deliveries_length, deliveries_length, charges_append, completions_append,
    Ending.charge_transition, Ending.completion_transition]
  unfold holder
  rw [Ending.place_processing, Map.lookup_erase_ite]
  by_cases hk : other = taskID
  · subst hk
    rw [hlookup]
    by_cases hend : ending = .completed
    · simp [hend]
    · simp [hend]
      omega
  · simp [hk, Ne.symm hk]

section Finish

variable {ending : Ending} {taskID leaseID : GoString} {task : Task}

/-- The end of a lease changes the charges of its own task only. -/
theorem charges_finish_other
    {other : GoString} (hne : other ≠ taskID) (q : MemoryQueue) :
    Store.charges other ⟨q, s.log ++ [ending.transition taskID leaseID]⟩ =
      s.charges other := by
  rw [charges_append, Ending.charge_transition, if_neg (fun h => hne h.1.symm),
    List.append_nil]

theorem charges_finish_self
    (hend : ending ≠ .completed) (q : MemoryQueue) :
    Store.charges taskID ⟨q, s.log ++ [ending.transition taskID leaseID]⟩ =
      s.charges taskID ++ [leaseID] := by
  rw [charges_append, Ending.charge_transition, if_pos ⟨rfl, hend⟩]

/-- A task that moves on carries one attempt more, like its charges. -/
theorem Tallied.charged
    (h : Tallied m issued s)
    (hsound : Sound issued s)
    (hlookup : s.queue.processing.lookup taskID = some ⟨task, leaseID⟩)
    (hend : ending ≠ .completed) (q : MemoryQueue) :
    task.charged.attempts =
      (Store.charges task.charged.id
        ⟨q, s.log ++ [ending.transition taskID leaseID]⟩).length := by
  have hid : task.charged.id = taskID := hsound.keyed taskID _ hlookup
  have hattempts : task.attempts = (s.charges taskID).length :=
    (h.processing taskID _ hlookup).1
  rw [hid, charges_finish_self hend, List.length_append, List.length_singleton]
  simp only [Task.charged]
  push_cast
  omega

/-- The end of a lease that suits its task leaves the ledger balanced. -/
theorem Tallied.finish
    (h : Tallied m issued s)
    (hsound : Sound issued s)
    (hsuits : ∀ task, s.queue.processing.lookup taskID = some ⟨task, leaseID⟩ →
      ending.Suits m task) :
    Tallied m issued (s.finish ending taskID leaseID).2 := by
  rcases finish_cases ending taskID leaseID s with
    ⟨task, hlookup, heq⟩ | ⟨err, _, _, heq⟩
  · obtain ⟨hready, hdead⟩ := hsound.not_mem_erased hlookup
    have hsuit := hsuits task hlookup
    obtain ⟨hattempts, hlt⟩ := h.processing taskID _ hlookup
    rw [heq]
    refine ⟨?_, ?_, ?_, ?_, ?_⟩
    · intro other hother
      rcases Ending.mem_place_ready hother with hold | ⟨rfl, rfl⟩
      · rw [charges_finish_other (hready other hold)]
        exact h.ready other hold
      · exact ⟨h.charged hsound hlookup (by simp) _, hsuit⟩
    · intro other entry hentry
      rw [Ending.place_processing, Map.lookup_erase_ite] at hentry
      split_ifs at hentry with hk
      rw [charges_finish_other hk]
      exact h.processing other entry hentry
    · intro other hother
      rcases Ending.mem_place_dead hother with hold | ⟨reason, now, rfl, rfl⟩
      · rw [charges_finish_other (hdead other hold)]
        exact h.dead other hold
      · obtain ⟨hm, hfull⟩ := hsuit
        have hroom : task.attempts < m := hlt hm
        refine ⟨h.charged hsound hlookup (by simp) _, hm, ?_⟩
        simp only [Task.charged]
        omega
    · intro hm other
      rw [finish_deliveries hlookup]
      exact h.bounded hm other
    · intro other hne
      by_cases hk : other = taskID
      · subst hk
        exact hsound.taskIDs_issued _ (hsound.mem_taskIDs_of_processing hlookup)
      · rw [charges_finish_other hk] at hne
        exact h.charged_issued other hne
  · rw [heq]
    exact h

end Finish

end Balance

end Store

/-- The end of one expired lease, chosen to suit the task that it fences. -/
inductive Expiry (m now : Int) (leases : Map GoString Lease) : Store → Store → Prop
  | finish {s : Store} {lease : Lease} {ending : Ending}
      (hactive : leases.lookup lease.leaseID = some lease)
      (hdue : lease.expiresAt ≤ now)
      (hsuits : ∀ task,
        s.queue.processing.lookup lease.task.id = some ⟨task, lease.leaseID⟩ →
        ending.Suits m task) :
      Expiry m now leases s (s.finish ending lease.task.id lease.leaseID).2

/--
What an event does to the store if it hands no task back; `leases` are the leases
that were active before it.
-/
inductive Effect (m : Int) (leases : Map GoString Lease) :
    Event LeaseLog → Store → Store → Prop
  | idle {e : Event LeaseLog} {s : Store} : Effect m leases e s s
  | enqueue {newID : GoString} {payload : Bytes} {s : Store} :
      Effect m leases (.enqueue newID payload) s
        (s.enqueue ⟨newID, payload, 0⟩).2
  | acquire {leaseID : GoString} {now timeout : Int} {s : Store} :
      Effect m leases (.fetch leaseID now timeout) s (s.acquire leaseID).2
  | complete {leaseID : GoString} {taskID : GoString} {s : Store} :
      Effect m leases (.ack leaseID) s (s.finish .completed taskID leaseID).2
  | reap {now : Int} {s s' : Store}
      (hends : Relation.ReflTransGen (Expiry m now leases) s s') :
      Effect m leases (.reap now) s s'
  | reconcile {config : EngineConfig} {orders : RestoreOrders} {journal : LeaseLog}
      {recovered : List Record} {order : List GoString} {active : List LeaseFence}
      {s : Store} :
      Effect m leases (.restart config orders journal recovered) s
        (s.recoverOrphanedProcessing order active).2

section Effects

variable {m now : Int} {leases : Map GoString Lease} {issued : List GoString}
  {s s' : Store} {e : Event LeaseLog}

/-- Any number of expired leases. -/
theorem tallied_of_expiries
    (hends : Relation.ReflTransGen (Expiry m now leases) s s')
    (hsound : s.Sound issued)
    (h : s.Tallied m issued) :
    s'.Sound issued ∧ s'.Tallied m issued := by
  induction hends with
  | refl => exact ⟨hsound, h⟩
  | tail _ hlast ih =>
      obtain ⟨hsound', h'⟩ := ih
      cases hlast with
      | finish _ _ hsuits => exact ⟨hsound'.finish _ _ _, h'.finish hsound' hsuits⟩

/-- Every event keeps the ledger balanced. -/
theorem Effect.tallied
    (heffect : Effect m leases e s s')
    (hfresh : ∀ id ∈ e.newIDs, id ∉ issued)
    (hsound : s.Sound issued)
    (h : s.Tallied m issued) :
    s'.Tallied m (e.newIDs ++ issued) := by
  cases heffect with
  | idle => exact h.mono (fun _ hid => List.mem_append_right _ hid)
  | enqueue => exact h.enqueue (hfresh _ List.mem_cons_self)
  | acquire => exact h.acquire hsound
  | complete => exact h.finish hsound (fun _ _ => trivial)
  | reap hends => exact (tallied_of_expiries hends hsound h).2
  | reconcile => exact h.recoverOrphanedProcessing hsound _ _

/-- The end of a lease charges no other lease. -/
theorem Store.mem_charges_finish
    {ending : Ending} {taskID leaseID t l : GoString}
    (h : l ∈ (s.finish ending taskID leaseID).2.charges t) :
    l ∈ s.charges t ∨ (ending ≠ .completed ∧ l = leaseID ∧ t = taskID) := by
  rcases s.finish_cases ending taskID leaseID with
    ⟨task, _, heq⟩ | ⟨err, _, _, heq⟩
  · rw [heq, Store.charges_append, Ending.charge_transition] at h
    rcases List.mem_append.mp h with hold | hnew
    · exact Or.inl hold
    · split_ifs at hnew with hsame
      · exact Or.inr ⟨hsame.2, List.mem_singleton.mp hnew, hsame.1.symm⟩
      · cases hnew
  · rw [heq] at h
    exact Or.inl h

/-- A lease that is charged to a task is an expired lease on that task. -/
def ChargedNow (now : Int) (leases : Map GoString Lease)
    (taskID leaseID : GoString) : Prop :=
  ∃ lease, leases.lookup leaseID = some lease ∧ lease.task.id = taskID ∧
    lease.expiresAt ≤ now

theorem mem_charges_of_expiries
    {taskID leaseID : GoString}
    (hends : Relation.ReflTransGen (Expiry m now leases) s s')
    (h : leaseID ∈ s'.charges taskID) :
    leaseID ∈ s.charges taskID ∨ ChargedNow now leases taskID leaseID := by
  induction hends with
  | refl => exact Or.inl h
  | tail _ hlast ih =>
      cases hlast with
      | finish hactive hdue _ =>
          rcases Store.mem_charges_finish h with hold | ⟨_, rfl, rfl⟩
          · exact ih hold
          · exact Or.inr ⟨_, hactive, rfl, hdue⟩

/-- Only a reap charges, and it charges expired leases. -/
theorem Effect.mem_charges
    {taskID leaseID : GoString}
    (heffect : Effect m leases e s s')
    (h : leaseID ∈ s'.charges taskID) :
    leaseID ∈ s.charges taskID ∨
      ∃ now, e = .reap now ∧ ChargedNow now leases taskID leaseID := by
  cases heffect with
  | idle => exact Or.inl h
  | @enqueue newID payload =>
      have hsame : (s.enqueue ⟨newID, payload, 0⟩).2.charges taskID =
          s.charges taskID :=
        Store.charges_quiet (by simp [Transition.charge])
      exact Or.inl (hsame ▸ h)
  | @acquire acquiredID =>
      rcases s.acquire_cases acquiredID with ⟨next, rest, _, heq⟩ | ⟨_, heq⟩
      · rw [heq, Store.charges_quiet (by simp [Transition.charge])] at h
        exact Or.inl h
      · rw [heq] at h
        exact Or.inl h
  | complete =>
      rcases Store.mem_charges_finish h with hold | ⟨hne, _⟩
      · exact Or.inl hold
      · exact absurd rfl hne
  | reap hends =>
      rcases mem_charges_of_expiries hends h with hold | hnow
      · exact Or.inl hold
      · exact Or.inr ⟨_, rfl, hnow⟩
  | @reconcile _ _ _ _ order active =>
      have hsame : (s.recoverOrphanedProcessing order active).2.charges taskID =
          s.charges taskID := by
        refine Store.charges_quiet ?_
        intro move hmove
        obtain ⟨orphan, _, rfl⟩ := List.mem_map.mp hmove
        rfl
      exact Or.inl (hsame ▸ h)

end Effects

end Moxy
