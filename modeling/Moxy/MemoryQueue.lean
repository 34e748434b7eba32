import Moxy.Domain
import Moxy.Lib.KeyedRange
import Mathlib.Data.Finset.Insert

/-!
# Moxy: the memory backend

`MemoryQueue` keeps ready tasks in arrival order, in-flight tasks in a map from
task ID to the task and the lease that fences it, and dead tasks in a list.

`complete`, `requeue` and `deadLetter` make the same check and differ only in
where the task goes afterwards; the check is `fenced`.  A failed check reports
one of the two stale errors and changes nothing.

`recoverOrphanedProcessing` walks over the processing map, whose iteration order
is open: the walk takes it as an argument.  `recoverOrphanedProcessing_ready`,
`recoverOrphanedProcessing_lookup` and `recoverOrphanedProcessing_matched` give
the result of the whole loop.
-/

namespace Moxy

open Lib

/-- A task that has left the retry loop. -/
structure DeadTask where
  task : Task
  reason : GoString
  deadAt : Int
deriving DecidableEq, Repr

/-- An in-flight task with the lease that fences it. -/
structure ProcessingEntry where
  task : Task
  leaseID : GoString
deriving DecidableEq, Repr

/-- What a startup reconciliation reports. -/
structure RecoveryResult where
  moved : Nat
  matchedLeaseIDs : Finset GoString
deriving DecidableEq

/-- Counts of the tasks that a backend owns. -/
structure QueueStats where
  ready : Nat
  processing : Nat
  dead : Nat
deriving DecidableEq, Repr

/-- The in-memory queue. -/
structure MemoryQueue where
  ready : List Task
  processing : Map GoString ProcessingEntry
  dead : List DeadTask
deriving DecidableEq

/-- The same task with one more attempt charged. -/
def Task.charged (task : Task) : Task :=
  { task with attempts := task.attempts + 1 }

/-- The errors that report a lease whose fence is gone. -/
def isStaleLeaseError (err : GoError) : Bool :=
  err.is .errTaskNotProcessing || err.is .errLeaseFenceMismatch

namespace MemoryQueue

/-- The empty queue. -/
def new : MemoryQueue :=
  ⟨[], ∅, []⟩

/-- Append a task to ready storage. -/
def enqueue (task : Task) (q : MemoryQueue) : Except GoError Unit × MemoryQueue :=
  (.ok (), { q with ready := q.ready ++ [task] })

/-- Move the oldest ready task into processing storage. -/
def acquire (leaseID : GoString) (q : MemoryQueue) :
    Except GoError Task × MemoryQueue :=
  match q.ready with
  | [] => (.error (.sentinel .errQueueEmpty), q)
  | next :: rest =>
      (.ok next,
        { q with
          ready := rest
          processing := q.processing.insert next.id ⟨next, leaseID⟩ })

/-- Take a task out of processing if its fence matches, then place it. -/
def fenced (taskID leaseID : GoString) (place : Task → MemoryQueue → MemoryQueue)
    (q : MemoryQueue) : Except GoError Unit × MemoryQueue :=
  match q.processing.lookup taskID with
  | none => (.error (.sentinel .errTaskNotProcessing), q)
  | some entry =>
      if entry.leaseID ≠ leaseID then
        (.error (.sentinel .errLeaseFenceMismatch), q)
      else
        (.ok (), place entry.task
          { q with processing := q.processing.erase taskID })

/-- Append a task with one more attempt to ready storage. -/
def placeReady (task : Task) (q : MemoryQueue) : MemoryQueue :=
  { q with ready := q.ready ++ [task.charged] }

/-- Append a task with one more attempt to dead-letter storage. -/
def placeDead (reason : GoString) (now : Int) (task : Task) (q : MemoryQueue) :
    MemoryQueue :=
  { q with dead := q.dead ++ [⟨task.charged, reason, now⟩] }

/-- Remove a processing task. -/
def complete (taskID leaseID : GoString) (q : MemoryQueue) :
    Except GoError Unit × MemoryQueue :=
  fenced taskID leaseID (fun _ q' => q') q

/-- Move a processing task back to ready storage. -/
def requeue (taskID leaseID : GoString) (q : MemoryQueue) :
    Except GoError Unit × MemoryQueue :=
  fenced taskID leaseID placeReady q

/-- Move a processing task into dead-letter storage. -/
def deadLetter (taskID leaseID reason : GoString) (now : Int) (q : MemoryQueue) :
    Except GoError Unit × MemoryQueue :=
  fenced taskID leaseID (placeDead reason now) q

/-- One iteration of the reconciliation loop. -/
def recoverStep (active : List LeaseFence)
    (acc : RecoveryResult × MemoryQueue) (visited : GoString × ProcessingEntry) :
    RecoveryResult × MemoryQueue :=
  if ⟨visited.1, visited.2.leaseID⟩ ∈ active then
    ({ acc.1 with
        matchedLeaseIDs := insert visited.2.leaseID acc.1.matchedLeaseIDs },
      acc.2)
  else
    ({ acc.1 with moved := acc.1.moved + 1 },
      { acc.2 with
        processing := acc.2.processing.erase visited.1
        ready := acc.2.ready ++ [visited.2.task] })

/-- Return processing tasks without an active lease to ready storage. -/
def recoverOrphanedProcessing (order : List GoString)
    (activeLeases : List LeaseFence) (q : MemoryQueue) :
    Except GoError RecoveryResult × MemoryQueue :=
  let result :=
    (q.processing.range order).foldl (recoverStep activeLeases) (⟨0, ∅⟩, q)
  (.ok result.1, result.2)

/-- Ready, processing and dead counts. -/
def stats (q : MemoryQueue) : QueueStats :=
  ⟨q.ready.length, q.processing.entries.length, q.dead.length⟩

/-- Both stale errors are stale. -/
@[simp] theorem isStaleLeaseError_notProcessing :
    isStaleLeaseError (.sentinel .errTaskNotProcessing) = true := by
  rfl

@[simp] theorem isStaleLeaseError_mismatch :
    isStaleLeaseError (.sentinel .errLeaseFenceMismatch) = true := by
  rfl

/-- The check of the three fenced transitions: both ways it can go. -/
theorem fenced_cases
    (taskID leaseID : GoString)
    (place : Task → MemoryQueue → MemoryQueue)
    (q : MemoryQueue) :
    (∃ task,
      q.processing.lookup taskID = some ⟨task, leaseID⟩ ∧
      fenced taskID leaseID place q =
        (.ok (), place task { q with processing := q.processing.erase taskID }))
      ∨
    (∃ err,
      (∀ entry, q.processing.lookup taskID = some entry →
        entry.leaseID ≠ leaseID) ∧
      isStaleLeaseError err = true ∧
      fenced taskID leaseID place q = (.error err, q)) := by
  unfold fenced
  cases hl : q.processing.lookup taskID with
  | none =>
      right
      exact ⟨_, by simp, isStaleLeaseError_notProcessing, rfl⟩
  | some entry =>
      by_cases he : entry.leaseID = leaseID
      · left
        refine ⟨entry.task, ?_, ?_⟩
        · rw [← he]
        · simp [he]
      · right
        refine ⟨_, ?_, isStaleLeaseError_mismatch, ?_⟩
        · intro e h
          cases h
          exact he
        · simp [he]

/-- The entries that a reconciliation with `active` returns to ready. -/
def orphans (order : List GoString) (active : List LeaseFence)
    (q : MemoryQueue) : List (GoString × ProcessingEntry) :=
  (q.processing.range order).filter
    (fun visited => ⟨visited.1, visited.2.leaseID⟩ ∉ active)

section RecoveryLoop

variable (active : List LeaseFence)

/-- The loop appends the orphaned tasks to ready in the order of the visit. -/
theorem foldl_recoverStep_ready :
    ∀ (visits : List (GoString × ProcessingEntry))
      (acc : RecoveryResult × MemoryQueue),
      (visits.foldl (recoverStep active) acc).2.ready =
        acc.2.ready ++
          ((visits.filter
            (fun v => ⟨v.1, v.2.leaseID⟩ ∉ active)).map (·.2.task)) := by
  intro visits
  induction visits with
  | nil =>
      intro acc
      simp
  | cons v visits ih =>
      intro acc
      rw [List.foldl_cons, ih]
      by_cases h : (⟨v.1, v.2.leaseID⟩ : LeaseFence) ∈ active
      · simp [recoverStep, h]
      · simp [recoverStep, h]

theorem foldl_recoverStep_dead :
    ∀ (visits : List (GoString × ProcessingEntry))
      (acc : RecoveryResult × MemoryQueue),
      (visits.foldl (recoverStep active) acc).2.dead = acc.2.dead := by
  intro visits
  induction visits with
  | nil =>
      intro acc
      rfl
  | cons v visits ih =>
      intro acc
      rw [List.foldl_cons, ih]
      unfold recoverStep
      split_ifs <;> rfl

/-- The loop deletes the visited keys that are not covered, and no others. -/
theorem foldl_recoverStep_processing :
    ∀ (visits : List (GoString × ProcessingEntry))
      (acc : RecoveryResult × MemoryQueue),
      (visits.foldl (recoverStep active) acc).2.processing =
        ((visits.filter
          (fun v => ⟨v.1, v.2.leaseID⟩ ∉ active)).map Prod.fst).foldl
          (fun m k => AList.erase k m) acc.2.processing := by
  intro visits
  induction visits with
  | nil =>
      intro acc
      rfl
  | cons v visits ih =>
      intro acc
      rw [List.foldl_cons, ih]
      by_cases h : (⟨v.1, v.2.leaseID⟩ : LeaseFence) ∈ active
      · simp [recoverStep, h]
      · simp [recoverStep, h]

theorem mem_foldl_recoverStep_matched (leaseID : GoString) :
    ∀ (visits : List (GoString × ProcessingEntry))
      (acc : RecoveryResult × MemoryQueue),
      leaseID ∈ (visits.foldl (recoverStep active) acc).1.matchedLeaseIDs ↔
        leaseID ∈ acc.1.matchedLeaseIDs ∨
        ∃ v ∈ visits,
          (⟨v.1, v.2.leaseID⟩ : LeaseFence) ∈ active ∧ v.2.leaseID = leaseID := by
  intro visits
  induction visits with
  | nil =>
      intro acc
      simp
  | cons v visits ih =>
      intro acc
      rw [List.foldl_cons, ih]
      by_cases h : (⟨v.1, v.2.leaseID⟩ : LeaseFence) ∈ active
      · simp only [recoverStep, if_pos h, Finset.mem_insert,
          List.exists_mem_cons_iff]
        constructor
        · rintro ((rfl | hm) | hv)
          · exact Or.inr (Or.inl ⟨h, rfl⟩)
          · exact Or.inl hm
          · exact Or.inr (Or.inr hv)
        · rintro (hm | ⟨_, rfl⟩ | hv)
          · exact Or.inl (Or.inr hm)
          · exact Or.inl (Or.inl rfl)
          · exact Or.inr hv
      · simp only [recoverStep, if_neg h, List.exists_mem_cons_iff]
        constructor
        · rintro (hm | hv)
          · exact Or.inl hm
          · exact Or.inr (Or.inr hv)
        · rintro (hm | ⟨hin, _⟩ | hv)
          · exact Or.inl hm
          · exact absurd hin h
          · exact Or.inr hv

end RecoveryLoop

/-- Reading a map after a list of deletions. -/
theorem lookup_foldl_erase
    {V : Type} (k : GoString) :
    ∀ (ks : List GoString) (m : Map GoString V),
      (ks.foldl (fun m k => AList.erase k m) m).lookup k =
        if k ∈ ks then none else m.lookup k := by
  intro ks
  induction ks with
  | nil =>
      intro m
      simp
  | cons k' ks ih =>
      intro m
      rw [List.foldl_cons, ih]
      by_cases h : k ∈ ks
      · simp [h]
      · rw [if_neg h, Map.lookup_erase_ite]
        by_cases hk : k = k'
        · simp [hk]
        · simp [hk, h]

variable (order : List GoString) (active : List LeaseFence) (q : MemoryQueue)

theorem recoverOrphanedProcessing_ready :
    (recoverOrphanedProcessing order active q).2.ready =
      q.ready ++ (orphans order active q).map (·.2.task) :=
  foldl_recoverStep_ready active _ _

theorem recoverOrphanedProcessing_dead :
    (recoverOrphanedProcessing order active q).2.dead = q.dead :=
  foldl_recoverStep_dead active _ _

theorem recoverOrphanedProcessing_processing :
    (recoverOrphanedProcessing order active q).2.processing =
      ((orphans order active q).map Prod.fst).foldl
        (fun m k => AList.erase k m) q.processing :=
  foldl_recoverStep_processing active _ _

/-- An entry survives reconciliation exactly if an active lease names it. -/
theorem recoverOrphanedProcessing_lookup
    (taskID : GoString) (entry : ProcessingEntry) :
    (recoverOrphanedProcessing order active q).2.processing.lookup taskID =
        some entry ↔
      q.processing.lookup taskID = some entry ∧
        ⟨taskID, entry.leaseID⟩ ∈ active := by
  rw [recoverOrphanedProcessing_processing, lookup_foldl_erase]
  have hmem :
      taskID ∈ (orphans order active q).map Prod.fst ↔
        ∃ e, q.processing.lookup taskID = some e ∧
          ⟨taskID, e.leaseID⟩ ∉ active := by
    simp [orphans]
  split_ifs with h
  · obtain ⟨e, he, hnot⟩ := hmem.mp h
    constructor
    · intro hnone
      cases hnone
    · rintro ⟨hl, hin⟩
      rw [he] at hl
      cases hl
      exact absurd hin hnot
  · constructor
    · intro hl
      refine ⟨hl, ?_⟩
      by_contra hnot
      exact h (hmem.mpr ⟨entry, hl, hnot⟩)
    · exact fun hl => hl.1

/-- A lease ID is reported as matched exactly if an active fence holds. -/
theorem recoverOrphanedProcessing_matched
    {result : RecoveryResult}
    (hresult : (recoverOrphanedProcessing order active q).1 = .ok result)
    (leaseID : GoString) :
    leaseID ∈ result.matchedLeaseIDs ↔
      ∃ taskID entry,
        q.processing.lookup taskID = some entry ∧
        entry.leaseID = leaseID ∧
        ⟨taskID, leaseID⟩ ∈ active := by
  have hr :
      result =
        ((q.processing.range order).foldl (recoverStep active) (⟨0, ∅⟩, q)).1 := by
    injection hresult with h
    exact h.symm
  rw [hr, mem_foldl_recoverStep_matched]
  constructor
  · rintro (hnone | ⟨⟨taskID, entry⟩, hv, hin, rfl⟩)
    · simp at hnone
    · exact ⟨taskID, entry, (Map.mem_range order _ _ _).mp hv, rfl, hin⟩
  · rintro ⟨taskID, entry, hl, rfl, hin⟩
    exact Or.inr
      ⟨(taskID, entry), (Map.mem_range order _ _ _).mpr hl, hin, rfl⟩

end MemoryQueue
end Moxy
