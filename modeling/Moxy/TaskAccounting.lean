import Moxy.MemoryQueue

/-!
# Moxy: where the tasks of a queue are

Every task carries a card: its ID and its payload.  The lemmas of this module say
for each transition of the memory queue what it does to the list of all cards and
to the list of all fences in use, up to order.
-/

namespace Moxy

open Lib

/-- What never changes about a task. -/
def Task.card (task : Task) : GoString × Bytes :=
  (task.id, task.payload)

@[simp] theorem Task.card_charged
    (task : Task) :
    task.charged.card = task.card :=
  rfl

namespace MemoryQueue

/-- All tasks in ready, processing and dead storage. -/
def tasks (q : MemoryQueue) : List Task :=
  q.ready ++ ((q.processing.range []).map (·.2.task) ++ q.dead.map (·.task))

/-- The cards of all tasks. -/
def cards (q : MemoryQueue) : List (GoString × Bytes) :=
  q.tasks.map Task.card

/-- The lease IDs that fence a processing task. -/
def fences (q : MemoryQueue) : List GoString :=
  (q.processing.range []).map (·.2.leaseID)

/-- The lease ID that fences a task, if the task is in processing. -/
def FencedBy (q : MemoryQueue) (taskID leaseID : GoString) : Prop :=
  ∃ task, q.processing.lookup taskID = some ⟨task, leaseID⟩

theorem mem_fences
    {q : MemoryQueue} {leaseID : GoString} :
    leaseID ∈ q.fences ↔ ∃ taskID, q.FencedBy taskID leaseID := by
  unfold fences FencedBy
  constructor
  · intro h
    obtain ⟨⟨taskID, ⟨task, id⟩⟩, hb, rfl⟩ := List.mem_map.mp h
    exact ⟨taskID, task, (Map.mem_range [] _ _ _).mp hb⟩
  · rintro ⟨taskID, task, h⟩
    exact List.mem_map.mpr ⟨(taskID, ⟨task, leaseID⟩),
      (Map.mem_range [] _ _ _).mpr h, rfl⟩

/-- Cards, split by the place where the task is. -/
theorem cards_eq
    (q : MemoryQueue) :
    q.cards =
      q.ready.map Task.card ++
        ((q.processing.range []).map (·.2.task.card) ++
          q.dead.map (·.task.card)) := by
  simp [cards, tasks, Function.comp_def]

theorem enqueue_cards
    (task : Task) (q : MemoryQueue) :
    (q.enqueue task).2.cards.Perm (task.card :: q.cards) := by
  rw [cards_eq, cards_eq]
  simp only [enqueue, List.map_append, List.map_cons, List.map_nil,
    List.append_assoc, List.singleton_append]
  exact List.perm_middle

theorem acquire_cards
    {q : MemoryQueue} {next : Task} {rest : List Task}
    (hready : q.ready = next :: rest)
    (hnew : q.processing.lookup next.id = none) (leaseID : GoString) :
    (q.acquire leaseID).2.cards.Perm q.cards := by
  have hperm := Map.range_insert_perm [] [] hnew ⟨next, leaseID⟩
  have hproc := hperm.map (fun b : GoString × ProcessingEntry => b.2.task.card)
  rw [cards_eq, cards_eq]
  simp only [acquire, hready, List.map_cons, List.cons_append]
  refine (List.Perm.append_left _ (hproc.append_right _)).trans ?_
  simp only [List.map_cons, List.cons_append]
  exact List.perm_middle

theorem acquire_fences
    {q : MemoryQueue} {next : Task} {rest : List Task}
    (hready : q.ready = next :: rest)
    (hnew : q.processing.lookup next.id = none) (leaseID : GoString) :
    (q.acquire leaseID).2.fences.Perm (leaseID :: q.fences) := by
  have hperm := Map.range_insert_perm [] [] hnew ⟨next, leaseID⟩
  simpa only [fences, acquire, hready, List.map_cons] using
    hperm.map (fun b : GoString × ProcessingEntry => b.2.leaseID)

section Removal

variable {q : MemoryQueue} {taskID leaseID : GoString} {task : Task}
  (hlookup : q.processing.lookup taskID = some ⟨task, leaseID⟩)
include hlookup

theorem erase_fences :
    (leaseID :: fences { q with processing := q.processing.erase taskID }).Perm
      q.fences := by
  have hperm := Map.range_erase_perm [] [] hlookup
  simpa only [fences, List.map_cons] using
    (hperm.map (fun b : GoString × ProcessingEntry => b.2.leaseID)).symm

theorem erase_cards :
    (task.card :: cards { q with processing := q.processing.erase taskID }).Perm
      q.cards := by
  have hperm := Map.range_erase_perm [] [] hlookup
  have hproc := hperm.map (fun b : GoString × ProcessingEntry => b.2.task.card)
  rw [cards_eq, cards_eq]
  simp only [List.map_cons] at hproc
  refine List.Perm.symm ?_
  refine (List.Perm.append_left _ (hproc.append_right _)).trans ?_
  rw [List.cons_append]
  exact List.perm_middle

theorem placeReady_cards :
    (placeReady task
      { q with processing := q.processing.erase taskID }).cards.Perm q.cards := by
  have hplaced :=
    enqueue_cards task.charged { q with processing := q.processing.erase taskID }
  rw [Task.card_charged] at hplaced
  exact hplaced.trans (erase_cards hlookup)

theorem placeDead_cards
    (reason : GoString) (now : Int) :
    (placeDead reason now task
      { q with processing := q.processing.erase taskID }).cards.Perm q.cards := by
  refine List.Perm.trans ?_ (erase_cards hlookup)
  rw [cards_eq, cards_eq]
  simp only [placeDead, List.map_append, List.map_cons, List.map_nil,
    Task.card_charged, ← List.append_assoc]
  exact List.perm_append_singleton _ _

end Removal

section Recovery

variable (order : List GoString) (active : List LeaseFence) (q : MemoryQueue)

/-- The visit splits into the orphans and the entries that stay. -/
theorem range_recover_perm :
    (q.processing.range []).Perm
      (orphans order active q ++
        (recoverOrphanedProcessing order active q).2.processing.range []) := by
  have hsplit :
      (q.processing.range order).Perm
        (orphans order active q ++
          (q.processing.range order).filter
            (fun v => !decide ((⟨v.1, v.2.leaseID⟩ : LeaseFence) ∉ active))) :=
    (List.filter_append_perm _ _).symm
  refine (Map.range_perm [] order (fun _ => rfl)).trans
    (hsplit.trans (List.Perm.append_left _ ?_))
  rw [List.perm_ext_iff_of_nodup
    ((Map.range_nodup order q.processing).filter _) (Map.range_nodup _ _)]
  rintro ⟨taskID, entry⟩
  rw [List.mem_filter, Map.mem_range, Map.mem_range,
    recoverOrphanedProcessing_lookup]
  simp

theorem recover_cards :
    (recoverOrphanedProcessing order active q).2.cards.Perm q.cards := by
  have hperm := (range_recover_perm order active q).map
    (fun b : GoString × ProcessingEntry => b.2.task.card)
  rw [cards_eq, cards_eq, recoverOrphanedProcessing_ready,
    recoverOrphanedProcessing_dead]
  rw [List.map_append] at hperm
  simp only [List.map_append, List.map_map, List.append_assoc,
    Function.comp_def]
  refine List.Perm.append_left _ ?_
  rw [← List.append_assoc]
  exact (hperm.symm.append_right _)

theorem recover_fences :
    ((orphans order active q).map (·.2.leaseID) ++
      (recoverOrphanedProcessing order active q).2.fences).Perm q.fences := by
  have hperm := (range_recover_perm order active q).map
    (fun b : GoString × ProcessingEntry => b.2.leaseID)
  rw [List.map_append] at hperm
  exact hperm.symm

end Recovery

end MemoryQueue

end Moxy
