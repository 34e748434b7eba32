import Moxy.FaultyStorage
import Moxy.TaskAccounting

/-!
# Moxy: what a store owes to its history

`Store.Sound` holds of a store after any history in which UUIDs do not repeat: no
two tasks share an ID, every lease ID fences at most one task and is used up at
most once, a completed task is gone, and every other enqueued task is still there
with its payload.

The three fenced transitions are one transition, `Store.finish`, with three
endings.
-/

namespace Moxy

open Lib

/-- Where a task goes when its fence is used up by its lease. -/
inductive Ending where
  | completed
  | requeued
  | deadLettered (reason : GoString) (now : Int)
deriving DecidableEq, Repr

namespace Ending

def place : Ending → Task → MemoryQueue → MemoryQueue
  | completed => fun _ q => q
  | requeued => MemoryQueue.placeReady
  | deadLettered reason now => MemoryQueue.placeDead reason now

def transition (taskID leaseID : GoString) : Ending → Transition
  | completed => .completed taskID leaseID
  | requeued => .requeued taskID leaseID
  | deadLettered _ _ => .deadLettered taskID leaseID

@[simp] theorem place_processing
    (ending : Ending) (task : Task) (q : MemoryQueue) :
    (ending.place task q).processing = q.processing := by
  cases ending <;> rfl

end Ending

/-- The lease ID whose fence a transition uses up. -/
def Transition.consumes : Transition → Option GoString
  | .completed _ leaseID => some leaseID
  | .requeued _ leaseID => some leaseID
  | .deadLettered _ leaseID => some leaseID
  | .orphaned _ leaseID => some leaseID
  | .enqueued _ => none
  | .acquired _ _ => none

@[simp] theorem Ending.consumes_transition
    (ending : Ending) (taskID leaseID : GoString) :
    (ending.transition taskID leaseID).consumes = some leaseID := by
  cases ending <;> rfl

namespace Store

/-- A fenced transition. -/
def finish (ending : Ending) (taskID leaseID : GoString) (s : Store) :
    Except GoError Unit × Store :=
  logging (fun _ => [ending.transition taskID leaseID])
    (s.queue.fenced taskID leaseID ending.place) s

theorem complete_eq_finish
    (taskID leaseID : GoString) (s : Store) :
    s.complete taskID leaseID = s.finish .completed taskID leaseID :=
  rfl

/-- A fenced transition removes its task, or reports a stale fence. -/
theorem finish_cases
    (ending : Ending) (taskID leaseID : GoString) (s : Store) :
    (∃ task,
      s.queue.processing.lookup taskID = some ⟨task, leaseID⟩ ∧
      s.finish ending taskID leaseID =
        (.ok (),
          ⟨ending.place task
            { s.queue with processing := s.queue.processing.erase taskID },
            s.log ++ [ending.transition taskID leaseID]⟩))
      ∨
    (∃ err,
      ¬ s.queue.FencedBy taskID leaseID ∧
      isStaleLeaseError err = true ∧
      s.finish ending taskID leaseID = (.error err, s)) := by
  rcases MemoryQueue.fenced_cases taskID leaseID ending.place s.queue with
    ⟨task, hlookup, heq⟩ | ⟨err, hnot, hstale, heq⟩
  · left
    refine ⟨task, hlookup, ?_⟩
    unfold finish logging
    rw [heq]
  · right
    refine ⟨err, ?_, hstale, ?_⟩
    · rintro ⟨task, hlookup⟩
      exact hnot _ hlookup rfl
    · unfold finish logging
      rw [heq]

/-- A store hands out the oldest ready task, if there is one. -/
theorem acquire_cases
    (leaseID : GoString) (s : Store) :
    (∃ next rest,
      s.queue.ready = next :: rest ∧
      s.acquire leaseID =
        (.ok next,
          ⟨⟨rest, s.queue.processing.insert next.id ⟨next, leaseID⟩,
            s.queue.dead⟩, s.log ++ [.acquired leaseID next]⟩))
      ∨
    (s.queue.ready = [] ∧
      s.acquire leaseID = (.error (.sentinel .errQueueEmpty), s)) := by
  unfold acquire logging MemoryQueue.acquire
  cases hready : s.queue.ready with
  | nil =>
      right
      exact ⟨rfl, rfl⟩
  | cons next rest =>
      left
      exact ⟨next, rest, rfl, rfl⟩

theorem finish_not_fenced
    (ending : Ending) (taskID leaseID : GoString) (s : Store) :
    ¬ (s.finish ending taskID leaseID).2.queue.FencedBy taskID leaseID := by
  rcases s.finish_cases ending taskID leaseID with
    ⟨task, _, heq⟩ | ⟨err, hnot, _, heq⟩
  · rw [heq]
    rintro ⟨task', h⟩
    simp at h
  · rw [heq]
    exact hnot

/-- The completions that a fenced transition adds to the history. -/
theorem finish_completed
    {ending : Ending} {taskID leaseID t l : GoString} {s : Store}
    (h : .completed t l ∈ (s.finish ending taskID leaseID).2.log) :
    .completed t l ∈ s.log ∨
      (ending = .completed ∧ t = taskID ∧ l = leaseID ∧ s.queue.FencedBy t l) := by
  rcases s.finish_cases ending taskID leaseID with
    ⟨task, hlookup, heq⟩ | ⟨err, _, _, heq⟩
  · rw [heq] at h
    rcases List.mem_append.mp h with hold | hnew
    · exact Or.inl hold
    · right
      cases ending with
      | completed =>
          have hsame : t = taskID ∧ l = leaseID := by
            simpa [Ending.transition] using hnew
          obtain ⟨rfl, rfl⟩ := hsame
          exact ⟨rfl, rfl, rfl, task, hlookup⟩
      | requeued => simp [Ending.transition] at hnew
      | deadLettered reason now => simp [Ending.transition] at hnew
  · rw [heq] at h
    exact Or.inl h

theorem finish_lookup
    {s : Store} {ending : Ending} {taskID leaseID t : GoString}
    {entry : ProcessingEntry}
    (h : (s.finish ending taskID leaseID).2.queue.processing.lookup t =
      some entry) :
    s.queue.processing.lookup t = some entry := by
  rcases s.finish_cases ending taskID leaseID with
    ⟨task, _, heq⟩ | ⟨err, _, _, heq⟩
  · rw [heq, Ending.place_processing, Map.lookup_erase_ite] at h
    split_ifs at h
    exact h
  · rw [heq] at h
    exact h

/-- A fenced transition creates no fence. -/
theorem finish_fencedBy
    {ending : Ending} {taskID leaseID t l : GoString} {s : Store}
    (h : (s.finish ending taskID leaseID).2.queue.FencedBy t l) :
    s.queue.FencedBy t l := by
  obtain ⟨task, hl⟩ := h
  exact ⟨task, finish_lookup hl⟩

/-- A fenced transition of another lease leaves the entry alone. -/
theorem finish_lookup_other
    {s : Store} {ending : Ending} {taskID leaseID t : GoString}
    {entry : ProcessingEntry}
    (h : s.queue.processing.lookup t = some entry)
    (hne : entry.leaseID ≠ leaseID) :
    (s.finish ending taskID leaseID).2.queue.processing.lookup t =
      some entry := by
  rcases s.finish_cases ending taskID leaseID with
    ⟨task, hlookup, heq⟩ | ⟨err, _, _, heq⟩
  · rw [heq, Ending.place_processing, Map.lookup_erase_ite]
    split_ifs with hk
    · subst hk
      rw [h] at hlookup
      cases hlookup
      exact absurd rfl hne
    · exact h
  · rw [heq]
    exact h

/-- An acquired task is the only new processing entry. -/
theorem acquire_lookup
    {s : Store} {leaseID t : GoString} {entry : ProcessingEntry}
    {next : Task} {rest : List Task}
    (hready : s.queue.ready = next :: rest)
    (h : (s.acquire leaseID).2.queue.processing.lookup t = some entry) :
    (t = next.id ∧ entry = ⟨next, leaseID⟩) ∨
      s.queue.processing.lookup t = some entry := by
  rcases s.acquire_cases leaseID with ⟨next', rest', hready', heq⟩ | ⟨hnil, _⟩
  · rw [hready] at hready'
    cases hready'
    rw [heq, Map.lookup_insert_ite] at h
    split_ifs at h with hk
    · exact Or.inl ⟨hk, (Option.some.inj h).symm⟩
    · exact Or.inr h
  · rw [hready] at hnil
    cases hnil

/-- Only an acquisition makes a fence, and it makes the fence of the claim. -/
theorem acquire_fencedBy
    {s : Store} {leaseID t l : GoString} {next : Task} {rest : List Task}
    (hready : s.queue.ready = next :: rest)
    (h : (s.acquire leaseID).2.queue.FencedBy t l) :
    l = leaseID ∨ s.queue.FencedBy t l := by
  obtain ⟨task, hl⟩ := h
  rcases Store.acquire_lookup hready hl with ⟨_, hentry⟩ | hold
  · cases hentry
    exact Or.inl rfl
  · exact Or.inr ⟨task, hold⟩

theorem acquire_ok
    {s : Store} {leaseID : GoString} {task : Task}
    (h : (s.acquire leaseID).1 = .ok task) :
    ∃ rest, s.queue.ready = task :: rest := by
  rcases s.acquire_cases leaseID with ⟨next, rest, hready, heq⟩ | ⟨_, heq⟩
  · rw [heq] at h
    cases h
    exact ⟨rest, hready⟩
  · rw [heq] at h
    cases h

theorem logging_log
    {α : Type} (entries : α → List Transition)
    (result : Except GoError α × MemoryQueue) (s : Store) :
    s.log <+: (Store.logging entries result s).2.log := by
  unfold Store.logging
  cases result.1 with
  | ok a => exact List.prefix_append _ _
  | error err => exact List.prefix_refl _

/-- The lease IDs used up so far. -/
def consumed (s : Store) : List GoString :=
  s.log.filterMap Transition.consumes

/-- The IDs of the tasks in the store. -/
def taskIDs (s : Store) : List GoString :=
  s.queue.cards.map Prod.fst

/-- The state of a store whose history used each UUID of `issued` once. -/
structure Sound (issued : List GoString) (s : Store) : Prop where
  keyed : ∀ taskID entry,
    s.queue.processing.lookup taskID = some entry → entry.task.id = taskID
  taskIDs_nodup : s.taskIDs.Nodup
  taskIDs_issued : ∀ id ∈ s.taskIDs, id ∈ issued
  fences_nodup : (s.consumed ++ s.queue.fences).Nodup
  fences_issued : ∀ id ∈ s.consumed ++ s.queue.fences, id ∈ issued
  completed_gone : ∀ taskID leaseID,
    .completed taskID leaseID ∈ s.log → taskID ∉ s.taskIDs ∧ taskID ∈ issued
  enqueued_kept : ∀ task, .enqueued task ∈ s.log →
    task.card ∈ s.queue.cards ∨ ∃ leaseID, .completed task.id leaseID ∈ s.log

namespace Sound

variable {issued : List GoString} {s : Store}

theorem mono
    {issued' : List GoString} (h : Sound issued s)
    (hsub : ∀ id ∈ issued, id ∈ issued') :
    Sound issued' s where
  keyed := h.keyed
  taskIDs_nodup := h.taskIDs_nodup
  taskIDs_issued id hid := hsub id (h.taskIDs_issued id hid)
  fences_nodup := h.fences_nodup
  fences_issued id hid := hsub id (h.fences_issued id hid)
  completed_gone taskID leaseID hc :=
    ⟨(h.completed_gone taskID leaseID hc).1,
      hsub taskID (h.completed_gone taskID leaseID hc).2⟩
  enqueued_kept := h.enqueued_kept

theorem new : Sound [] ⟨MemoryQueue.new, []⟩ where
  keyed taskID entry h := by simp [MemoryQueue.new] at h
  taskIDs_nodup := by decide
  taskIDs_issued := by decide
  fences_nodup := by decide
  fences_issued := by decide
  completed_gone _ _ h := by cases h
  enqueued_kept _ h := by cases h

theorem mem_taskIDs_of_processing
    (h : Sound issued s) {taskID : GoString} {entry : ProcessingEntry}
    (hlookup : s.queue.processing.lookup taskID = some entry) :
    taskID ∈ s.taskIDs := by
  rw [taskIDs, MemoryQueue.cards_eq, List.map_append, List.map_append]
  refine List.mem_append_right _ (List.mem_append_left _ (List.mem_map.mpr
    ⟨entry.task.card, ?_, h.keyed taskID entry hlookup⟩))
  exact List.mem_map.mpr
    ⟨(taskID, entry), (Map.mem_range [] _ _ _).mpr hlookup, rfl⟩

/-- A ready task is not in processing. -/
theorem ready_not_processing
    (h : Sound issued s)
    {next : Task}
    (hready : next ∈ s.queue.ready) :
    s.queue.processing.lookup next.id = none := by
  cases hl : s.queue.processing.lookup next.id with
  | none => rfl
  | some entry =>
      exfalso
      have hkey := h.keyed next.id entry hl
      have hnodup := h.taskIDs_nodup
      unfold taskIDs at hnodup
      rw [MemoryQueue.cards_eq, List.map_append, List.map_append,
        List.nodup_append] at hnodup
      refine hnodup.2.2 next.id ?_ next.id ?_ rfl
      · exact List.mem_map.mpr
          ⟨next.card, List.mem_map_of_mem hready, rfl⟩
      · refine List.mem_append_left _ (List.mem_map.mpr
          ⟨entry.task.card, ?_, hkey⟩)
        exact List.mem_map.mpr
          ⟨(next.id, entry), (Map.mem_range [] _ _ _).mpr hl, rfl⟩

theorem mem_taskIDs_of_ready
    {next : Task} (hready : next ∈ s.queue.ready) :
    next.id ∈ s.taskIDs := by
  unfold taskIDs
  rw [MemoryQueue.cards_eq, List.map_append]
  exact List.mem_append_left _
    (List.mem_map.mpr ⟨next.card, List.mem_map_of_mem hready, rfl⟩)

theorem enqueue
    (h : Sound issued s)
    {task : Task}
    (hfresh : task.id ∉ issued) :
    Sound (task.id :: issued) (s.enqueue task).2 := by
  have hcards := MemoryQueue.enqueue_cards task s.queue
  have hids : ((s.enqueue task).2.taskIDs).Perm (task.id :: s.taskIDs) :=
    hcards.map Prod.fst
  have hnew : task.id ∉ s.taskIDs := fun hin => hfresh (h.taskIDs_issued _ hin)
  have hconsumed : (s.enqueue task).2.consumed = s.consumed := by
    simp [consumed, Store.enqueue, logging, MemoryQueue.enqueue,
      Transition.consumes]
  refine ⟨h.keyed, ?_, ?_, ?_, ?_, ?_, ?_⟩
  · exact hids.nodup_iff.mpr (List.nodup_cons.mpr ⟨hnew, h.taskIDs_nodup⟩)
  · intro id hid
    rcases List.mem_cons.mp (hids.mem_iff.mp hid) with rfl | hold
    · exact List.mem_cons_self
    · exact List.mem_cons_of_mem _ (h.taskIDs_issued id hold)
  · rw [hconsumed]
    exact h.fences_nodup
  · rw [hconsumed]
    exact fun id hid => List.mem_cons_of_mem _ (h.fences_issued id hid)
  · intro taskID leaseID hc
    have hold : Transition.completed taskID leaseID ∈ s.log := by
      simpa [Store.enqueue, logging, MemoryQueue.enqueue] using hc
    obtain ⟨hgone, hissued⟩ := h.completed_gone taskID leaseID hold
    refine ⟨?_, List.mem_cons_of_mem _ hissued⟩
    intro hid
    rcases List.mem_cons.mp (hids.mem_iff.mp hid) with rfl | hin
    · exact hfresh hissued
    · exact hgone hin
  · intro other ho
    rcases List.mem_append.mp ho with hold | hnew
    · rcases h.enqueued_kept other hold with hcard | ⟨leaseID, hc⟩
      · exact Or.inl (hcards.mem_iff.mpr (List.mem_cons_of_mem _ hcard))
      · exact Or.inr ⟨leaseID, List.mem_append_left _ hc⟩
    · have hsame : other = task := by
        simpa using hnew
      subst hsame
      exact Or.inl (hcards.mem_iff.mpr List.mem_cons_self)

/-- A transition that neither adds nor completes tasks keeps the cards. -/
theorem rearrange
    (h : Sound issued s) {issued' : List GoString} {q : MemoryQueue}
    {moves : List Transition}
    (hsub : ∀ id ∈ issued, id ∈ issued')
    (hkeyed : ∀ taskID entry,
      q.processing.lookup taskID = some entry → entry.task.id = taskID)
    (hcards : q.cards.Perm s.queue.cards)
    (hnodup : (s.consumed ++ (moves.filterMap Transition.consumes ++
      q.fences)).Nodup)
    (hissued : ∀ id ∈ moves.filterMap Transition.consumes ++ q.fences,
      id ∈ issued')
    (hmoves : ∀ move ∈ moves,
      (∀ task, move ≠ .enqueued task) ∧
      ∀ taskID leaseID, move ≠ .completed taskID leaseID) :
    Sound issued' ⟨q, s.log ++ moves⟩ := by
  have hids : (Store.taskIDs ⟨q, s.log ++ moves⟩).Perm s.taskIDs :=
    hcards.map Prod.fst
  have hconsumed :
      Store.consumed ⟨q, s.log ++ moves⟩ ++ q.fences =
        s.consumed ++ (moves.filterMap Transition.consumes ++ q.fences) := by
    simp [consumed]
  refine ⟨hkeyed, hids.nodup_iff.mpr h.taskIDs_nodup, ?_, ?_, ?_, ?_, ?_⟩
  · exact fun id hid => hsub id (h.taskIDs_issued id (hids.mem_iff.mp hid))
  · rw [hconsumed]
    exact hnodup
  · rw [hconsumed]
    intro id hid
    rcases List.mem_append.mp hid with hold | hnew
    · exact hsub id (h.fences_issued id (List.mem_append_left _ hold))
    · exact hissued id hnew
  · intro taskID leaseID hc
    rcases List.mem_append.mp hc with hold | hnew
    · obtain ⟨hgone, hi⟩ := h.completed_gone taskID leaseID hold
      exact ⟨fun hin => hgone (hids.mem_iff.mp hin), hsub _ hi⟩
    · exact absurd rfl ((hmoves _ hnew).2 taskID leaseID)
  · intro task ht
    rcases List.mem_append.mp ht with hold | hnew
    · rcases h.enqueued_kept task hold with hcard | ⟨leaseID, hc⟩
      · exact Or.inl (hcards.mem_iff.mpr hcard)
      · exact Or.inr ⟨leaseID, List.mem_append_left _ hc⟩
    · exact absurd rfl ((hmoves _ hnew).1 task)

theorem acquire
    (h : Sound issued s)
    {leaseID : GoString}
    (hfresh : leaseID ∉ issued) :
    Sound (leaseID :: issued) (s.acquire leaseID).2 := by
  have hsub : ∀ id ∈ issued, id ∈ leaseID :: issued :=
    fun id hid => List.mem_cons_of_mem _ hid
  rcases acquire_cases leaseID s with ⟨next, rest, hready, heq⟩ | ⟨_, heq⟩
  · have hnew : s.queue.processing.lookup next.id = none :=
      h.ready_not_processing (by simp [hready])
    have hcards := MemoryQueue.acquire_cards hready hnew leaseID
    have hfences := MemoryQueue.acquire_fences hready hnew leaseID
    simp only [MemoryQueue.acquire, hready] at hcards hfences
    rw [heq]
    refine h.rearrange hsub ?_ hcards ?_ ?_ ?_
    · intro taskID entry hl
      rw [Map.lookup_insert_ite] at hl
      split_ifs at hl with hk
      · cases hl
        exact hk.symm
      · exact h.keyed taskID entry hl
    · refine (List.Perm.nodup_iff (List.Perm.append_left _ hfences)).mpr ?_
      refine (List.Perm.nodup_iff List.perm_middle).mpr
        (List.nodup_cons.mpr ⟨?_, h.fences_nodup⟩)
      exact fun hin => hfresh (h.fences_issued _ hin)
    · intro id hid
      rcases List.mem_cons.mp (hfences.mem_iff.mp hid) with rfl | hold
      · exact List.mem_cons_self
      · exact hsub id (h.fences_issued id (List.mem_append_right _ hold))
    · simp
  · rw [heq]
    exact h.mono hsub

/-- The keys of the processing map after a deletion. -/
theorem keyed_erase
    (h : Sound issued s) (taskID : GoString) :
    ∀ t entry, (s.queue.processing.erase taskID).lookup t = some entry →
      entry.task.id = t := by
  intro t entry hl
  rw [Map.lookup_erase_ite] at hl
  split_ifs at hl
  exact h.keyed t entry hl

theorem complete
    (h : Sound issued s) {taskID leaseID : GoString} {task : Task}
    (hlookup : s.queue.processing.lookup taskID = some ⟨task, leaseID⟩) :
    Sound issued
      ⟨{ s.queue with processing := s.queue.processing.erase taskID },
        s.log ++ [.completed taskID leaseID]⟩ := by
  have hkey : task.id = taskID := h.keyed _ _ hlookup
  have hcards := MemoryQueue.erase_cards hlookup
  have hfences := MemoryQueue.erase_fences hlookup
  have hids := hcards.map Prod.fst
  have hnodup := hids.nodup_iff.mpr h.taskIDs_nodup
  rw [List.map_cons, List.nodup_cons] at hnodup
  have hconsumed :
      (Store.consumed
          ⟨{ s.queue with processing := s.queue.processing.erase taskID },
            s.log ++ [.completed taskID leaseID]⟩ ++
        MemoryQueue.fences
          { s.queue with processing := s.queue.processing.erase taskID }).Perm
        (s.consumed ++ s.queue.fences) := by
    simp only [consumed, List.filterMap_append, List.filterMap_cons,
      List.filterMap_nil, Transition.consumes, List.append_assoc,
      List.singleton_append]
    exact List.Perm.append_left _ hfences
  refine ⟨h.keyed_erase taskID, hnodup.2, ?_, ?_, ?_, ?_, ?_⟩
  · exact fun id hid =>
      h.taskIDs_issued id (hids.mem_iff.mp (List.mem_cons_of_mem _ hid))
  · exact hconsumed.nodup_iff.mpr h.fences_nodup
  · exact fun id hid => h.fences_issued id (hconsumed.mem_iff.mp hid)
  · intro t l hc
    rcases List.mem_append.mp hc with hold | hnew
    · obtain ⟨hgone, hi⟩ := h.completed_gone t l hold
      refine ⟨fun hin => hgone ?_, hi⟩
      exact hids.mem_iff.mp (List.mem_cons_of_mem _ hin)
    · have hsame : t = taskID ∧ l = leaseID := by
        simpa using hnew
      obtain ⟨rfl, rfl⟩ := hsame
      have hcard : task.card.1 = t := hkey
      rw [hcard] at hnodup
      have hin : task.card.1 ∈ s.taskIDs := hids.mem_iff.mp List.mem_cons_self
      rw [hcard] at hin
      exact ⟨hnodup.1, h.taskIDs_issued t hin⟩
  · intro t ht
    have hold : Transition.enqueued t ∈ s.log := by
      simpa using ht
    rcases h.enqueued_kept t hold with hcard | ⟨l, hc⟩
    · rcases List.mem_cons.mp (hcards.mem_iff.mpr hcard) with hsame | hin
      · right
        have hid : t.id = taskID := by
          rw [← hkey]
          exact congrArg Prod.fst hsame
        rw [hid]
        exact ⟨leaseID, by simp⟩
      · exact Or.inl hin
    · exact Or.inr ⟨l, List.mem_append_left _ hc⟩

/-- A task that goes back to ready or to dead keeps its card. -/
theorem displace
    (h : Sound issued s) {ending : Ending} {taskID leaseID : GoString}
    {task : Task}
    (hlookup : s.queue.processing.lookup taskID = some ⟨task, leaseID⟩)
    (hend : ending ≠ .completed) :
    Sound issued
      ⟨ending.place task
        { s.queue with processing := s.queue.processing.erase taskID },
        s.log ++ [ending.transition taskID leaseID]⟩ := by
  have hfences :
      ([ending.transition taskID leaseID].filterMap Transition.consumes ++
        (ending.place task
          { s.queue with
            processing := s.queue.processing.erase taskID }).fences).Perm
        s.queue.fences := by
    simpa [MemoryQueue.fences] using MemoryQueue.erase_fences hlookup
  refine h.rearrange (fun _ hid => hid) ?_ ?_ ?_ ?_ ?_
  · rw [Ending.place_processing]
    exact h.keyed_erase taskID
  · cases ending with
    | completed => exact absurd rfl hend
    | requeued => exact MemoryQueue.placeReady_cards hlookup
    | deadLettered reason now =>
        exact MemoryQueue.placeDead_cards hlookup reason now
  · exact (List.Perm.append_left _ hfences).nodup_iff.mpr h.fences_nodup
  · exact fun id hid => h.fences_issued id
      (List.mem_append_right _ (hfences.mem_iff.mp hid))
  · cases ending <;> simp [Ending.transition] at hend ⊢

theorem finish
    (h : Sound issued s) (ending : Ending) (taskID leaseID : GoString) :
    Sound issued (s.finish ending taskID leaseID).2 := by
  rcases finish_cases ending taskID leaseID s with
    ⟨task, hlookup, heq⟩ | ⟨err, _, _, heq⟩
  · rw [heq]
    by_cases hend : ending = .completed
    · subst hend
      exact h.complete hlookup
    · exact h.displace hlookup hend
  · rw [heq]
    exact h

theorem recoverOrphanedProcessing
    (h : Sound issued s) (order : List GoString) (active : List LeaseFence) :
    Sound issued (s.recoverOrphanedProcessing order active).2 := by
  have hcards := MemoryQueue.recover_cards order active s.queue
  have hfences := MemoryQueue.recover_fences order active s.queue
  have hconsumes :
      ((s.queue.orphans order active).map
          (fun orphan => Transition.orphaned orphan.1 orphan.2.leaseID)).filterMap
        Transition.consumes =
      (s.queue.orphans order active).map (·.2.leaseID) := by
    simp [List.filterMap_map, Function.comp_def, Transition.consumes]
  refine h.rearrange (fun _ hid => hid) ?_ hcards ?_ ?_ ?_
  · intro taskID entry hl
    exact h.keyed taskID entry
      ((MemoryQueue.recoverOrphanedProcessing_lookup order active s.queue
        taskID entry).mp hl).1
  · rw [hconsumes]
    exact (List.Perm.append_left _ hfences).nodup_iff.mpr h.fences_nodup
  · rw [hconsumes]
    exact fun id hid => h.fences_issued id
      (List.mem_append_right _ (hfences.mem_iff.mp hid))
  · intro move hmove
    obtain ⟨orphan, _, rfl⟩ := List.mem_map.mp hmove
    simp

end Sound
end Store
end Moxy
