import Moxy.ReapPass

/-!
# Moxy: a reap does exactly the due work

The engine runs over a memory queue whose calls may fail, and over a journal that may
refuse an append.  `ReapReport` says what a call of `ReapExpired` has done, in terms
of the world before it:

* the closed leases, in the order of their heap entries, and the dropped entries;
* what their ends did to the queue, `QueueAfter`, and to the journal;
* if the call returned an error, the lease it stopped at and what is known about the
  failed end of that lease, `FailedEnd`;
* that every other lease is `Untouched`.
-/

namespace Moxy

open Lib Lib.CrashM

/-- The call sees the process stop. -/
def Fate.Stops : Fate → Prop
  | .crashBefore | .crashAfter => True
  | _ => False

instance (fate : Fate) : Decidable fate.Stops :=
  match fate with
  | .crashBefore | .crashAfter => inferInstanceAs (Decidable True)
  | .reports | .fails _ | .lost _ => inferInstanceAs (Decidable False)

/-- The append sees the process stop. -/
def AppendFate.Stops : AppendFate → Prop
  | .crashBefore | .crashDuring | .crashAfter => True
  | _ => False

instance (fate : AppendFate) : Decidable fate.Stops :=
  match fate with
  | .crashBefore | .crashDuring | .crashAfter => inferInstanceAs (Decidable True)
  | .stored | .refused _ => inferInstanceAs (Decidable False)

/-- Every call and every append returns: with its result, or with an error. -/
def Undisturbed (b : Storage) (j : LeaseLog) : Prop :=
  (∀ env ∈ b.script, ¬ env.fate.Stops) ∧ ∀ fate ∈ j.script, ¬ fate.Stops

instance (b : Storage) (j : LeaseLog) : Decidable (Undisturbed b j) :=
  inferInstanceAs (Decidable (_ ∧ _))

namespace MemoryQueue

/-- The task of a lease, if the lease still fences it. -/
def fencedTask (lease : Lease) (q : MemoryQueue) : Option Task :=
  match q.processing.lookup lease.task.id with
  | some entry => if entry.leaseID = lease.leaseID then some entry.task else none
  | none => none

theorem fencedTask_eq_some
    {lease : Lease} {q : MemoryQueue} {task : Task} :
    q.fencedTask lease = some task ↔
      q.processing.lookup lease.task.id = some ⟨task, lease.leaseID⟩ := by
  rw [fencedTask]
  cases q.processing.lookup lease.task.id with
  | none => simp
  | some entry =>
      obtain ⟨task', leaseID⟩ := entry
      by_cases hid : leaseID = lease.leaseID
      · simp [hid]
      · simp [hid]

theorem fencedTask_eq_none
    {lease : Lease} {q : MemoryQueue}
    (h : ¬ q.FencedBy lease.task.id lease.leaseID) :
    q.fencedTask lease = none := by
  cases hfenced : q.fencedTask lease with
  | none => rfl
  | some task => exact absurd ⟨task, fencedTask_eq_some.mp hfenced⟩ h

end MemoryQueue

namespace World

variable (w : World Storage LeaseLog)

/-- The task that the end of a lease returns to ready storage. -/
def requeuedTask (lease : Lease) : Option Task :=
  if w.engine.shouldDeadLetter lease then none
  else (w.backend.store.queue.fencedTask lease).map Task.charged

/-- The task that the end of a lease moves to dead-letter storage, with the reason. -/
def buriedTask (lease : Lease) : Option (Task × GoString) :=
  if w.engine.shouldDeadLetter lease then
    (w.backend.store.queue.fencedTask lease).map
      (fun task => (task.charged, goString "max attempts exceeded"))
  else none

/-- The close record for the end of a lease. -/
def endRecord (lease : Lease) : Record :=
  match w.backend.store.queue.fencedTask lease with
  | none => closeRecord .stale lease.leaseID
  | some _ =>
      closeRecord (if w.engine.shouldDeadLetter lease then .deadLetter else .expire)
        lease.leaseID

/-- What the ends of `leases` add to the journal, if there is one. -/
def endEntries (leases : List Lease) : List JournalEntry :=
  if w.engine.config.journal then leases.map (fun lease => ⟨w.endRecord lease, true⟩)
  else []

theorem endEntries_append
    (leases : List Lease) (lease : Lease) :
    w.endEntries (leases ++ [lease]) =
      w.endEntries leases ++
        if w.engine.config.journal then [⟨w.endRecord lease, true⟩] else [] := by
  rw [endEntries, endEntries]
  split_ifs
  · rw [List.map_append, List.map_singleton]
  · rfl

end World

/-- What is compared of a dead task: everything but the instant of its burial. -/
def DeadTask.record (dead : DeadTask) : Task × GoString :=
  (dead.task, dead.reason)

/-- The queue after the ends of `leases`, in this order, in the world `w`. -/
structure QueueAfter (w : World Storage LeaseLog) (leases : List Lease)
    (q : MemoryQueue) : Prop where
  ready : q.ready =
    w.backend.store.queue.ready ++ leases.filterMap w.requeuedTask
  dead : ∃ buried, q.dead = w.backend.store.queue.dead ++ buried ∧
    buried.map DeadTask.record = leases.filterMap w.buriedTask
  processing : ∀ taskID entry, q.processing.lookup taskID = some entry ↔
    w.backend.store.queue.processing.lookup taskID = some entry ∧
      ∀ lease ∈ leases, ¬ (lease.task.id = taskID ∧ lease.leaseID = entry.leaseID)

namespace QueueAfter

variable {w : World Storage LeaseLog} {leases : List Lease} {q : MemoryQueue}
  {lease : Lease}

theorem start
    (w : World Storage LeaseLog) :
    QueueAfter w [] w.backend.store.queue where
  ready := (List.append_nil _).symm
  dead := ⟨[], (List.append_nil _).symm, rfl⟩
  processing := by simp

/-- The fence of a lease that has not ended stays. -/
theorem fence_iff
    (h : QueueAfter w leases q) {leaseID : GoString}
    (hopen : leaseID ∉ leases.map Lease.leaseID) (taskID : GoString) (task : Task) :
    q.processing.lookup taskID = some ⟨task, leaseID⟩ ↔
      w.backend.store.queue.processing.lookup taskID = some ⟨task, leaseID⟩ := by
  rw [h.processing]
  constructor
  · exact fun hboth => hboth.1
  · intro hlookup
    refine ⟨hlookup, ?_⟩
    rintro other hother ⟨_, hid⟩
    exact hopen (List.mem_map.mpr ⟨other, hother, hid⟩)

theorem fencedTask
    (h : QueueAfter w leases q)
    (hnew : lease.leaseID ∉ leases.map Lease.leaseID) :
    q.fencedTask lease = w.backend.store.queue.fencedTask lease := by
  ext task
  rw [MemoryQueue.fencedTask_eq_some, MemoryQueue.fencedTask_eq_some]
  exact h.fence_iff hnew _ _

/-- A lease with a stale fence changes nothing. -/
theorem end_stale
    (h : QueueAfter w leases q)
    (hnew : lease.leaseID ∉ leases.map Lease.leaseID)
    (hstale : ¬ q.FencedBy lease.task.id lease.leaseID) :
    QueueAfter w (leases ++ [lease]) q := by
  have hnone : w.backend.store.queue.fencedTask lease = none := by
    rw [← h.fencedTask hnew]
    exact MemoryQueue.fencedTask_eq_none hstale
  have hready : w.requeuedTask lease = none := by simp [World.requeuedTask, hnone]
  have hdead : w.buriedTask lease = none := by simp [World.buriedTask, hnone]
  refine ⟨?_, ?_, ?_⟩
  · rw [List.filterMap_append, List.filterMap_cons_none hready, List.filterMap_nil,
      List.append_nil]
    exact h.ready
  · rw [List.filterMap_append, List.filterMap_cons_none hdead, List.filterMap_nil,
      List.append_nil]
    exact h.dead
  · intro taskID entry
    rw [List.forall_mem_append, List.forall_mem_singleton, ← and_assoc, ← h.processing]
    constructor
    · intro hlookup
      refine ⟨hlookup, ?_⟩
      rintro ⟨rfl, hid⟩
      exact hstale ⟨entry.task, by rw [hlookup, hid]⟩
    · exact fun hboth => hboth.1

/-- The processing map once a fenced lease has ended. -/
theorem processing_erase
    (h : QueueAfter w leases q) {task : Task}
    (hlookup : q.processing.lookup lease.task.id = some ⟨task, lease.leaseID⟩)
    (taskID : GoString) (entry : ProcessingEntry) :
    (q.processing.erase lease.task.id).lookup taskID = some entry ↔
      w.backend.store.queue.processing.lookup taskID = some entry ∧
        ∀ other ∈ leases ++ [lease],
          ¬ (other.task.id = taskID ∧ other.leaseID = entry.leaseID) := by
  rw [List.forall_mem_append, List.forall_mem_singleton, ← and_assoc, ← h.processing,
    Map.lookup_erase_ite]
  by_cases hid : taskID = lease.task.id
  · subst hid
    rw [if_pos rfl]
    constructor
    · intro hnone
      cases hnone
    · rintro ⟨hcurrent, hother⟩
      rw [hlookup] at hcurrent
      cases hcurrent
      exact absurd ⟨rfl, rfl⟩ hother
  · rw [if_neg hid]
    constructor
    · exact fun hcurrent => ⟨hcurrent, fun hboth => hid hboth.1.symm⟩
    · exact fun hboth => hboth.1

/-- A lease whose fence matches has its task moved, with one attempt more. -/
theorem end_fenced
    (h : QueueAfter w leases q)
    (hnew : lease.leaseID ∉ leases.map Lease.leaseID)
    {task : Task}
    (hlookup : q.processing.lookup lease.task.id = some ⟨task, lease.leaseID⟩)
    (env : CallEnv) :
    QueueAfter w (leases ++ [lease])
      ((expiryEnding (w.engine.shouldDeadLetter lease) env).place task
        { q with processing := q.processing.erase lease.task.id }) := by
  have hsome : w.backend.store.queue.fencedTask lease = some task := by
    rw [← h.fencedTask hnew]
    exact MemoryQueue.fencedTask_eq_some.mpr hlookup
  obtain ⟨buried, hdead, hburied⟩ := h.dead
  cases hletter : w.engine.shouldDeadLetter lease with
  | false =>
      have hready : w.requeuedTask lease = some task.charged := by
        simp [World.requeuedTask, hletter, hsome]
      have hdead' : w.buriedTask lease = none := by
        simp [World.buriedTask, hletter]
      refine ⟨?_, ⟨buried, hdead, ?_⟩, h.processing_erase hlookup⟩
      · rw [List.filterMap_append, List.filterMap_cons_some hready, List.filterMap_nil,
          ← List.append_assoc, ← h.ready]
        rfl
      · rw [List.filterMap_append, List.filterMap_cons_none hdead', List.filterMap_nil,
          List.append_nil]
        exact hburied
  | true =>
      have hready : w.requeuedTask lease = none := by
        simp [World.requeuedTask, hletter]
      have hdead' : w.buriedTask lease =
          some (task.charged, goString "max attempts exceeded") := by
        simp [World.buriedTask, hletter, hsome]
      refine ⟨?_, ⟨buried ++
        [⟨task.charged, goString "max attempts exceeded", env.now⟩], ?_, ?_⟩,
        h.processing_erase hlookup⟩
      · rw [List.filterMap_append, List.filterMap_cons_none hready, List.filterMap_nil,
          List.append_nil]
        exact h.ready
      · rw [← List.append_assoc, ← hdead]
        rfl
      · rw [List.map_append, hburied, List.filterMap_append,
          List.filterMap_cons_some hdead', List.filterMap_nil]
        rfl

/-- The effect of the backend call that ends a lease. -/
theorem finish
    {store : Store} (h : QueueAfter w leases store.queue)
    (hnew : lease.leaseID ∉ leases.map Lease.leaseID) (env : CallEnv) :
    QueueAfter w (leases ++ [lease])
      (store.finish (expiryEnding (w.engine.shouldDeadLetter lease) env)
        lease.task.id lease.leaseID).2.queue := by
  rcases store.finish_cases (expiryEnding (w.engine.shouldDeadLetter lease) env)
    lease.task.id lease.leaseID with ⟨task, hlookup, heq⟩ | ⟨err, hstale, _, heq⟩
  · rw [heq]
    exact h.end_fenced hnew hlookup env
  · rw [heq]
    exact h.end_stale hnew hstale

end QueueAfter

/-- Backend and journal after the ends of `leases` in the world `w`. -/
structure StorageAfter (w : World Storage LeaseLog) (leases : List Lease)
    (b : Storage) (j : LeaseLog) : Prop where
  queue : QueueAfter w leases b.store.queue
  entries : j.entries = w.journal.entries ++ w.endEntries leases
  undisturbed : Undisturbed b j

/-- The queue and the journal once the end of `lease` has failed. -/
inductive FailedEnd (w : World Storage LeaseLog) (leases : List Lease)
    (lease : Lease) : MemoryQueue → List JournalEntry → Prop
  | without {q : MemoryQueue}
      (hqueue : QueueAfter w leases q) :
      FailedEnd w leases lease q (w.journal.entries ++ w.endEntries leases)
  | lost {q : MemoryQueue}
      (hqueue : QueueAfter w (leases ++ [lease]) q) :
      FailedEnd w leases lease q (w.journal.entries ++ w.endEntries leases)
  | refused {q : MemoryQueue}
      (hjournal : w.engine.config.journal = true)
      (hqueue : QueueAfter w (leases ++ [lease]) q) :
      FailedEnd w leases lease q
        (w.journal.entries ++ w.endEntries leases ++ [⟨w.endRecord lease, false⟩])

/-- An append that does not stop the process stores its record or is refused. -/
theorem wp_record_entries
    {entry : Record} {w : World Storage LeaseLog}
    (hcalm : ∀ fate ∈ w.journal.script, ¬ fate.Stops) :
    wp (record entry)
      (fun _ w' => w'.backend = w.backend ∧
        w'.journal.entries = w.journal.entries ++
          (if w.engine.config.journal then [⟨entry, true⟩] else []) ∧
        ∀ fate ∈ w'.journal.script, ¬ fate.Stops)
      (fun _ w' => w'.backend = w.backend ∧ w.engine.config.journal = true ∧
        w'.journal.entries = w.journal.entries ++ [⟨entry, false⟩])
      (fun _ => False) w := by
  rw [wp_record]
  split_ifs with hjournal
  · have hhead : ¬ (w.journal.script.headD .stored).Stops :=
      headD_of_all (P := fun fate : AppendFate => ¬ fate.Stops) hcalm id
    refine LeaseLog.wp_append_iff.mpr ?_
    cases hfate : w.journal.script.headD .stored with
    | stored => exact ⟨rfl, rfl, fun fate hf => hcalm fate (List.mem_of_mem_tail hf)⟩
    | refused message => exact ⟨rfl, hjournal, rfl⟩
    | crashBefore | crashDuring | crashAfter =>
        rw [hfate] at hhead
        exact hhead trivial
  · exact ⟨rfl, (List.append_nil _).symm, hcalm⟩

section Ends

variable {w u : World Storage LeaseLog} {leases : List Lease} {lease : Lease}

/-- The close record, once the backend has answered. -/
theorem wp_endRecord
    {b : Storage} {r : Record}
    (hqueue : QueueAfter w (leases ++ [lease]) b.store.queue)
    (hentries : u.journal.entries = w.journal.entries ++ w.endEntries leases)
    (hcalls : ∀ env ∈ b.script, ¬ env.fate.Stops)
    (happends : ∀ fate ∈ u.journal.script, ¬ fate.Stops)
    (hconfig : u.engine.config = w.engine.config)
    (hrecord : r = w.endRecord lease) :
    wp (record r)
      (fun _ u' => StorageAfter w (leases ++ [lease]) u'.backend u'.journal)
      (fun _ u' => FailedEnd w leases lease u'.backend.store.queue u'.journal.entries)
      (fun _ => False) { u with backend := b } := by
  refine wp_mono (wp_record_entries happends) ?_ ?_ (fun _ h => h)
  · rintro _ u' ⟨hbackend, hnew, hcalm⟩
    refine ⟨?_, ?_, ?_, hcalm⟩
    · rw [hbackend]
      exact hqueue
    · rw [hnew, hentries, hrecord, w.endEntries_append, ← List.append_assoc]
      dsimp only
      rw [hconfig]
    · rw [hbackend]
      exact hcalls
  · rintro _ u' ⟨hbackend, hjournal, hnew⟩
    dsimp only at hjournal hnew
    rw [hbackend, hnew, hentries, hrecord]
    rw [hconfig] at hjournal
    exact .refused hjournal hqueue

/-- The end of one lease, in a world where `leases` have ended already. -/
theorem wp_expireLease_after
    (h : StorageAfter w leases u.backend u.journal)
    (hnew : lease.leaseID ∉ leases.map Lease.leaseID)
    (hconfig : u.engine.config = w.engine.config) :
    wp (expireLease lease)
      (fun _ u' => StorageAfter w (leases ++ [lease]) u'.backend u'.journal)
      (fun _ u' => FailedEnd w leases lease u'.backend.store.queue u'.journal.entries)
      (fun _ => False) u := by
  obtain ⟨hcalls, happends⟩ := h.undisturbed
  have htail : ∀ env ∈ u.backend.script.tail, ¬ env.fate.Stops :=
    fun env henv => hcalls env (List.mem_of_mem_tail henv)
  have hhead : ¬ (u.backend.script.headD CallEnv.calm).fate.Stops :=
    headD_of_all (P := fun env : CallEnv => ¬ env.fate.Stops) hcalls id
  have hletter := Engine.shouldDeadLetter_congr hconfig lease
  have hdone := fun env => h.queue.finish hnew env
  have hfenced := h.queue.fencedTask hnew
  rw [expireLease, wp_bind, wp_read, wp_bind, wp_attempt, wp_onBackend]
  refine wp_expireCall (Storage.wp_call_iff.mpr ?_)
  rw [hletter]
  generalize u.backend.script.headD CallEnv.calm = env at hhead ⊢
  cases hfate : env.fate with
  | reports =>
      have hafter := hdone env
      rcases u.backend.store.finish_cases
          (expiryEnding (w.engine.shouldDeadLetter lease) env)
          lease.task.id lease.leaseID with ⟨task, hlookup, heq⟩ | ⟨err, hnot, hstale, heq⟩
      · rw [heq] at hafter
        simp only [heq]
        refine wp_endRecord hafter h.entries htail happends hconfig ?_
        rw [World.endRecord, ← hfenced,
          MemoryQueue.fencedTask_eq_some.mpr hlookup]
      · rw [heq] at hafter
        simp only [heq, hstale, if_true]
        refine wp_endRecord hafter h.entries htail happends hconfig ?_
        rw [World.endRecord, ← hfenced, MemoryQueue.fencedTask_eq_none hnot]
  | fails message =>
      show FailedEnd w leases lease _ u.journal.entries
      rw [h.entries]
      exact .without h.queue
  | lost message =>
      show FailedEnd w leases lease _ u.journal.entries
      rw [h.entries]
      exact .lost (hdone env)
  | crashBefore | crashAfter =>
      rw [hfate] at hhead
      exact hhead trivial

end Ends

/-- A call of the reaper leaves the lease alone. -/
structure Untouched (leaseID : GoString) (w w' : World Storage LeaseLog) : Prop where
  lease : w'.engine.leases.lookup leaseID = w.engine.leases.lookup leaseID
  entry : ∀ item, item.leaseID = leaseID →
    (item ∈ w'.engine.expirations.toList ↔ item ∈ w.engine.expirations.toList)
  fence : ∀ taskID task,
    w'.backend.store.queue.processing.lookup taskID = some ⟨task, leaseID⟩ ↔
      w.backend.store.queue.processing.lookup taskID = some ⟨task, leaseID⟩
  records : ∀ noted ∈ w'.journal.entries, noted.record.leaseID = leaseID →
    noted ∈ w.journal.entries

/-- The call returned nil. -/
structure Finished (now : Int) (w : World Storage LeaseLog)
    (closed : List (ExpirationItem × Lease)) (dropped : List ExpirationItem)
    (w' : World Storage LeaseLog) : Prop where
  pass : Pass now w.engine closed dropped w'.engine.expirations.toList w'.engine
  exactly : ∀ leaseID,
    leaseID ∈ closedIDs closed ↔ w.engine.DueActive now leaseID
  noneDue : ∀ item ∈ w'.engine.expirations.toList, now < item.expiresAt
  queue : QueueAfter w (closed.map Prod.snd) w'.backend.store.queue
  journal : w'.journal.entries =
    w.journal.entries ++ w.endEntries (closed.map Prod.snd)
  untouched : ∀ leaseID lease, w.engine.leases.lookup leaseID = some lease →
    leaseID ∉ closedIDs closed → Untouched leaseID w w'

/-- The call returned an error: it stopped at `lease`, whose entry was `item`. -/
structure StoppedAt (now : Int) (w : World Storage LeaseLog)
    (closed : List (ExpirationItem × Lease)) (dropped : List ExpirationItem)
    (item : ExpirationItem) (lease : Lease) (others : List ExpirationItem)
    (w' : World Storage LeaseLog) : Prop where
  retried : Retried now w.engine closed dropped item lease others w'.engine
  active : w'.engine.leases.lookup item.leaseID = some lease
  single : w'.engine.expirations.toList.filter (fun x => x.leaseID = item.leaseID) =
    [⟨item.leaseID, now + w.engine.config.requeueRetryDelay⟩]
  failed : FailedEnd w (closed.map Prod.snd) lease w'.backend.store.queue
    w'.journal.entries
  untouched : ∀ leaseID l, w.engine.leases.lookup leaseID = some l →
    leaseID ∉ closedIDs closed → leaseID ≠ item.leaseID → Untouched leaseID w w'

/-- What a call of the reaper has done. -/
structure ReapReport (now : Int) (w : World Storage LeaseLog) (count : Nat)
    (err : Option GoError) (closed : List (ExpirationItem × Lease))
    (dropped : List ExpirationItem) (w' : World Storage LeaseLog) : Prop where
  counted : closed.length = count
  once : (closedIDs closed).Nodup
  named : ∀ c ∈ closed, c.2.leaseID = c.1.leaseID
  later : ∀ leaseID lease, w.engine.leases.lookup leaseID = some lease →
    now < lease.expiresAt → Untouched leaseID w w'
  result :
    match err with
    | none => Finished now w closed dropped w'
    | some _ => ∃ item lease others,
        StoppedAt now w closed dropped item lease others w'

section Untouched

variable {now : Int} {w w' : World Storage LeaseLog} {leases : List Lease}
  {leaseID : GoString} {closed : List (ExpirationItem × Lease)}
  {dropped rest : List ExpirationItem}

theorem World.endRecord_leaseID
    (w : World Storage LeaseLog) (lease : Lease) :
    (w.endRecord lease).leaseID = lease.leaseID := by
  rw [World.endRecord]
  split <;> rfl

theorem World.mem_endEntries
    {noted : JournalEntry} (h : noted ∈ w.endEntries leases) :
    noted.record.leaseID ∈ leases.map Lease.leaseID := by
  rw [World.endEntries] at h
  split_ifs at h
  · obtain ⟨lease, hlease, rfl⟩ := List.mem_map.mp h
    rw [w.endRecord_leaseID]
    exact List.mem_map_of_mem hlease
  · cases h

/-- A failed end concerns one lease only. -/
theorem FailedEnd.others
    {lease : Lease} {q : MemoryQueue} {entries : List JournalEntry}
    (h : FailedEnd w leases lease q entries)
    (hopen : leaseID ∉ leases.map Lease.leaseID)
    (hother : leaseID ≠ lease.leaseID) :
    (∀ taskID task, q.processing.lookup taskID = some ⟨task, leaseID⟩ ↔
      w.backend.store.queue.processing.lookup taskID = some ⟨task, leaseID⟩) ∧
    ∀ noted ∈ entries, noted.record.leaseID = leaseID →
      noted ∈ w.journal.entries := by
  have hopen' : leaseID ∉ (leases ++ [lease]).map Lease.leaseID := by
    rw [List.map_append, List.mem_append, List.map_singleton, List.mem_singleton]
    exact fun h => h.elim hopen hother
  have hold : ∀ noted ∈ w.journal.entries ++ w.endEntries leases,
      noted.record.leaseID = leaseID → noted ∈ w.journal.entries := by
    intro noted hnoted hid
    rcases List.mem_append.mp hnoted with hbefore | hnew
    · exact hbefore
    · exact absurd (hid ▸ World.mem_endEntries hnew) hopen
  cases h with
  | without hqueue => exact ⟨hqueue.fence_iff hopen, hold⟩
  | lost hqueue => exact ⟨hqueue.fence_iff hopen', hold⟩
  | refused _ hqueue =>
      refine ⟨hqueue.fence_iff hopen', ?_⟩
      intro noted hnoted hid
      rcases List.mem_append.mp hnoted with hbefore | hlast
      · exact hold noted hbefore hid
      · rw [List.mem_singleton] at hlast
        subst hlast
        rw [w.endRecord_leaseID] at hid
        exact absurd hid.symm hother

theorem map_leaseID_closed
    (hnamed : ∀ c ∈ closed, c.2.leaseID = c.1.leaseID) :
    (closed.map Prod.snd).map Lease.leaseID = closedIDs closed := by
  rw [List.map_map]
  exact List.map_congr_left hnamed

/-- The parts of a nil report. -/
theorem Finished.of_pass
    (hp : Pass now w.engine closed dropped w'.engine.expirations.toList w'.engine)
    (hnone : ∀ item ∈ w'.engine.expirations.toList, now < item.expiresAt)
    (hnamed : ∀ c ∈ closed, c.2.leaseID = c.1.leaseID)
    (hafter : StorageAfter w (closed.map Prod.snd) w'.backend w'.journal) :
    Finished now w closed dropped w' where
  pass := hp
  exactly := hp.mem_closedIDs_iff hnone
  noneDue := hnone
  queue := hafter.queue
  journal := hafter.entries
  untouched leaseID lease hactive hopen := by
    have hopen' : leaseID ∉ (closed.map Prod.snd).map Lease.leaseID := by
      rw [map_leaseID_closed hnamed]
      exact hopen
    refine ⟨?_, fun item hid => (hp.mem_iff hactive hopen hid).symm,
      hafter.queue.fence_iff hopen', ?_⟩
    · rw [hp.leases, if_neg hopen]
    · intro noted hnoted hid
      rw [hafter.entries] at hnoted
      rcases List.mem_append.mp hnoted with hbefore | hnew
      · exact hbefore
      · exact absurd (hid ▸ World.mem_endEntries hnew) hopen'

/-- The parts of a report about an error. -/
theorem StoppedAt.of_retried
    {issued : List GoString} {item : ExpirationItem} {lease : Lease}
    {others : List ExpirationItem}
    (hr : Retried now w.engine closed dropped item lease others w'.engine)
    (htimed : w.engine.Timed issued)
    (hnamed : ∀ c ∈ closed, c.2.leaseID = c.1.leaseID)
    (hlease : lease.leaseID = item.leaseID)
    (hfailed : FailedEnd w (closed.map Prod.snd) lease w'.backend.store.queue
      w'.journal.entries) :
    StoppedAt now w closed dropped item lease others w' where
  retried := hr
  active := (hr.entry htimed).1
  single := (hr.entry htimed).2
  failed := hfailed
  untouched leaseID l hactive hopen hother := by
    have hopen' : leaseID ∉ (closed.map Prod.snd).map Lease.leaseID := by
      rw [map_leaseID_closed hnamed]
      exact hopen
    obtain ⟨hfence, hrecords⟩ := hfailed.others hopen' (hlease ▸ hother)
    refine ⟨?_, ?_, hfence, hrecords⟩
    · rw [hr.pass.leases, if_neg hopen]
    · intro x hid
      rw [hr.pass.mem_iff hactive hopen hid, hr.heap.mem_iff, List.mem_cons,
        List.mem_cons]
      have hnew : x ≠ ⟨item.leaseID, now + w.engine.config.requeueRetryDelay⟩ := by
        rintro rfl
        exact hother hid.symm
      have hold : x ≠ item := by
        rintro rfl
        exact hother hid.symm
      simp [hnew, hold]

end Untouched

/-- The whole report of a call, over a memory queue that may fail. -/
theorem wp_reapExpired_report
    {now : Int} {issued : List GoString} {w : World Storage LeaseLog}
    (hcovered : w.engine.Covered)
    (htimed : w.engine.Timed issued)
    (hrecovered : w.engine.recoveryErr = none)
    (hcalm : Undisturbed w.backend w.journal) :
    wp (reapExpired now)
      (fun r w' => ∃ closed dropped, ReapReport now w r.1 r.2 closed dropped w')
      (fun _ _ => False) (fun _ => False) w := by
  have hends : EndsLeases now w.engine
      (fun closed b j => (∀ c ∈ closed, c.2.leaseID = c.1.leaseID) ∧
        StorageAfter w (closed.map Prod.snd) b j)
      (fun closed item lease b j =>
        ((∀ c ∈ closed, c.2.leaseID = c.1.leaseID) ∧ lease.leaseID = item.leaseID) ∧
        FailedEnd w (closed.map Prod.snd) lease b.store.queue j.entries) := by
    rintro closed item lease u ⟨hnamed, hafter⟩ hconfig _ _ hactive hopen
    have hlease := hcovered.keyed item.leaseID lease hactive
    have hnew : lease.leaseID ∉ (closed.map Prod.snd).map Lease.leaseID := by
      rw [map_leaseID_closed hnamed, hlease]
      exact hopen
    refine wp_mono (wp_expireLease_after hafter hnew hconfig) ?_
      (fun _ _ hfailed => ⟨⟨hnamed, hlease⟩, hfailed⟩) (fun _ h => h)
    intro _ u' hafter'
    refine ⟨List.forall_mem_append.mpr
      ⟨hnamed, List.forall_mem_singleton.mpr hlease⟩, ?_⟩
    rw [List.map_append]
    exact hafter'
  have hstart : StorageAfter w [] w.backend w.journal :=
    ⟨QueueAfter.start w, by simp [World.endEntries], hcalm⟩
  refine wp_mono (wp_reapExpired_pass hends hcovered htimed hrecovered
    ⟨by simp, hstart⟩) ?_ (fun _ _ h => h) (fun _ h => h)
  rintro ⟨n, err⟩ w' ⟨⟨closed, dropped, hlength, hresult⟩, _⟩
  refine ⟨closed, dropped, ?_⟩
  cases err with
  | none =>
      obtain ⟨hp, hnone, hnamed, hafter⟩ := hresult
      have hfinished := Finished.of_pass hp hnone hnamed hafter
      refine ⟨hlength, (List.nodup_append.mp (hp.ids_nodup htimed)).1, hnamed, ?_,
        hfinished⟩
      exact fun leaseID lease hactive hlater =>
        hfinished.untouched leaseID lease hactive (hp.later_open hactive hlater)
  | some err =>
      obtain ⟨item, lease, others, hr, ⟨hnamed, hlease⟩, hfailed⟩ := hresult
      have hstopped := StoppedAt.of_retried hr htimed hnamed hlease hfailed
      refine ⟨hlength, (List.nodup_append.mp (hr.pass.ids_nodup htimed)).1, hnamed, ?_,
        item, lease, others, hstopped⟩
      intro leaseID l hactive hlater
      refine hstopped.untouched leaseID l hactive (hr.pass.later_open hactive hlater) ?_
      rintro rfl
      have hexpired := hr.due.2
      cases hactive.symm.trans hr.active
      omega

/--
From every reachable state, whatever errors backend and journal return, a call of the
reaper does the due work and nothing else.
-/
theorem reap_does_exactly_the_due_work
    {calls : List CallEnv} {appends : List AppendFate}
    {es : List (Event LeaseLog × Reply)} {s : System Storage LeaseLog} {engine : Engine}
    (hrun : anyRestart.Run (System.empty calls appends) es s)
    (hprocess : s.process = some engine)
    (hrecovered : engine.recoveryErr = none)
    (hcalm : Undisturbed s.backend s.journal) (now : Int) :
    ∃ count err t engine' closed dropped,
      s.step (.reap now) = (.reaped count err, t) ∧
      t.process = some engine' ∧
      ReapReport now ⟨engine, s.backend, s.journal⟩ count err closed dropped
        ⟨engine', t.backend, t.journal⟩ := by
  have hscheduled : s.Scheduled := grounded_scheduled (grounded_of_anyRestart hrun)
  obtain ⟨hcovered, htimed⟩ := hscheduled engine hprocess
  have hreap : wp (reapExpired now)
      (fun r w' => ∃ closed dropped,
        ReapReport now ⟨engine, s.backend, s.journal⟩ r.1 r.2 closed dropped w')
      (fun _ _ => False) (fun _ => False) ⟨engine, s.backend, s.journal⟩ :=
    wp_reapExpired_report hcovered htimed hrecovered hcalm
  obtain ⟨⟨count, err⟩, w', hend, closed, dropped, hreport⟩ := wp_returns hreap
  exact ⟨count, err, s.resume w', w'.engine, closed, dropped,
    System.step_reap hprocess hend, rfl, hreport⟩

/-- A backend that fails at its twelfth call. -/
def failsTwelfth : System Storage LeaseLog :=
  System.empty (List.replicate 11 .calm ++ [⟨.fails [], 0, []⟩]) []

/-- One lease is acknowledged, two are due at 30, and one is not. -/
def fourLeases : List (Event LeaseLog) :=
  [.restart ⟨2, 0, true⟩ ⟨[], [], []⟩ ⟨[], []⟩ [],
    .enqueue [65] [1], .enqueue [66] [2], .enqueue [67] [3], .enqueue [68] [4],
    .fetch [75] 0 5, .fetch [76] 0 10, .fetch [77] 0 20, .fetch [78] 0 100, .ack [75]]

def beforeReap : System Storage LeaseLog :=
  anyRestart.final failsTwelfth fourLeases

/-- The first due lease is closed, the backend fails at the second. -/
theorem reap_of_four_leases :
    ∃ engine t engine' closed dropped,
      beforeReap.process = some engine ∧
      beforeReap.step (.reap 30) = (.reaped 1 (some (.text [])), t) ∧
      ReapReport 30 ⟨engine, beforeReap.backend, beforeReap.journal⟩ 1
        (some (.text [])) closed dropped ⟨engine', t.backend, t.journal⟩ := by
  have hrun : anyRestart.Run failsTwelfth (anyRestart.trace failsTwelfth fourLeases)
      beforeReap :=
    Machine.run_of_admits fourLeases failsTwelfth (by decide +kernel)
  have hup : beforeReap.process.map Engine.recoveryErr = some none := by decide +kernel
  have hcalm : Undisturbed beforeReap.backend beforeReap.journal := by decide +kernel
  have hreply : (beforeReap.step (.reap 30)).1 = .reaped 1 (some (.text [])) := by
    decide +kernel
  obtain ⟨engine, hprocess, hrecovered⟩ := Option.map_eq_some_iff.mp hup
  obtain ⟨count, err, t, engine', closed, dropped, hstep, _, hreport⟩ :=
    reap_does_exactly_the_due_work hrun hprocess hrecovered hcalm 30
  rw [hstep] at hreply
  cases hreply
  exact ⟨engine, t, engine', closed, dropped, hprocess, hstep, hreport⟩

end Moxy
