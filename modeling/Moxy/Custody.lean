import Moxy.EngineSystem
import Moxy.Restore
import Moxy.StoreHistory
import Mathlib.Logic.Relation

/-!
# Moxy: the custody of tasks

This is the abstract model of one queue: who is responsible for a task at each
moment, and which small moves can change that.  A `Custody` consists of what
outlives the process (the store and the journal), of what the process knows in
its present phase, and of the UUIDs used so far.

An event of the concrete system is a sequence of moves.  Each move names the
event that causes it, so an invariant can tell an acknowledgement from an expiry.
Two propositions say what kind of surroundings are assumed: `amb` holds if a
backend call may report a foreign error, and `dur` holds if a restart reads what
survived in the journal.
-/

namespace Moxy

open Lib

/-- What a process holds in memory. -/
inductive Phase where
  | down
  | recovering (opened : Map GoString Record)
  | serving (leases : Map GoString Lease)
  | leasing (leases : Map GoString Lease) (claim : Lease)

/-- The durable state of a queue and the phase of its process. -/
structure Custody where
  store : Store
  entries : List JournalEntry
  phase : Phase
  issued : List GoString

/-- The endings that an event may bring to a lease. -/
def Event.MayEnd (e : Event LeaseLog) (lease : Lease) (ending : Ending) : Prop :=
  match e with
  | .ack leaseID => leaseID = lease.leaseID ∧ ending = .completed
  | .reap now => lease.expiresAt ≤ now ∧ ending ≠ .completed
  | _ => False

/-- The leases that a finished recovery hands to the process. -/
structure Recovered (opened : Map GoString Record) (q : MemoryQueue)
    (leases : Map GoString Lease) : Prop where
  complete : ∀ taskID leaseID, q.FencedBy taskID leaseID →
    ∃ r, opened.lookup leaseID = some r ∧ r.task.id = taskID
  exact : ∀ leaseID lease, leases.lookup leaseID = some lease ↔
    ∃ r, opened.lookup leaseID = some r ∧
      q.FencedBy r.task.id leaseID ∧ lease = r.lease

/-- One move that is part of the event `e`. -/
inductive Move (amb dur : Prop) (e : Event LeaseLog) : Custody → Custody → Prop
  | waste {c : Custody} {id : GoString}
      (hnew : id ∈ e.newIDs) :
      Move amb dur e c { c with issued := id :: c.issued }
  | enqueue {c : Custody} {leases : Map GoString Lease}
      {newID : GoString} {payload : Bytes}
      (he : e = .enqueue newID payload)
      (hphase : c.phase = .serving leases)
      (hfresh : newID ∉ c.issued) :
      Move amb dur e c
        { c with
          store := (c.store.enqueue ⟨newID, payload, 0⟩).2
          issued := newID :: c.issued }
  | acquire {c : Custody} {leases : Map GoString Lease}
      {leaseID : GoString} {now timeout : Int} {next : Task} {rest : List Task}
      (he : e = .fetch leaseID now timeout)
      (hphase : c.phase = .serving leases)
      (hfresh : leaseID ∉ c.issued)
      (hready : c.store.queue.ready = next :: rest) :
      Move amb dur e c
        { c with
          store := (c.store.acquire leaseID).2
          phase := .leasing leases ⟨leaseID, next, now, now + timeout⟩
          issued := leaseID :: c.issued }
  | note {c : Custody} {leases : Map GoString Lease} {claim : Lease}
      (hphase : c.phase = .leasing leases claim) (acked : Bool) :
      Move amb dur e c
        { c with entries := c.entries ++ [⟨claim.fetchRecord, acked⟩] }
  | publish {c : Custody} {leases : Map GoString Lease} {claim : Lease}
      (hphase : c.phase = .leasing leases claim) :
      Move amb dur e c
        { c with phase := .serving (leases.insert claim.leaseID claim) }
  | rollback {c : Custody} {leases : Map GoString Lease} {claim : Lease}
      (hphase : c.phase = .leasing leases claim) :
      Move amb dur e c
        { c with
          store := (c.store.finish .requeued claim.task.id claim.leaseID).2
          phase := .serving leases }
  | abandon {c : Custody} {leases : Map GoString Lease} {claim : Lease}
      (hamb : amb)
      (hphase : c.phase = .leasing leases claim) :
      Move amb dur e c { c with phase := .serving leases }
  | finish {c : Custody} {leases : Map GoString Lease} {lease : Lease}
      {ending : Ending}
      (hphase : c.phase = .serving leases)
      (hactive : leases.lookup lease.leaseID = some lease)
      (hcause : e.MayEnd lease ending) :
      Move amb dur e c
        { c with
          store := (c.store.finish ending lease.task.id lease.leaseID).2 }
  | close {c : Custody} {leases : Map GoString Lease} {lease : Lease} {op : Op}
      (hphase : c.phase = .serving leases)
      (hactive : leases.lookup lease.leaseID = some lease)
      (hnot : ¬ c.store.queue.FencedBy lease.task.id lease.leaseID)
      (hop : op.Closes) (acked : Bool) :
      Move amb dur e c
        { c with entries := c.entries ++ [⟨closeRecord op lease.leaseID, acked⟩] }
  | drop {c : Custody} {leases : Map GoString Lease} {lease : Lease}
      (hphase : c.phase = .serving leases)
      (hactive : leases.lookup lease.leaseID = some lease)
      (hnot : ¬ c.store.queue.FencedBy lease.task.id lease.leaseID) :
      Move amb dur e c
        { c with phase := .serving (leases.erase lease.leaseID) }
  | stop {c : Custody} :
      Move amb dur e c { c with phase := .down }
  | reopen {c : Custody} {config : EngineConfig} {orders : RestoreOrders}
      {journal : LeaseLog} {recovered : List Record}
      (he : e = .restart config orders journal recovered)
      (hdur : dur →
        LeaseLog.Survives c.entries journal.entries ∧
          recovered = journal.records) :
      Move amb dur e c
        { c with
          entries := journal.entries
          phase := .recovering (live recovered) }
  | reconcile {c : Custody} {opened : Map GoString Record}
      (hphase : c.phase = .recovering opened) (order order' : List GoString) :
      Move amb dur e c
        { c with
          store := (c.store.recoverOrphanedProcessing order
            (openFences order' opened)).2 }
  | closeStale {c : Custody} {opened : Map GoString Record} {r : Record}
      (hphase : c.phase = .recovering opened)
      (hopen : opened.lookup r.leaseID = some r)
      (hnot : ¬ c.store.queue.FencedBy r.task.id r.leaseID) (acked : Bool) :
      Move amb dur e c
        { c with entries := c.entries ++ [⟨closeRecord .stale r.leaseID, acked⟩] }
  | recovered {c : Custody} {opened : Map GoString Record}
      {leases : Map GoString Lease}
      (hphase : c.phase = .recovering opened)
      (hleases : Recovered opened c.store.queue leases) :
      Move amb dur e c { c with phase := .serving leases }

/-- A sequence of moves within one event. -/
abbrev Moves (amb dur : Prop) (e : Event LeaseLog) : Custody → Custody → Prop :=
  Relation.ReflTransGen (Move amb dur e)

/-- What every move of an event keeps, the event keeps. -/
theorem Moves.keeps
    {amb dur : Prop} {e : Event LeaseLog} {P : Custody → Prop} {c c' : Custody}
    (h : Moves amb dur e c c')
    (hmove : ∀ c c', Move amb dur e c c' → P c → P c')
    (hc : P c) :
    P c' := by
  induction h with
  | refl => exact hc
  | tail _ hlast ih => exact hmove _ _ hlast ih

/-- The phase that the memory of a process shows between operations. -/
def Engine.phase (engine : Engine) : Phase :=
  match engine.recoveryErr with
  | some _ => .down
  | none => .serving engine.leases

/-- The custody of a world whose process is in the given phase. -/
def World.custody (w : World Storage LeaseLog) (phase : Phase)
    (issued : List GoString) : Custody :=
  ⟨w.backend.store, w.journal.entries, phase, issued⟩

/-- The custody of a system between events. -/
def System.custody (s : System Storage LeaseLog) : Custody :=
  ⟨s.backend.store, s.journal.entries,
    match s.process with
    | none => .down
    | some engine => engine.phase,
    s.issued⟩

/-- Between events no lease is half given out and no recovery is half done. -/
theorem System.custody_settled
    (s : System Storage LeaseLog) :
    s.custody.phase = .down ∨ ∃ leases, s.custody.phase = .serving leases := by
  unfold System.custody Engine.phase
  rcases s.process with _ | engine
  · exact Or.inl rfl
  · rcases hrec : engine.recoveryErr with _ | err
    · exact Or.inr ⟨engine.leases, by simp [hrec]⟩
    · exact Or.inl (by simp [hrec])

theorem System.custody_serving
    {s : System Storage LeaseLog} {engine : Engine}
    (hprocess : s.process = some engine)
    (hrec : engine.recoveryErr = none) :
    s.custody.phase = .serving engine.leases := by
  simp [System.custody, Engine.phase, hprocess, hrec]

end Moxy
