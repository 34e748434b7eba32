import Moxy.ExpirationCoverage

/-!
# Moxy: a service of named queues

A service owns one engine for each queue.  Engines are created on demand, by the
first enqueue or fetch that names the queue: only then is the journal of the
queue opened and its lease state recovered.  An acknowledgement and a reaping
pass go over the engines that exist.

The storage of a queue, its backend and its journal, outlives the service.  It is
kept for every queue name, whether or not an engine for it exists.

Three things that the source takes from its surroundings are arguments: what
opening a journal returns, the orders of the loops of a recovery, and the order
in which the engine map is visited.
-/

namespace Moxy

open Lib Lib.CrashM

/--
Settings of a service.  `journal` tells whether there is a journal factory;
`recovered` is the replay that engines get without one.
-/
structure ServiceConfig where
  maxAttempts : Int
  requeueRetryDelay : Int
  recovered : List Record
  journal : Bool
  maxQueues : Int
deriving DecidableEq, Repr

/-- The settings of the engines of a service. -/
def ServiceConfig.engine (config : ServiceConfig) : EngineConfig :=
  ⟨config.maxAttempts, config.requeueRetryDelay, config.journal⟩

/-- The number of queues that a service may own, unless configured. -/
def defaultMaxQueues : Int :=
  1024

/-- The limit on the number of queues; none if it is not positive. -/
def ServiceConfig.queueLimit (config : ServiceConfig) : Int :=
  if config.maxQueues = 0 then defaultMaxQueues else config.maxQueues

/-- The characters of a queue name. -/
def validQueueByte (b : UInt8) : Bool :=
  (97 ≤ b && b ≤ 122) || (65 ≤ b && b ≤ 90) || (48 ≤ b && b ≤ 57) ||
    b == 45 || b == 95

/--
Queue names are short and use letters, digits, hyphen and underscore.  A byte
outside ASCII is part of a rune that is none of these.
-/
def validQueueName (queueName : GoString) : Bool :=
  !queueName.isEmpty && decide (queueName.length ≤ 64) &&
    queueName.all validQueueByte

/-- A service on the storage of all queues. -/
structure Service (β γ : Type) where
  config : ServiceConfig
  engines : Map GoString Engine
  backends : GoString → β
  journals : GoString → γ

/-- Service operations. -/
abbrev ServiceM (β γ α : Type) : Type :=
  CrashM GoError (Service β γ) α

/-- What creating an engine takes from its surroundings. -/
structure Opening (γ : Type) where
  journal : Except GoError (γ × List Record)
  orders : RestoreOrders

/-- Several errors as one; no error if there is none. -/
def joinErrors : List GoError → Option GoError
  | [] => none
  | [err] => some (.wrap [] err [])
  | err :: errs => (joinErrors errs).map (.join err)

namespace Service

variable {β γ : Type}

/-- A service without engines. -/
def newWithConfig (config : ServiceConfig) (backends : GoString → β)
    (journals : GoString → γ) : Service β γ :=
  ⟨config, ∅, backends, journals⟩

/-- The engine of a queue with its storage; an engine before recovery if none exists. -/
def world (queueName : GoString) (s : Service β γ) : World β γ :=
  ⟨(s.engines.lookup queueName).getD (Engine.blank s.config.engine),
    s.backends queueName, s.journals queueName⟩

/-- The service after an operation of an existing engine. -/
def putBack (queueName : GoString) (w : World β γ) (s : Service β γ) : Service β γ :=
  { s with
    engines := s.engines.replace queueName w.engine
    backends := Function.update s.backends queueName w.backend
    journals := Function.update s.journals queueName w.journal }

/-- The service after the creation of an engine. -/
def install (queueName : GoString) (w : World β γ) (s : Service β γ) : Service β γ :=
  { s with
    engines := s.engines.insert queueName w.engine
    backends := Function.update s.backends queueName w.backend
    journals := Function.update s.journals queueName w.journal }

/-- An operation of the engine of a queue. -/
def onQueue {α : Type} (queueName : GoString) (m : EngineM β γ α) : ServiceM β γ α :=
  zoom (world queueName) (putBack queueName) m

theorem wp_onQueue
    {α : Type} {queueName : GoString} {m : EngineM β γ α} {s : Service β γ}
    {ok : α → Service β γ → Prop} {error : GoError → Service β γ → Prop}
    {crashed : Service β γ → Prop} :
    wp (onQueue queueName m) ok error crashed s ↔
      wp m (fun a w => ok a (s.putBack queueName w))
        (fun err w => error err (s.putBack queueName w))
        (fun w => crashed (s.putBack queueName w)) (s.world queueName) :=
  wp_zoom

variable [Backend β] [Journal γ]

/-- Create the engine of a queue from a replay of its journal. -/
def createEngine (queueName : GoString) (orders : RestoreOrders)
    (recovered : List Record) : ServiceM β γ Unit := do
  let s ← read
  zoom (world queueName) (install queueName)
    (newEngine s.config.engine orders recovered)

/-- Make sure that the engine of a queue exists. -/
def engineFor (opening : Opening γ) (queueName : GoString) : ServiceM β γ Unit := do
  if validQueueName queueName = false then fail (.sentinel .errInvalidQueueName)
  else do
    let s ← read
    match s.engines.lookup queueName with
    | some _ => pure ()
    | none =>
        if 0 < s.config.queueLimit ∧
            s.config.queueLimit ≤ (s.engines.entries.length : Int) then
          fail (.sentinel .errTooManyQueues)
        else if s.config.journal then
          match opening.journal with
          | .error err => fail err
          | .ok (journal, recovered) => do
              update (fun s =>
                { s with journals := Function.update s.journals queueName journal })
              createEngine queueName opening.orders recovered
        else createEngine queueName opening.orders s.config.recovered

/-- Append a task to a named queue. -/
def enqueue (opening : Opening γ) (queueName newID : GoString) (payload : Bytes) :
    ServiceM β γ Task := do
  engineFor opening queueName
  onQueue queueName (Moxy.enqueue newID payload)

/-- Lease one task of a named queue. -/
def fetch (opening : Opening γ) (queueName leaseID : GoString) (now timeout : Int) :
    ServiceM β γ Lease := do
  engineFor opening queueName
  onQueue queueName (Moxy.fetch leaseID now timeout)

/-- The loop of `ack` over the engines. -/
def ackScan (leaseID : GoString) : List GoString → ServiceM β γ Unit
  | [] => fail (.sentinel .errLeaseNotFound)
  | queueName :: rest => do
      match ← attempt (onQueue queueName (Moxy.ack leaseID)) with
      | .ok _ => pure ()
      | .error err =>
          if err.is .errLeaseNotFound then ackScan leaseID rest else fail err

/-- The names of the existing queues, in the order of a visit. -/
def existingEngines (order : List GoString) (s : Service β γ) : List GoString :=
  (s.engines.range order).map Prod.fst

/-- Complete a lease by scanning the existing queues. -/
def ack (order : List GoString) (leaseID : GoString) : ServiceM β γ Unit := do
  let s ← read
  ackScan leaseID (s.existingEngines order)

/-- The loop of `reapExpired` over the engines. -/
def reapScan (now : Int) :
    List GoString → Nat → List GoError → ServiceM β γ (Nat × Option GoError)
  | [], total, errs => pure (total, joinErrors errs)
  | queueName :: rest, total, errs => do
      let reaped ← onQueue queueName (Moxy.reapExpired now)
      reapScan now rest (total + reaped.1) (errs ++ reaped.2.toList)

/-- Reap expired leases across the existing queues. -/
def reapExpired (order : List GoString) (now : Int) :
    ServiceM β γ (Nat × Option GoError) := do
  let s ← read
  reapScan now (s.existingEngines order) 0 []

/-- Counts for a named queue, if its engine exists. -/
def stats (queueName : GoString) (s : Service β γ) : Option Stats :=
  if validQueueName queueName = false then none
  else (s.engines.lookup queueName).map (fun engine =>
    World.stats ⟨engine, s.backends queueName, s.journals queueName⟩)

end Service

end Moxy
