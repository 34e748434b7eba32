import Moxy.Lib.BinaryHeap
import Moxy.Lib.CrashProgram
import Moxy.LeaseJournal
import Moxy.MemoryQueue

/-!
# Moxy: the lease engine

The engine owns the lease map and the expiration heap of one queue.  It talks to
a queue backend and to a journal; both are interfaces here, and every call on
them may return, report an error, or see the process stop.

An operation is a program over a `World`: the memory of the engine, the backend
and the journal.  The memory is lost when the process stops, the other two are
not.

Three things that the source takes from its surroundings are arguments: the UUID
that an operation generates, the instant that `time.Now` returns, and the order
in which a `range` loop visits a map.
-/

namespace Moxy

open Lib Lib.CrashM

/-- The storage boundary of the engine. -/
class Backend (β : Type) where
  enqueue : Task → CrashM GoError β Unit
  acquire : GoString → CrashM GoError β Task
  complete : GoString → GoString → CrashM GoError β Unit
  requeue : GoString → GoString → CrashM GoError β Unit
  deadLetter : GoString → GoString → GoString → CrashM GoError β Unit
  recoverOrphanedProcessing : List LeaseFence → CrashM GoError β RecoveryResult
  stats : β → QueueStats

/-- The journal of lease transitions. -/
class Journal (γ : Type) where
  append : Record → CrashM GoError γ Unit

/-- One entry of the expiration heap. -/
structure ExpirationItem where
  leaseID : GoString
  expiresAt : Int
deriving DecidableEq, Repr

/-- The order of the expiration heap. -/
def ExpirationItem.less (x y : ExpirationItem) : Bool :=
  decide (x.expiresAt < y.expiresAt)

/-- Expiration and durability settings; `journal` tells whether one is set. -/
structure EngineConfig where
  maxAttempts : Int
  requeueRetryDelay : Int
  journal : Bool
deriving DecidableEq, Repr

/-- The delay before a failed expiry is tried again, unless configured. -/
def requeueRetryDelay : Int :=
  1000000000

/-- Counts for diagnostics. -/
structure Stats where
  ready : Nat
  processing : Nat
  dead : Nat
  activeLeases : Nat
  expirationHeap : Nat
deriving DecidableEq, Repr

/-- The memory of an engine. -/
structure Engine where
  leases : Map GoString Lease
  expirations : Array ExpirationItem
  config : EngineConfig
  recoveryErr : Option GoError
deriving DecidableEq

/-- What an engine operation runs on. -/
structure World (β γ : Type) where
  engine : Engine
  backend : β
  journal : γ
deriving DecidableEq

/-- Engine operations. -/
abbrev EngineM (β γ α : Type) : Type :=
  CrashM GoError (World β γ) α

/-- The orders of the three loops of `restore` over the open leases. -/
structure RestoreOrders where
  fences : List GoString
  stale : List GoString
  restored : List GoString
deriving DecidableEq, Repr

namespace Engine

/-- Make a lease active and schedule its expiration. -/
def publish (lease : Lease) (e : Engine) : Engine :=
  { e with
    leases := e.leases.insert lease.leaseID lease
    expirations :=
      BinaryHeap.push ExpirationItem.less e.expirations
        ⟨lease.leaseID, lease.expiresAt⟩ }

/-- Remove a lease from the lease map; its heap entry stays. -/
def dropLease (leaseID : GoString) (e : Engine) : Engine :=
  { e with leases := e.leases.erase leaseID }

def pushExpiration (item : ExpirationItem) (e : Engine) : Engine :=
  { e with
    expirations := BinaryHeap.push ExpirationItem.less e.expirations item }

def popExpiration (e : Engine) : Engine :=
  { e with
    expirations := BinaryHeap.pop ExpirationItem.less e.expirations }

/-- An engine before recovery. -/
def blank (config : EngineConfig) : Engine where
  leases := ∅
  expirations := #[]
  config :=
    { config with
      requeueRetryDelay :=
        if config.requeueRetryDelay ≤ 0 then Moxy.requeueRetryDelay
        else config.requeueRetryDelay }
  recoveryErr := none

def shouldDeadLetter (e : Engine) (lease : Lease) : Bool :=
  decide (0 < e.config.maxAttempts) &&
    decide (e.config.maxAttempts ≤ lease.task.attempts + 1)

end Engine

section Operations

variable {β γ : Type} [Backend β] [Journal γ]

/-- A call on the backend. -/
def onBackend {α : Type} (m : CrashM GoError β α) : EngineM β γ α :=
  zoom World.backend (fun b w => { w with backend := b }) m

/-- A call on the journal. -/
def onJournal {α : Type} (m : CrashM GoError γ α) : EngineM β γ α :=
  zoom World.journal (fun j w => { w with journal := j }) m

/-- A change of the engine's memory. -/
def onEngine (f : Engine → Engine) : EngineM β γ Unit :=
  update (fun w => { w with engine := f w.engine })

/-- Every operation but the constructor refuses to run after a failed recovery. -/
def ensureRecovered : EngineM β γ Unit := do
  let w ← read
  match w.engine.recoveryErr with
  | some err => fail err
  | none => pure ()

/-- Append to the journal, if there is one. -/
def record (entry : Record) : EngineM β γ Unit := do
  let w ← read
  if w.engine.config.journal then onJournal (Journal.append entry)
  else pure ()

/-- Close every open lease that the backend did not match. -/
def recordStale (matchedIDs : Finset GoString) :
    List GoString → EngineM β γ Unit
  | [] => pure ()
  | leaseID :: rest => do
      if leaseID ∈ matchedIDs then recordStale matchedIDs rest
      else do
        record (closeRecord .stale leaseID)
        recordStale matchedIDs rest

/-- Make the matched leases active again. -/
def publishMatched (matchedIDs : Finset GoString)
    (opened : List (GoString × Record)) (e : Engine) : Engine :=
  opened.foldl
    (fun e binding =>
      if binding.1 ∈ matchedIDs then e.publish binding.2.lease else e)
    e

/-- Note that recovery failed. -/
def failRecovery (err : GoError) : EngineM β γ Unit :=
  onEngine (fun e =>
    { e with
      recoveryErr := some (.join (.sentinel .errRecoveryIncomplete) err) })

/-- Rebuild lease state from a journal replay. -/
def restore (orders : RestoreOrders) (records : List Record) :
    EngineM β γ Unit := do
  let opened := live records
  let activeLeases :=
    (opened.range orders.fences).map
      (fun binding => (⟨binding.2.task.id, binding.2.leaseID⟩ : LeaseFence))
  match ← attempt (onBackend (Backend.recoverOrphanedProcessing activeLeases)) with
  | .error err => failRecovery err
  | .ok result =>
      match ← attempt (recordStale result.matchedLeaseIDs
          ((opened.range orders.stale).map Prod.fst)) with
      | .error err => failRecovery err
      | .ok _ =>
          onEngine (publishMatched result.matchedLeaseIDs
            (opened.range orders.restored))

/-- Build an engine over a backend and a journal, and recover its leases. -/
def newEngine (config : EngineConfig) (orders : RestoreOrders)
    (recovered : List Record) : EngineM β γ Unit := do
  onEngine (fun _ => Engine.blank config)
  restore orders recovered

/-- Create a task and append it to the ready queue. -/
def enqueue (newID : GoString) (payload : Bytes) : EngineM β γ Task := do
  ensureRecovered
  let task : Task := ⟨newID, payload, 0⟩
  onBackend (Backend.enqueue task)
  pure task

/-- Lease one ready task. -/
def fetch (leaseID : GoString) (now : Int) (timeout : Int) :
    EngineM β γ Lease := do
  if timeout ≤ 0 then fail (.sentinel .errInvalidTimeout)
  else do
    ensureRecovered
    match ← attempt (onBackend (Backend.acquire leaseID)) with
    | .error err =>
        if err.is .errQueueEmpty then fail (.sentinel .errQueueEmpty)
        else fail err
    | .ok task =>
        let lease : Lease := ⟨leaseID, task, now, now + timeout⟩
        -- The task has left ready storage, so a failed write hands it back.
        match ← attempt (record lease.fetchRecord) with
        | .error err =>
            match ← attempt (onBackend (Backend.requeue task.id leaseID)) with
            | .error requeueErr => fail (.join err requeueErr)
            | .ok _ => fail err
        | .ok _ => do
            onEngine (Engine.publish lease)
            pure lease

/-- Complete an active lease. -/
def ack (leaseID : GoString) : EngineM β γ Unit := do
  ensureRecovered
  let w ← read
  match w.engine.leases.lookup leaseID with
  | none => fail (.sentinel .errLeaseNotFound)
  | some lease =>
      match ← attempt
          (onBackend (Backend.complete lease.task.id lease.leaseID)) with
      | .error err =>
          if isStaleLeaseError err then do
            record (closeRecord .stale leaseID)
            onEngine (Engine.dropLease leaseID)
            fail (.sentinel .errLeaseNotFound)
          else fail err
      | .ok _ => do
          record (closeRecord .ack leaseID)
          onEngine (Engine.dropLease leaseID)

/-- The backend call that ends an expired lease. -/
def expireCall (dead : Bool) (lease : Lease) : CrashM GoError β Unit :=
  if dead then
    Backend.deadLetter lease.task.id lease.leaseID
      (goString "max attempts exceeded")
  else Backend.requeue lease.task.id lease.leaseID

/-- End one expired lease in the backend, then in the journal. -/
def expireLease (lease : Lease) : EngineM β γ Unit := do
  let w ← read
  let dead := w.engine.shouldDeadLetter lease
  match ← attempt (onBackend (expireCall dead lease)) with
  | .error err =>
      if isStaleLeaseError err then
        record (closeRecord .stale lease.leaseID)
      else fail err
  | .ok _ =>
      record (closeRecord (if dead then .deadLetter else .expire) lease.leaseID)

/--
The loop of `reapExpired`.  Every iteration removes one heap entry, so as many
iterations as there are entries empty the heap.
-/
def reapLoop (now : Int) : Nat → Nat → EngineM β γ (Nat × Option GoError)
  | 0, requeued => pure (requeued, none)
  | fuel + 1, requeued => do
      let w ← read
      match BinaryHeap.peek w.engine.expirations with
      | none => pure (requeued, none)
      | some item =>
          if now < item.expiresAt then pure (requeued, none)
          else do
            onEngine Engine.popExpiration
            match w.engine.leases.lookup item.leaseID with
            | none => reapLoop now fuel requeued
            | some lease =>
                if now < lease.expiresAt then reapLoop now fuel requeued
                else do
                  match ← attempt (expireLease lease) with
                  | .error err => do
                      onEngine (Engine.pushExpiration
                        ⟨item.leaseID,
                          now + w.engine.config.requeueRetryDelay⟩)
                      pure (requeued, some err)
                  | .ok _ => do
                      onEngine (Engine.dropLease item.leaseID)
                      reapLoop now fuel (requeued + 1)

/-- End every lease whose expiration is due; count and first error. -/
def reapExpired (now : Int) : EngineM β γ (Nat × Option GoError) := do
  let w ← read
  match w.engine.recoveryErr with
  | some err => pure (0, some err)
  | none => reapLoop now w.engine.expirations.size 0

/-- Counts for tests and diagnostics. -/
def World.stats (w : World β γ) : Stats :=
  let queueStats := Backend.stats w.backend
  { ready := queueStats.ready
    processing := queueStats.processing
    dead := queueStats.dead
    activeLeases := w.engine.leases.entries.length
    expirationHeap := w.engine.expirations.size }

end Operations

section Rules

variable {β γ : Type}

theorem wp_ensureRecovered
    {w : World β γ}
    {ok : Unit → World β γ → Prop} {error : GoError → World β γ → Prop}
    {crashed : World β γ → Prop} :
    wp ensureRecovered ok error crashed w ↔
      match w.engine.recoveryErr with
      | some err => error err w
      | none => ok () w := by
  unfold ensureRecovered
  rw [wp_bind, wp_read]
  cases w.engine.recoveryErr <;> rfl

theorem wp_onEngine
    {f : Engine → Engine} {w : World β γ}
    {ok : Unit → World β γ → Prop} {error : GoError → World β γ → Prop}
    {crashed : World β γ → Prop} :
    wp (onEngine f) ok error crashed w ↔ ok () { w with engine := f w.engine } :=
  Iff.rfl

theorem wp_onBackend
    {α : Type} {m : CrashM GoError β α} {w : World β γ}
    {ok : α → World β γ → Prop} {error : GoError → World β γ → Prop}
    {crashed : World β γ → Prop} :
    wp (onBackend m) ok error crashed w ↔
      wp m (fun a b => ok a { w with backend := b })
        (fun err b => error err { w with backend := b })
        (fun b => crashed { w with backend := b }) w.backend :=
  wp_zoom

/-- Nothing is known about a backend call except that it changes the backend. -/
theorem wp_onBackend_any
    {α : Type} {m : CrashM GoError β α} {w : World β γ}
    {ok : α → World β γ → Prop} {error : GoError → World β γ → Prop}
    {crashed : World β γ → Prop}
    (hok : ∀ a b, ok a { w with backend := b })
    (herror : ∀ err b, error err { w with backend := b })
    (hcrashed : ∀ b, crashed { w with backend := b }) :
    wp (onBackend m) ok error crashed w := by
  rw [wp_onBackend]
  unfold wp
  cases m w.backend with
  | ok a b => exact hok a b
  | error err b => exact herror err b
  | crashed b => exact hcrashed b

variable [Journal γ]

theorem wp_record
    {entry : Record} {w : World β γ}
    {ok : Unit → World β γ → Prop} {error : GoError → World β γ → Prop}
    {crashed : World β γ → Prop} :
    wp (record entry) ok error crashed w ↔
      if w.engine.config.journal = true then
        wp (Journal.append entry) (fun a j => ok a { w with journal := j })
          (fun err j => error err { w with journal := j })
          (fun j => crashed { w with journal := j }) w.journal
      else ok () w := by
  unfold record onJournal
  rw [wp_bind, wp_read]
  split_ifs
  · rw [wp_zoom]
  · rw [wp_pure]

/-- Nothing is known about an append except that it changes the journal. -/
theorem wp_record_any
    {entry : Record} {w : World β γ}
    {ok : Unit → World β γ → Prop} {error : GoError → World β γ → Prop}
    {crashed : World β γ → Prop}
    (hok : ∀ j, ok () { w with journal := j })
    (herror : ∀ err j, error err { w with journal := j })
    (hcrashed : ∀ j, crashed { w with journal := j }) :
    wp (record entry) ok error crashed w := by
  rw [wp_record]
  split_ifs
  · unfold wp
    cases (Journal.append entry : CrashM GoError γ Unit) w.journal with
    | ok a j => exact hok j
    | error err j => exact herror err j
    | crashed j => exact hcrashed j
  · exact hok w.journal

end Rules

end Moxy
