import Moxy.FaultyStorage
import Moxy.Lib.Machine

/-!
# Moxy: an engine, its storage and its restarts

A `System` is a process that may be down, the backend and the journal it works
on, and the list of UUIDs generated so far.  Its events are the operations of the
engine and the start of a new process.

A start builds a new engine with `newEngine` from a list of recovered records.
If the process stops inside an operation, or inside `newEngine`, its memory is
gone, the backend and the journal stay as they are, and nothing happens until
the next start.
-/

namespace Moxy

open Lib Lib.CrashM

/-- What can happen to a system. -/
inductive Event (γ : Type) where
  | enqueue (newID : GoString) (payload : Bytes)
  | fetch (leaseID : GoString) (now : Int) (timeout : Int)
  | ack (leaseID : GoString)
  | reap (now : Int)
  | restart (config : EngineConfig) (orders : RestoreOrders) (journal : γ)
      (recovered : List Record)

/-- The UUIDs that an event generates. -/
def Event.newIDs {γ : Type} : Event γ → List GoString
  | .enqueue newID _ => [newID]
  | .fetch leaseID _ _ => [leaseID]
  | _ => []

/-- What the caller of an operation sees. -/
inductive Reply where
  | enqueued (task : Task)
  | fetched (lease : Lease)
  | acked
  | reaped (count : Nat) (err : Option GoError)
  | started
  | failed (err : GoError)
  | crashed
  | down
deriving DecidableEq

/-- A process on its storage. -/
structure System (β γ : Type) where
  process : Option Engine
  backend : β
  journal : γ
  issued : List GoString
deriving DecidableEq

namespace System

variable {β γ : Type}

/-- The system after an operation that ended in `w` with the process running. -/
def resume (s : System β γ) (w : World β γ) : System β γ :=
  { s with
    process := some w.engine
    backend := w.backend
    journal := w.journal }

/-- The system after an operation in which the process stopped. -/
def halt (s : System β γ) (w : World β γ) : System β γ :=
  { s with
    process := none
    backend := w.backend
    journal := w.journal }

/-- Run an operation and answer its caller. -/
def exec {α : Type} (s : System β γ) (engine : Engine) (m : EngineM β γ α)
    (reply : α → Reply) : Reply × System β γ :=
  match m ⟨engine, s.backend, s.journal⟩ with
  | .ok a w => (reply a, s.resume w)
  | .error err w => (.failed err, s.resume w)
  | .crashed w => (.crashed, s.halt w)

/-- The rule for `exec`: how the three ends of an operation show. -/
theorem exec_cases
    {α : Type} {s : System β γ} {engine : Engine} {m : EngineM β γ α}
    {reply : α → Reply} {P : Reply × System β γ → Prop}
    (h : wp m
      (fun a w => P (reply a, s.resume w))
      (fun err w => P (.failed err, s.resume w))
      (fun w => P (.crashed, s.halt w))
      ⟨engine, s.backend, s.journal⟩) :
    P (s.exec engine m reply) := by
  unfold wp at h
  unfold exec
  cases hm : m ⟨engine, s.backend, s.journal⟩ with
  | ok a w =>
      rw [hm] at h
      exact h
  | error err w =>
      rw [hm] at h
      exact h
  | crashed w =>
      rw [hm] at h
      exact h

/-- What holds of the world of the process, if the process is running. -/
def Holds (I : World β γ → Prop) (s : System β γ) : Prop :=
  ∀ engine, s.process = some engine → I ⟨engine, s.backend, s.journal⟩

/-- If the process is still running after `m`, its world satisfies `I`. -/
def Ends {α : Type} (I : World β γ → Prop) (m : EngineM β γ α)
    (w : World β γ) : Prop :=
  wp m (fun _ w' => I w') (fun _ w' => I w') (fun _ => True) w

theorem exec_holds
    {α : Type} {I : World β γ → Prop} {s : System β γ} {engine : Engine}
    {m : EngineM β γ α} {reply : α → Reply}
    (h : Ends I m ⟨engine, s.backend, s.journal⟩) :
    (s.exec engine m reply).2.Holds I := by
  refine exec_cases (P := fun r => r.2.Holds I) (wp_mono h ?_ ?_ ?_)
  · rintro a w hw _ ⟨⟩
    exact hw
  · rintro err w hw _ ⟨⟩
    exact hw
  · rintro w _ _ ⟨⟩

theorem exec_issued
    {α : Type} {s : System β γ} (engine : Engine) (op : EngineM β γ α)
    (reply : α → Reply) :
    (s.exec engine op reply).2.issued = s.issued := by
  rw [exec]
  split <;> rfl

variable [Backend β] [Journal γ]

/-- One event. -/
def step (e : Event γ) (s : System β γ) : Reply × System β γ :=
  let s' := { s with issued := e.newIDs ++ s.issued }
  match e, s.process with
  | .restart config orders journal recovered, _ =>
      exec { s' with journal := journal } (Engine.blank config)
        (newEngine config orders recovered) (fun _ => .started)
  | _, none => (.down, s')
  | .enqueue newID payload, some engine =>
      exec s' engine (enqueue newID payload) .enqueued
  | .fetch leaseID now timeout, some engine =>
      exec s' engine (fetch leaseID now timeout) .fetched
  | .ack leaseID, some engine =>
      exec s' engine (ack leaseID) (fun _ => .acked)
  | .reap now, some engine =>
      exec s' engine (reapExpired now) (fun r => .reaped r.1 r.2)

/-- UUIDs do not repeat. -/
def Fresh (s : System β γ) (e : Event γ) : Prop :=
  ∀ id ∈ e.newIDs, id ∉ s.issued

instance (s : System β γ) (e : Event γ) : Decidable (s.Fresh e) :=
  inferInstanceAs (Decidable (∀ id ∈ e.newIDs, id ∉ s.issued))

/-- A condition between operations that every operation re-establishes. -/
structure Kept (I : World β γ → Prop) : Prop where
  enqueue : ∀ w newID payload, I w → Ends I (enqueue newID payload) w
  fetch : ∀ w leaseID now timeout, I w → Ends I (fetch leaseID now timeout) w
  ack : ∀ w leaseID, I w → Ends I (ack leaseID) w
  reapExpired : ∀ w now, I w → Ends I (reapExpired now) w

/-- An event keeps such a condition, if a start establishes it. -/
theorem Kept.step
    {I : World β γ → Prop} {s : System β γ} {e : Event γ}
    (hkept : Kept I)
    (hs : s.Holds I)
    (hstart : ∀ config orders journal recovered,
      e = .restart config orders journal recovered →
      Ends I (newEngine config orders recovered)
        ⟨Engine.blank config, s.backend, journal⟩) :
    (s.step e).2.Holds I := by
  cases hp : s.process with
  | none =>
      cases e with
      | restart config orders journal recovered =>
          exact exec_holds (hstart config orders journal recovered rfl)
      | enqueue | fetch | ack | reap =>
          intro engine hengine
          simp [System.step, hp] at hengine
  | some engine =>
      have hI := hs engine hp
      cases e with
      | restart config orders journal recovered =>
          exact exec_holds (hstart config orders journal recovered rfl)
      | enqueue newID payload =>
          simp only [System.step, hp]
          exact exec_holds (hkept.enqueue _ newID payload hI)
      | fetch leaseID now timeout =>
          simp only [System.step, hp]
          exact exec_holds (hkept.fetch _ leaseID now timeout hI)
      | ack leaseID =>
          simp only [System.step, hp]
          exact exec_holds (hkept.ack _ leaseID hI)
      | reap now =>
          simp only [System.step, hp]
          exact exec_holds (hkept.reapExpired _ now hI)

theorem step_issued
    (e : Event γ) (s : System β γ) :
    (s.step e).2.issued = e.newIDs ++ s.issued := by
  cases hp : s.process with
  | none =>
      cases e with
      | restart => exact exec_issued _ _ _
      | enqueue | fetch | ack | reap => simp only [step, hp]
  | some engine =>
      cases e with
      | restart => exact exec_issued _ _ _
      | enqueue | fetch | ack | reap =>
          simp only [step, hp]
          exact exec_issued _ _ _

end System

/-- Storage with nothing in it, and a process that has not been started. -/
def System.empty (calls : List CallEnv) (appends : List AppendFate) :
    System Storage LeaseLog where
  process := none
  backend := ⟨⟨MemoryQueue.new, []⟩, calls⟩
  journal := ⟨[], appends⟩
  issued := []

/-- A start that reads the records which survived in the journal. -/
def System.Reopens (s : System Storage LeaseLog) (e : Event LeaseLog) : Prop :=
  match e with
  | .restart config _ journal recovered =>
      config.journal = true ∧
        LeaseLog.Survives s.journal.entries journal.entries ∧
        recovered = journal.records
  | _ => True

instance (before after : List JournalEntry) :
    Decidable (LeaseLog.Survives before after) :=
  inferInstanceAs (Decidable (_ ∧ _ = _))

instance (s : System Storage LeaseLog) (e : Event LeaseLog) :
    Decidable (s.Reopens e) :=
  match e with
  | .restart config _ journal recovered =>
      inferInstanceAs (Decidable (config.journal = true ∧
        LeaseLog.Survives s.journal.entries journal.entries ∧
        recovered = journal.records))
  | .enqueue _ _ | .fetch _ _ _ | .ack _ | .reap _ =>
      inferInstanceAs (Decidable True)

/-- Systems with fresh UUIDs, restarted from any records whatsoever. -/
def anyRestart : Machine (System Storage LeaseLog) (Event LeaseLog) Reply where
  step := System.step
  guard s e := s.Fresh e

instance (s : System Storage LeaseLog) (e : Event LeaseLog) :
    Decidable (anyRestart.guard s e) :=
  inferInstanceAs (Decidable (s.Fresh e))

/-- Journalled systems with fresh UUIDs, restarted from the surviving records. -/
def durable : Machine (System Storage LeaseLog) (Event LeaseLog) Reply where
  step := System.step
  guard s e := s.Fresh e ∧ s.Reopens e

instance (s : System Storage LeaseLog) (e : Event LeaseLog) :
    Decidable (durable.guard s e) :=
  inferInstanceAs (Decidable (s.Fresh e ∧ s.Reopens e))

end Moxy
