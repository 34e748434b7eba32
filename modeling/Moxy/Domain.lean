import Mathlib.Init

/-!
# Moxy: tasks, leases, journal records and errors

This module fixes the data that all layers of the lease coordinator share: the
task, the lease, the fence, the journal record, and the error values.

Strings of the source are byte sequences.  Instants and durations are counted
in nanoseconds, so an instant plus a duration is an integer sum.

**Errors.**  A package-level error is a `Sentinel`.  An error value is a
sentinel, a bare text (an error made in place, or one that comes from outside
the coordinator), an error wrapped into a longer text, or two joined errors.
`GoError.message` is the text and `GoError.is` the identity test along the
wrapping structure.
-/

namespace Moxy

/-- Raw bytes. -/
abbrev Bytes : Type := List UInt8

/-- A string of the source: a byte sequence without any encoding promise. -/
abbrev GoString : Type := List UInt8

/-- The bytes of a string literal. -/
def goString (s : String) : GoString :=
  s.toUTF8.data.toList

/-- The strings that are valid UTF-8. -/
def ValidUTF8 (s : GoString) : Prop :=
  ∃ text, goString text = s

/-- The zero value of an instant: the first second of year one. -/
def zeroTime : Int :=
  -62135596800000000000

/-- The package-level error values. -/
inductive Sentinel where
  | errQueueEmpty
  | errTaskNotProcessing
  | errLeaseFenceMismatch
  | errLeaseNotFound
  | errInvalidTimeout
  | errRecoveryIncomplete
  | errInvalidQueueName
  | errTooManyQueues
  | errUnknownCommand
  | errInvalidArguments
  | errCommandTimeout
  | errMalformedRESP
  | errValueTooLarge
deriving DecidableEq, Repr

/-- The text with which a package-level error was made. -/
def Sentinel.text : Sentinel → GoString
  | .errQueueEmpty => goString "ready queue is empty"
  | .errTaskNotProcessing => goString "task is not processing"
  | .errLeaseFenceMismatch => goString "lease generation mismatch"
  | .errLeaseNotFound => goString "lease does not exist"
  | .errInvalidTimeout => goString "lease timeout must be positive"
  | .errRecoveryIncomplete => goString "recovery reconciliation failed"
  | .errInvalidQueueName =>
      goString "queue name must use 1-64 letters, digits, hyphen or underscore"
  | .errTooManyQueues => goString "too many queues"
  | .errUnknownCommand => goString "unknown command"
  | .errInvalidArguments => goString "invalid arguments"
  | .errCommandTimeout => goString "invalid timeout"
  | .errMalformedRESP => goString "malformed RESP value"
  | .errValueTooLarge => goString "RESP value too large"

/-- Error values. -/
inductive GoError where
  | sentinel (s : Sentinel)
  | text (message : GoString)
  | wrap (before : GoString) (err : GoError) (after : GoString)
  | join (first second : GoError)
deriving DecidableEq, Repr

namespace GoError

/-- The text of an error; joined errors are separated by a line feed. -/
def message : GoError → GoString
  | sentinel s => s.text
  | text t => t
  | wrap before err after => before ++ err.message ++ after
  | join first second => first.message ++ [10] ++ second.message

/-- The identity test through wrapping and joining. -/
def is : GoError → Sentinel → Bool
  | sentinel s, t => s == t
  | text _, _ => false
  | wrap _ err _, t => err.is t
  | join first second, t => first.is t || second.is t

@[simp] theorem is_sentinel
    (s t : Sentinel) :
    (sentinel s).is t = (s == t) :=
  rfl

@[simp] theorem is_text
    (m : GoString) (t : Sentinel) :
    (text m).is t = false :=
  rfl

@[simp] theorem is_join
    (first second : GoError) (t : Sentinel) :
    (join first second).is t = (first.is t || second.is t) :=
  rfl

end GoError

/-- A unit of work. -/
structure Task where
  id : GoString
  payload : Bytes
  attempts : Int
deriving DecidableEq, Repr

/-- The zero value of a task, carried by records that close a lease. -/
def Task.zero : Task :=
  ⟨[], [], 0⟩

/-- Temporary ownership of a task by a worker. -/
structure Lease where
  leaseID : GoString
  task : Task
  createdAt : Int
  expiresAt : Int
deriving DecidableEq, Repr

/-- The task and the backend generation that a recovered lease still owns. -/
structure LeaseFence where
  taskID : GoString
  leaseID : GoString
deriving DecidableEq, Repr

/--
The lease transition that a record describes.  The source keeps the operation
as a string, so a replayed record may carry a name outside the five constants.
-/
inductive Op where
  | fetch
  | ack
  | expire
  | deadLetter
  | stale
  | unknown (name : GoString)
deriving DecidableEq, Repr

/-- One journal record. -/
structure Record where
  op : Op
  leaseID : GoString
  task : Task
  createdAt : Int
  expiresAt : Int
deriving DecidableEq, Repr

/-- The record that opens a lease; only this kind carries task and timing. -/
def Lease.fetchRecord (lease : Lease) : Record :=
  ⟨.fetch, lease.leaseID, lease.task, lease.createdAt, lease.expiresAt⟩

/-- A record that closes a lease. -/
def closeRecord (op : Op) (leaseID : GoString) : Record :=
  ⟨op, leaseID, Task.zero, zeroTime, zeroTime⟩

end Moxy
