import Moxy.Engine

/-!
# Moxy: durable storage that may fail

The engine is run against a memory queue that stands for a durable backend, and
against a journal that outlives the process.  What can go wrong at each call is
written down in advance as a script, so a statement for all scripts is a
statement for all patterns of failures.

**Backend.**  A call takes effect and reports its result, fails without effect,
takes effect but reports a foreign error (a lost reply), or sees the process
stop before or after the effect.  `Store` also keeps a log of the transitions
that took effect; the log is not part of the source and nothing reads it.

**Journal.**  An append stores its record and returns, is refused, or sees the
process stop.  A record whose append did not return may or may not still be
there after the next restart: it is kept with `acked = false`, and `Survives`
lets a restart drop any of these.
-/

namespace Moxy

open Lib Lib.CrashM

/-- A backend transition that took effect. -/
inductive Transition where
  | enqueued (task : Task)
  | acquired (leaseID : GoString) (task : Task)
  | completed (taskID leaseID : GoString)
  | requeued (taskID leaseID : GoString)
  | deadLettered (taskID leaseID : GoString)
  | orphaned (taskID leaseID : GoString)
deriving DecidableEq, Repr

/-- A memory queue with the log of its effective transitions. -/
structure Store where
  queue : MemoryQueue
  log : List Transition
deriving DecidableEq

namespace Store

/-- Perform a queue operation; log `entries` if it succeeds. -/
def logging {α : Type} (entries : α → List Transition)
    (result : Except GoError α × MemoryQueue) (s : Store) :
    Except GoError α × Store :=
  match result.1 with
  | .ok a => (.ok a, ⟨result.2, s.log ++ entries a⟩)
  | .error err => (.error err, ⟨result.2, s.log⟩)

def enqueue (task : Task) (s : Store) : Except GoError Unit × Store :=
  logging (fun _ => [.enqueued task]) (s.queue.enqueue task) s

def acquire (leaseID : GoString) (s : Store) : Except GoError Task × Store :=
  logging (fun task => [.acquired leaseID task]) (s.queue.acquire leaseID) s

def complete (taskID leaseID : GoString) (s : Store) :
    Except GoError Unit × Store :=
  logging (fun _ => [.completed taskID leaseID])
    (s.queue.complete taskID leaseID) s

def requeue (taskID leaseID : GoString) (s : Store) :
    Except GoError Unit × Store :=
  logging (fun _ => [.requeued taskID leaseID])
    (s.queue.requeue taskID leaseID) s

def deadLetter (taskID leaseID reason : GoString) (now : Int) (s : Store) :
    Except GoError Unit × Store :=
  logging (fun _ => [.deadLettered taskID leaseID])
    (s.queue.deadLetter taskID leaseID reason now) s

def recoverOrphanedProcessing (order : List GoString)
    (activeLeases : List LeaseFence) (s : Store) :
    Except GoError RecoveryResult × Store :=
  logging
    (fun _ => (s.queue.orphans order activeLeases).map
      (fun orphan => .orphaned orphan.1 orphan.2.leaseID))
    (s.queue.recoverOrphanedProcessing order activeLeases) s

end Store

/-- The next element of a script, if all of them and the default satisfy `P`. -/
theorem headD_of_all
    {α : Type} {P : α → Prop} {script : List α} {default : α}
    (h : ∀ x ∈ script, P x)
    (hdefault : P default) :
    P (script.headD default) := by
  cases script with
  | nil => exact hdefault
  | cons first rest => exact h first List.mem_cons_self

/-- How one backend call turns out. -/
inductive Fate where
  | reports
  | fails (message : GoString)
  | lost (message : GoString)
  | crashBefore
  | crashAfter
deriving DecidableEq, Repr

/-- The fates in which a foreign error hides what happened. -/
def Fate.Ambiguous : Fate → Prop
  | .fails _ => True
  | .lost _ => True
  | _ => False

/-- What the surroundings decide for one backend call. -/
structure CallEnv where
  fate : Fate
  now : Int
  order : List GoString
deriving DecidableEq, Repr

/-- A call that simply takes effect. -/
def CallEnv.calm : CallEnv :=
  ⟨.reports, 0, []⟩

/-- A store together with the script of its next calls. -/
structure Storage where
  store : Store
  script : List CallEnv
deriving DecidableEq

namespace Storage

/-- One backend call, with the fate that the script holds for it. -/
def call {α : Type} (effect : CallEnv → Store → Except GoError α × Store) :
    CrashM GoError Storage α :=
  fun s =>
    let env := s.script.headD CallEnv.calm
    let after := (effect env s.store).2
    match env.fate with
    | .reports =>
        match (effect env s.store).1 with
        | .ok a => .ok a ⟨after, s.script.tail⟩
        | .error err => .error err ⟨after, s.script.tail⟩
    | .fails message => .error (.text message) ⟨s.store, s.script.tail⟩
    | .lost message => .error (.text message) ⟨after, s.script.tail⟩
    | .crashBefore => .crashed ⟨s.store, s.script.tail⟩
    | .crashAfter => .crashed ⟨after, s.script.tail⟩

instance : Backend Storage where
  enqueue task := call (fun _ => Store.enqueue task)
  acquire leaseID := call (fun _ => Store.acquire leaseID)
  complete taskID leaseID := call (fun _ => Store.complete taskID leaseID)
  requeue taskID leaseID := call (fun _ => Store.requeue taskID leaseID)
  deadLetter taskID leaseID reason :=
    call (fun env => Store.deadLetter taskID leaseID reason env.now)
  recoverOrphanedProcessing activeLeases :=
    call (fun env => Store.recoverOrphanedProcessing env.order activeLeases)
  stats s := s.store.queue.stats

/-- Foreign errors occur only if `amb` allows them. -/
def Within (amb : Prop) (script : List CallEnv) : Prop :=
  ∀ env ∈ script, env.fate.Ambiguous → amb

theorem within_true
    (script : List CallEnv) :
    Within True script :=
  fun _ _ _ => trivial

theorem Within.tail
    {amb : Prop} {script : List CallEnv}
    (h : Within amb script) :
    Within amb script.tail :=
  fun env henv => h env (List.mem_of_mem_tail henv)

theorem Within.head
    {amb : Prop} {script : List CallEnv}
    (h : Within amb script)
    (hf : (script.headD CallEnv.calm).fate.Ambiguous) :
    amb :=
  headD_of_all (P := fun env : CallEnv => env.fate.Ambiguous → amb) h False.elim hf

/-- A backend call, read off the fate that the script holds for it. -/
theorem wp_call_iff
    {α : Type} {effect : CallEnv → Store → Except GoError α × Store}
    {ok : α → Storage → Prop} {error : GoError → Storage → Prop}
    {crashed : Storage → Prop} {s : Storage} :
    wp (call effect) ok error crashed s ↔
      match (s.script.headD CallEnv.calm).fate with
      | .reports =>
          match (effect (s.script.headD CallEnv.calm) s.store).1 with
          | .ok a => ok a
              ⟨(effect (s.script.headD CallEnv.calm) s.store).2, s.script.tail⟩
          | .error err => error err
              ⟨(effect (s.script.headD CallEnv.calm) s.store).2, s.script.tail⟩
      | .fails message => error (.text message) ⟨s.store, s.script.tail⟩
      | .lost message => error (.text message)
          ⟨(effect (s.script.headD CallEnv.calm) s.store).2, s.script.tail⟩
      | .crashBefore => crashed ⟨s.store, s.script.tail⟩
      | .crashAfter => crashed
          ⟨(effect (s.script.headD CallEnv.calm) s.store).2, s.script.tail⟩ := by
  unfold wp call
  generalize s.script.headD CallEnv.calm = env
  dsimp only
  cases env.fate with
  | reports =>
      cases (effect env s.store).1 with
      | ok a => exact Iff.rfl
      | error err => exact Iff.rfl
  | fails message => exact Iff.rfl
  | lost message => exact Iff.rfl
  | crashBefore => exact Iff.rfl
  | crashAfter => exact Iff.rfl

/-- The rule for a backend call: one premise for each fate. -/
theorem wp_call
    {α : Type} {effect : CallEnv → Store → Except GoError α × Store}
    {ok : α → Storage → Prop} {error : GoError → Storage → Prop}
    {crashed : Storage → Prop} {s : Storage} {amb : Prop}
    (hwithin : Within amb s.script)
    (hok : ∀ env script a, Within amb script →
      (effect env s.store).1 = .ok a →
      ok a ⟨(effect env s.store).2, script⟩)
    (herror : ∀ env script err, Within amb script →
      (effect env s.store).1 = .error err →
      error err ⟨(effect env s.store).2, script⟩)
    (hfails : ∀ script message, amb → Within amb script →
      error (.text message) ⟨s.store, script⟩)
    (hlost : ∀ env script message, amb → Within amb script →
      error (.text message) ⟨(effect env s.store).2, script⟩)
    (hbefore : ∀ script, Within amb script → crashed ⟨s.store, script⟩)
    (hafter : ∀ env script, Within amb script →
      crashed ⟨(effect env s.store).2, script⟩) :
    wp (call effect) ok error crashed s := by
  have htail := hwithin.tail
  have hamb := hwithin.head
  rw [wp_call_iff]
  generalize s.script.headD CallEnv.calm = env at hamb ⊢
  cases hfate : env.fate with
  | reports =>
      cases hr : (effect env s.store).1 with
      | ok a => exact hok env _ a htail hr
      | error err => exact herror env _ err htail hr
  | fails message =>
      exact hfails _ message (hamb (by rw [hfate]; exact trivial)) htail
  | lost message =>
      exact hlost env _ message (hamb (by rw [hfate]; exact trivial)) htail
  | crashBefore => exact hbefore _ htail
  | crashAfter => exact hafter env _ htail

end Storage

/-- How one journal append turns out. -/
inductive AppendFate where
  | stored
  | refused (message : GoString)
  | crashBefore
  | crashDuring
  | crashAfter
deriving DecidableEq, Repr

/-- A record in the journal; `acked` tells whether its append returned nil. -/
structure JournalEntry where
  record : Record
  acked : Bool
deriving DecidableEq, Repr

/-- A journal with the script of its next appends. -/
structure LeaseLog where
  entries : List JournalEntry
  script : List AppendFate
deriving DecidableEq

namespace LeaseLog

/-- One append, with the fate that the script holds for it. -/
def append (record : Record) : CrashM GoError LeaseLog Unit :=
  fun j =>
    match j.script.headD .stored with
    | .stored => .ok () ⟨j.entries ++ [⟨record, true⟩], j.script.tail⟩
    | .refused message =>
        .error (.text message) ⟨j.entries ++ [⟨record, false⟩], j.script.tail⟩
    | .crashBefore => .crashed ⟨j.entries, j.script.tail⟩
    | .crashDuring => .crashed ⟨j.entries ++ [⟨record, false⟩], j.script.tail⟩
    | .crashAfter => .crashed ⟨j.entries ++ [⟨record, true⟩], j.script.tail⟩

instance : Journal LeaseLog where
  append := append

/-- The records, as a replay returns them. -/
def records (j : LeaseLog) : List Record :=
  j.entries.map JournalEntry.record

/-- A restart keeps every acknowledged record, in order, and any of the others. -/
def Survives (before after : List JournalEntry) : Prop :=
  after.Sublist before ∧
    after.filter JournalEntry.acked = before.filter JournalEntry.acked

/-- An append, read off the fate that the script holds for it. -/
theorem wp_append_iff
    {record : Record} {ok : Unit → LeaseLog → Prop}
    {error : GoError → LeaseLog → Prop} {crashed : LeaseLog → Prop}
    {j : LeaseLog} :
    wp (append record) ok error crashed j ↔
      match j.script.headD .stored with
      | .stored => ok () ⟨j.entries ++ [⟨record, true⟩], j.script.tail⟩
      | .refused message =>
          error (.text message) ⟨j.entries ++ [⟨record, false⟩], j.script.tail⟩
      | .crashBefore => crashed ⟨j.entries, j.script.tail⟩
      | .crashDuring => crashed ⟨j.entries ++ [⟨record, false⟩], j.script.tail⟩
      | .crashAfter => crashed ⟨j.entries ++ [⟨record, true⟩], j.script.tail⟩ := by
  unfold wp append
  cases j.script.headD .stored with
  | stored => exact Iff.rfl
  | refused message => exact Iff.rfl
  | crashBefore => exact Iff.rfl
  | crashDuring => exact Iff.rfl
  | crashAfter => exact Iff.rfl

/-- The rule for an append: one premise for each fate. -/
theorem wp_append
    {record : Record} {ok : Unit → LeaseLog → Prop}
    {error : GoError → LeaseLog → Prop} {crashed : LeaseLog → Prop}
    {j : LeaseLog}
    (hstored : ∀ script, ok () ⟨j.entries ++ [⟨record, true⟩], script⟩)
    (hrefused : ∀ script message,
      error (.text message) ⟨j.entries ++ [⟨record, false⟩], script⟩)
    (hbefore : ∀ script, crashed ⟨j.entries, script⟩)
    (hcrash : ∀ script acked,
      crashed ⟨j.entries ++ [⟨record, acked⟩], script⟩) :
    wp (append record) ok error crashed j := by
  rw [wp_append_iff]
  cases j.script.headD .stored with
  | stored => exact hstored _
  | refused message => exact hrefused _ message
  | crashBefore => exact hbefore _
  | crashDuring => exact hcrash _ false
  | crashAfter => exact hcrash _ true

end LeaseLog

end Moxy
