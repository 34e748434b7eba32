import Moxy.RespWire
import Moxy.ServiceHost

/-!
# Moxy: storage whose contents fit the wire

Two things reach a reply without being checked on the way: the ID and payload of
a task, and the text of an error that a backend or a journal made.  Storage is
*tame* if its tasks fit into bulk strings and the errors it will report are short
texts without a line feed.

Tasks only move inside a queue, and errors only get used up, so storage stays
tame in every operation of an engine, of a service, and in every run of a host
whose clients send payloads that fit (`Host.run_tame`).
-/

namespace Moxy

open Lib Lib.CrashM

/-- A text that fits into an error reply. -/
def TameText (message : GoString) : Prop :=
  10 ∉ message ∧ message.length + 6 ≤ maxLineLength

/-- An error whose text fits into an error reply. -/
def GoError.Tame (err : GoError) : Prop :=
  TameText err.message

theorem Sentinel.tame
    (s : Sentinel) :
    (GoError.sentinel s).Tame := by
  unfold GoError.Tame TameText
  cases s <;> decide +kernel

/-- A task that fits into a fetch reply. -/
def Task.Deliverable (task : Task) : Prop :=
  task.id.length ≤ maxBulkLength ∧ task.payload.length ≤ maxBulkLength

/-- Every task that can still be handed out fits into a fetch reply. -/
structure MemoryQueue.Deliverable (q : MemoryQueue) : Prop where
  ready : ∀ task ∈ q.ready, task.Deliverable
  processing : ∀ taskID entry,
    q.processing.lookup taskID = some entry → entry.task.Deliverable

def Fate.Tame : Fate → Prop
  | .fails message => TameText message
  | .lost message => TameText message
  | _ => True

def AppendFate.Tame : AppendFate → Prop
  | .refused message => TameText message
  | _ => True

structure Storage.Tame (b : Storage) : Prop where
  tasks : b.store.queue.Deliverable
  script : ∀ env ∈ b.script, env.fate.Tame

def LeaseLog.Tame (j : LeaseLog) : Prop :=
  ∀ fate ∈ j.script, fate.Tame

def World.Tame (w : World Storage LeaseLog) : Prop :=
  w.backend.Tame ∧ w.journal.Tame

def Service.Tame (s : Service Storage LeaseLog) : Prop :=
  ∀ q, (s.backends q).Tame ∧ (s.journals q).Tame

section Queue

variable {q : MemoryQueue}

theorem MemoryQueue.Deliverable.enqueue
    (h : q.Deliverable)
    {task : Task}
    (htask : task.Deliverable) :
    (q.enqueue task).2.Deliverable := by
  constructor
  · intro t ht
    rcases List.mem_append.mp ht with hready | hnew
    · exact h.ready t hready
    · rw [List.mem_singleton.mp hnew]
      exact htask
  · exact h.processing

theorem MemoryQueue.Deliverable.acquire
    (h : q.Deliverable) (leaseID : GoString) :
    (q.acquire leaseID).2.Deliverable ∧
      ∀ task, (q.acquire leaseID).1 = .ok task → task.Deliverable := by
  unfold MemoryQueue.acquire
  cases hready : q.ready with
  | nil =>
      refine ⟨h, ?_⟩
      rintro task ⟨⟩
  | cons next rest =>
      have hnext : next.Deliverable := h.ready next (by simp [hready])
      refine ⟨⟨?_, ?_⟩, ?_⟩
      · intro t ht
        exact h.ready t (by rw [hready]; exact List.mem_cons_of_mem _ ht)
      · intro taskID entry hentry
        rw [Map.lookup_insert_ite] at hentry
        split_ifs at hentry
        · cases hentry
          exact hnext
        · exact h.processing taskID entry hentry
      · rintro task ⟨⟩
        exact hnext

theorem MemoryQueue.Deliverable.erase
    (h : q.Deliverable) (taskID : GoString) :
    MemoryQueue.Deliverable { q with processing := q.processing.erase taskID } := by
  refine ⟨h.ready, ?_⟩
  intro taskID' entry hentry
  rw [Map.lookup_erase_ite] at hentry
  split_ifs at hentry
  exact h.processing taskID' entry hentry

/-- A fenced transition keeps the tasks deliverable, if placing the task does. -/
theorem MemoryQueue.Deliverable.fenced
    (h : q.Deliverable) (taskID leaseID : GoString)
    {place : Task → MemoryQueue → MemoryQueue}
    (hplace : ∀ task q', task.Deliverable → q'.Deliverable →
      (place task q').Deliverable) :
    (MemoryQueue.fenced taskID leaseID place q).2.Deliverable := by
  rcases MemoryQueue.fenced_cases taskID leaseID place q with
    ⟨task, hlookup, heq⟩ | ⟨err, _, _, heq⟩
  · rw [heq]
    exact hplace task _ (h.processing taskID _ hlookup) (h.erase taskID)
  · rw [heq]
    exact h

end Queue

section Calls

theorem Store.logging_queue
    {α : Type} (entries : α → List Transition)
    (result : Except GoError α × MemoryQueue) (s : Store) :
    (Store.logging entries result s).2.queue = result.2 ∧
      (Store.logging entries result s).1 = result.1 := by
  unfold Store.logging
  cases result.1 <;> exact ⟨rfl, rfl⟩

theorem Storage.Tame.rest
    {b : Storage}
    (h : b.Tame)
    {store : Store}
    (hstore : store.queue.Deliverable) :
    Storage.Tame ⟨store, b.script.tail⟩ :=
  ⟨hstore, fun env henv => h.script env (List.mem_of_mem_tail henv)⟩

theorem Storage.Tame.head
    {b : Storage}
    (h : b.Tame) :
    (b.script.headD CallEnv.calm).fate.Tame :=
  headD_of_all (P := fun env : CallEnv => env.fate.Tame) h.script trivial

/--
A call on tame storage: what holds of the results of its effect holds of its
results, the storage stays tame and one call is used up, and an error is one of
the effect or a tame text.
-/
theorem Storage.wp_call_tame
    {α : Type} {effect : CallEnv → Store → Except GoError α × Store} {b : Storage}
    {P : α → Store → Prop}
    (hb : b.Tame)
    (hstore : ∀ env, (effect env b.store).2.queue.Deliverable)
    (hok : ∀ env a, (effect env b.store).1 = .ok a → P a (effect env b.store).2)
    (herror : ∀ env err, (effect env b.store).1 = .error err → err.Tame) :
    wp (Storage.call effect)
      (fun a b' => b'.Tame ∧ P a b'.store ∧ b'.script = b.script.tail)
      (fun err b' => b'.Tame ∧ err.Tame) Storage.Tame b := by
  have hhead := hb.head
  rw [Storage.wp_call_iff]
  generalize b.script.headD CallEnv.calm = env at hhead ⊢
  cases hfate : env.fate with
  | reports =>
      cases hr : (effect env b.store).1 with
      | ok a => exact ⟨hb.rest (hstore env), hok env a hr, rfl⟩
      | error err => exact ⟨hb.rest (hstore env), herror env err hr⟩
  | fails message =>
      rw [hfate] at hhead
      exact ⟨hb.rest hb.tasks, hhead⟩
  | lost message =>
      rw [hfate] at hhead
      exact ⟨hb.rest (hstore env), hhead⟩
  | crashBefore => exact hb.rest hb.tasks
  | crashAfter => exact hb.rest (hstore env)

/-- The three fenced calls have one effect, up to the place where the task goes. -/
theorem Storage.wp_fenced_tame
    {b : Storage} {taskID leaseID : GoString}
    {entries : Unit → List Transition}
    {place : CallEnv → Task → MemoryQueue → MemoryQueue}
    (hb : b.Tame)
    (hplace : ∀ env task q', task.Deliverable → q'.Deliverable →
      (place env task q').Deliverable) :
    wp (Storage.call (fun env s =>
        Store.logging entries (MemoryQueue.fenced taskID leaseID (place env) s.queue) s))
      (fun _ b' => b'.Tame) (fun err b' => b'.Tame ∧ err.Tame) Storage.Tame b := by
  refine wp_mono (Storage.wp_call_tame (P := fun _ _ => True) hb ?_ (fun _ _ _ => trivial) ?_)
    (fun _ _ h => h.1) (fun _ _ h => h) (fun _ h => h)
  · intro env
    rw [(Store.logging_queue _ _ _).1]
    exact hb.tasks.fenced taskID leaseID (hplace env)
  · intro env err herr
    rw [(Store.logging_queue _ _ _).2] at herr
    unfold MemoryQueue.fenced at herr
    cases hl : b.store.queue.processing.lookup taskID with
    | none =>
        simp only [hl] at herr
        cases herr
        exact Sentinel.tame _
    | some entry =>
        simp only [hl] at herr
        split_ifs at herr
        cases herr
        exact Sentinel.tame _

theorem placeReady_deliverable
    (task : Task) (q : MemoryQueue)
    (htask : task.Deliverable)
    (hq : q.Deliverable) :
    (MemoryQueue.placeReady task q).Deliverable :=
  hq.enqueue (show task.charged.Deliverable from htask)

section Backends

variable {b : Storage}

theorem complete_tame
    (taskID leaseID : GoString)
    (hb : b.Tame) :
    wp (Backend.complete taskID leaseID : CrashM GoError Storage Unit)
      (fun _ b' => b'.Tame) (fun err b' => b'.Tame ∧ err.Tame) Storage.Tame b :=
  Storage.wp_fenced_tame hb (fun _ _ _ _ hq => hq)

theorem requeue_tame
    (taskID leaseID : GoString)
    (hb : b.Tame) :
    wp (Backend.requeue taskID leaseID : CrashM GoError Storage Unit)
      (fun _ b' => b'.Tame) (fun err b' => b'.Tame ∧ err.Tame) Storage.Tame b :=
  Storage.wp_fenced_tame hb (fun _ => placeReady_deliverable)

theorem deadLetter_tame
    (taskID leaseID reason : GoString)
    (hb : b.Tame) :
    wp (Backend.deadLetter taskID leaseID reason : CrashM GoError Storage Unit)
      (fun _ b' => b'.Tame) (fun err b' => b'.Tame ∧ err.Tame) Storage.Tame b :=
  Storage.wp_fenced_tame hb (fun _ _ _ _ hq => ⟨hq.ready, hq.processing⟩)

end Backends

end Calls

section EngineOperations

/-- A backend call keeps the storage tame. -/
theorem onBackend_preserves
    {α : Type} {m : CrashM GoError Storage α}
    (hm : ∀ b, Storage.Tame b →
      wp m (fun _ b' => b'.Tame) (fun err b' => b'.Tame ∧ err.Tame) Storage.Tame b) :
    Preserves World.Tame (onBackend m : EngineM Storage LeaseLog α) := by
  intro w hw
  rw [wp_onBackend]
  exact wp_mono (hm w.backend hw.1) (fun _ _ h => ⟨h, hw.2⟩)
    (fun _ _ h => ⟨h.1, hw.2⟩) (fun _ h => ⟨h, hw.2⟩)

theorem LeaseLog.Tame.rest
    {j : LeaseLog}
    (h : j.Tame) (entries : List JournalEntry) :
    LeaseLog.Tame ⟨entries, j.script.tail⟩ :=
  fun fate hfate => h fate (List.mem_of_mem_tail hfate)

/-- An append to a tame journal: a refusal is a tame text. -/
theorem append_tame
    (entry : Record) {j : LeaseLog}
    (hj : j.Tame) :
    wp (Journal.append entry : CrashM GoError LeaseLog Unit)
      (fun _ j' => j'.Tame) (fun err j' => j'.Tame ∧ err.Tame) LeaseLog.Tame j := by
  have hhead : (j.script.headD .stored).Tame :=
    headD_of_all (P := AppendFate.Tame) hj trivial
  refine LeaseLog.wp_append_iff.mpr ?_
  cases hfate : j.script.headD .stored with
  | stored => exact hj.rest _
  | refused message =>
      rw [hfate] at hhead
      exact ⟨hj.rest _, hhead⟩
  | crashBefore => exact hj.rest _
  | crashDuring => exact hj.rest _
  | crashAfter => exact hj.rest _

theorem record_tame
    (entry : Record) {w : World Storage LeaseLog}
    (hw : w.Tame) :
    wp (record entry) (fun _ w' => w'.Tame ∧ w'.engine = w.engine)
      (fun err w' => (w'.Tame ∧ w'.engine = w.engine) ∧ err.Tame) World.Tame w := by
  rw [wp_record]
  split_ifs
  · exact wp_mono (append_tame entry hw.2) (fun _ _ h => ⟨⟨hw.1, h⟩, rfl⟩)
      (fun _ _ h => ⟨⟨⟨hw.1, h.1⟩, rfl⟩, h.2⟩) (fun _ h => ⟨hw.1, h⟩)
  · exact ⟨hw, rfl⟩

theorem record_preserves
    (entry : Record) :
    Preserves World.Tame (record entry : EngineM Storage LeaseLog Unit) :=
  fun _ hw => wp_mono (record_tame entry hw) (fun _ _ h => h.1)
    (fun _ _ h => h.1.1) (fun _ h => h)

theorem onEngine_preserves
    (f : Engine → Engine) :
    Preserves World.Tame (onEngine f : EngineM Storage LeaseLog Unit) :=
  preserves_update (fun _ hw => hw)

theorem ensureRecovered_preserves :
    Preserves World.Tame (ensureRecovered : EngineM Storage LeaseLog Unit) := by
  refine preserves_read_bind (fun w => ?_)
  cases w.engine.recoveryErr with
  | some err => exact preserves_fail err
  | none => exact preserves_pure ()

theorem ack_preserves
    (leaseID : GoString) :
    Preserves World.Tame (ack leaseID : EngineM Storage LeaseLog Unit) := by
  refine ensureRecovered_preserves.bind fun _ => preserves_read_bind fun w => ?_
  cases w.engine.leases.lookup leaseID with
  | none => exact preserves_fail _
  | some lease =>
      refine (onBackend_preserves (fun _ hb =>
        complete_tame lease.task.id lease.leaseID hb)).attempt.bind fun completed => ?_
      cases completed with
      | ok _ =>
          exact (record_preserves _).bind fun _ => onEngine_preserves _
      | error err =>
          dsimp only
          split_ifs
          · exact (record_preserves _).bind fun _ =>
              (onEngine_preserves _).bind fun _ => preserves_fail _
          · exact preserves_fail _

theorem expireLease_preserves
    (lease : Lease) :
    Preserves World.Tame (expireLease lease : EngineM Storage LeaseLog Unit) := by
  refine preserves_read_bind fun w => ?_
  have hcall : Preserves World.Tame
      (onBackend (expireCall (w.engine.shouldDeadLetter lease) lease) :
        EngineM Storage LeaseLog Unit) := by
    refine onBackend_preserves (fun b hb => ?_)
    unfold expireCall
    split_ifs
    · exact deadLetter_tame _ _ _ hb
    · exact requeue_tame _ _ hb
  refine hcall.attempt.bind fun ended => ?_
  cases ended with
  | ok _ => exact record_preserves _
  | error err =>
      dsimp only
      split_ifs
      · exact record_preserves _
      · exact preserves_fail _

theorem reapExpired_preserves
    (now : Int) :
    Preserves World.Tame
      (reapExpired now : EngineM Storage LeaseLog (Nat × Option GoError)) := by
  intro w hw
  refine wp_mono (wp_reapExpired (I := fun _ => World.Tame) (F := fun _ _ => World.Tame)
    (fun _ _ _ hI _ _ _ => hI) ?_ (fun _ _ => hw) (fun _ => hw)) ?_
    (fun _ _ hfalse => hfalse.elim) (fun _ h => h)
  · intro _ w' item lease hI _ _ _ _
    exact wp_mono (expireLease_preserves lease _ hI) (fun _ _ h => h) (fun _ _ h => h)
      (fun _ h => h)
  · exact fun _ _ hr => hr.elim (fun _ _ hI => hI) (fun _ _ _ hF => hF)

end EngineOperations

section ServiceOperations

/-- A journal that opens brings its own tame script; a failure to open is tame. -/
def Opening.Tame (opening : Opening LeaseLog) : Prop :=
  match opening.journal with
  | .error err => err.Tame
  | .ok (journal, _) => journal.Tame

theorem Service.Tame.update
    {s s' : Service Storage LeaseLog} {queueName : GoString}
    {b : Storage} {j : LeaseLog}
    (hs : s.Tame)
    (hb : b.Tame)
    (hj : j.Tame)
    (hbackends : s'.backends = Function.update s.backends queueName b)
    (hjournals : s'.journals = Function.update s.journals queueName j) :
    s'.Tame := by
  intro q
  rw [hbackends, hjournals]
  by_cases hq : q = queueName
  · subst hq
    simpa using ⟨hb, hj⟩
  · simpa [hq] using hs q

theorem Service.onQueue_preserves
    {α : Type} (queueName : GoString) {m : EngineM Storage LeaseLog α}
    (hm : Preserves World.Tame m) :
    Preserves Service.Tame (Service.onQueue queueName m) :=
  hm.zoom (fun _ hs => hs queueName) (fun _ _ hs hw => hs.update hw.1 hw.2 rfl rfl)

theorem Service.ackScan_preserves
    (leaseID : GoString) :
    ∀ queues : List GoString,
      Preserves Service.Tame
        (Service.ackScan leaseID queues : ServiceM Storage LeaseLog Unit) := by
  intro queues
  induction queues with
  | nil =>
      exact preserves_fail _
  | cons queueName rest ih =>
      refine (Service.onQueue_preserves queueName
        (ack_preserves leaseID)).attempt.bind fun result => ?_
      cases result with
      | ok _ => exact preserves_pure _
      | error err =>
          dsimp only
          split_ifs
          · exact ih
          · exact preserves_fail _

theorem Service.reapScan_preserves
    (now : Int) :
    ∀ (queues : List GoString) (total : Nat) (errs : List GoError),
      Preserves Service.Tame
        (Service.reapScan now queues total errs :
          ServiceM Storage LeaseLog (Nat × Option GoError)) := by
  intro queues
  induction queues with
  | nil =>
      intro _ _
      exact preserves_pure _
  | cons queueName rest ih =>
      intro _ _
      exact (Service.onQueue_preserves queueName (reapExpired_preserves now)).bind fun _ =>
          ih _ _

theorem Service.ack_preserves
    (order : List GoString) (leaseID : GoString) :
    Preserves Service.Tame
      (Service.ack order leaseID : ServiceM Storage LeaseLog Unit) :=
  preserves_read_bind fun _ => Service.ackScan_preserves leaseID _

theorem Service.reapExpired_preserves
    (order : List GoString) (now : Int) :
    Preserves Service.Tame
      (Service.reapExpired order now :
        ServiceM Storage LeaseLog (Nat × Option GoError)) :=
  preserves_read_bind fun _ => Service.reapScan_preserves now _ _ _

end ServiceOperations

/-- What clients and journals contribute to an event fits the wire. -/
def ServiceEvent.Tame : ServiceEvent LeaseLog → Prop
  | .enqueue opening _ newID payload =>
      opening.Tame ∧ (⟨newID, payload, 0⟩ : Task).Deliverable
  | .fetch opening _ _ _ _ => opening.Tame
  | _ => True

end Moxy
