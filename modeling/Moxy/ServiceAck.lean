import Moxy.ServiceHost

/-!
# Moxy: acknowledgements across queues

An acknowledgement names a lease but no queue, so the service asks its engines
one after the other, in an order that the language leaves open, until one of them
does not answer "lease does not exist".

An engine whose recovery failed answers with its recovery error, whatever lease
it is asked for, and that ends the scan.  Hence the result is that of the engine
which holds the lease, in every order, exactly if no recovery has failed; and for
a lease that no engine holds, all orders give one result exactly if all failed
recoveries have the same error.
-/

namespace Moxy

open Lib Lib.CrashM

/-- Errors that are not put together from others. -/
def GoError.Plain : GoError → Prop
  | .sentinel _ => True
  | .text _ => True
  | _ => False

/-- A failed recovery is reported together with the foreign error that caused it. -/
def FailedByText (recoveryErr : Option GoError) : Prop :=
  ∀ err, recoveryErr = some err →
    ∃ message, err = .join (.sentinel .errRecoveryIncomplete) (.text message)

theorem failedByText_none : FailedByText none := by
  intro err h
  cases h

section EngineErrors

theorem Store.complete_plain
    {taskID leaseID : GoString} {store : Store} {err : GoError}
    (h : (Store.complete taskID leaseID store).1 = .error err) :
    err.Plain := by
  unfold Store.complete Store.logging MemoryQueue.complete MemoryQueue.fenced at h
  cases hl : store.queue.processing.lookup taskID with
  | none =>
      simp only [hl] at h
      cases h
      trivial
  | some entry =>
      simp only [hl] at h
      split_ifs at h
      cases h
      trivial

/-- Completing a task reports plain errors. -/
theorem complete_plain
    (taskID leaseID : GoString) (b : Storage) :
    wp (Backend.complete taskID leaseID : CrashM GoError Storage Unit)
      (fun _ _ => True) (fun err _ => err.Plain) (fun _ => True) b :=
  Storage.wp_call (Storage.within_true b.script)
    (fun _ _ _ _ _ => trivial)
    (fun _ _ _ _ h => Store.complete_plain h)
    (fun _ _ _ _ => trivial) (fun _ _ _ _ _ => trivial)
    (fun _ _ => trivial) (fun _ _ _ => trivial)

/-- The journal refuses a record with a foreign error, and keeps the engine. -/
theorem record_foreign
    (entry : Record) (w : World Storage LeaseLog) :
    wp (record entry) (fun _ w' => w'.engine = w.engine)
      (fun err w' => (∃ message, err = .text message) ∧ w'.engine = w.engine)
      (fun _ => True) w := by
  rw [wp_record]
  split_ifs
  · exact LeaseLog.wp_append (fun _ => rfl) (fun _ message => ⟨⟨message, rfl⟩, rfl⟩)
      (fun _ => trivial) (fun _ _ => trivial)
  · exact rfl

/--
What an acknowledgement can report: the recovery error, or else that the lease
does not exist, or an error of the backend or the journal.
-/
theorem ack_errors
    {E : GoError → Prop} (leaseID : GoString) {w : World Storage LeaseLog}
    (hfailed : ∀ err, w.engine.recoveryErr = some err → E err)
    (hmissing : w.engine.recoveryErr = none → E (.sentinel .errLeaseNotFound))
    (hcomplete : w.engine.recoveryErr = none → ∀ taskID fence,
      wp (Backend.complete taskID fence : CrashM GoError Storage Unit)
        (fun _ _ => True) (fun err _ => E err) (fun _ => True) w.backend)
    (hrecord : w.engine.recoveryErr = none → ∀ entry b,
      wp (record entry) (fun _ _ => True) (fun err _ => E err) (fun _ => True)
        (⟨w.engine, b, w.journal⟩ : World Storage LeaseLog)) :
    wp (ack leaseID) (fun _ _ => w.engine.recoveryErr = none) (fun err _ => E err)
      (fun _ => True) w := by
  unfold ack
  rw [wp_bind, wp_ensureRecovered]
  cases hrec : w.engine.recoveryErr with
  | some err =>
      exact hfailed err hrec
  | none =>
      dsimp only
      rw [wp_bind, wp_read]
      cases w.engine.leases.lookup leaseID with
      | none =>
          exact hmissing hrec
      | some lease =>
          dsimp only
          rw [wp_bind, wp_attempt, wp_onBackend]
          refine wp_mono (hcomplete hrec _ _) ?_ ?_ (fun _ _ => trivial)
          · intro _ b _
            rw [wp_bind]
            exact wp_mono (hrecord hrec _ b) (fun _ _ _ => rfl) (fun _ _ h => h)
              (fun _ _ => trivial)
          · intro err b herr
            dsimp only
            split_ifs
            · rw [wp_bind]
              exact wp_mono (hrecord hrec _ b) (fun _ _ _ => hmissing hrec)
                (fun _ _ h => h) (fun _ _ => trivial)
            · exact herr

/-- An engine that has recovered answers an acknowledgement with plain errors. -/
theorem ack_plain
    (leaseID : GoString) {w : World Storage LeaseLog}
    (hrec : w.engine.recoveryErr = none) :
    wp (ack leaseID) (fun _ _ => True) (fun err _ => err.Plain) (fun _ => True) w := by
  have hack := ack_errors (E := GoError.Plain) leaseID (w := w) ?_ (fun _ => trivial)
    (fun _ _ _ => complete_plain _ _ _) ?_
  · exact wp_mono hack (fun _ _ _ => trivial) (fun _ _ h => h) (fun _ h => h)
  · intro err herr
    rw [hrec] at herr
    cases herr
  · intro _ entry b
    refine wp_mono (record_foreign entry _) (fun _ _ _ => trivial) ?_ (fun _ _ => trivial)
    rintro _ _ ⟨⟨message, rfl⟩, _⟩
    trivial

theorem recordStale_foreign
    (matchedIDs : Finset GoString) (leaseIDs : List GoString)
    (w : World Storage LeaseLog) :
    wp (recordStale matchedIDs leaseIDs) (fun _ w' => w'.engine = w.engine)
      (fun err w' => (∃ message, err = .text message) ∧ w'.engine = w.engine)
      (fun _ => True) w := by
  refine wp_recordStale (I := fun _ w' => w'.engine = w.engine) ?_ rfl
  intro _ leaseID w' _ _ hengine
  rw [← hengine]
  exact record_foreign _ w'

/-- A recovery fails only through a foreign error. -/
theorem newEngine_failedByText
    (config : EngineConfig) (orders : RestoreOrders) (recovered : List Record)
    (w : World Storage LeaseLog) :
    System.Ends (fun w' => FailedByText w'.engine.recoveryErr)
      (newEngine config orders recovered) w := by
  have hfail : ∀ message,
      FailedByText (some (.join (.sentinel .errRecoveryIncomplete) (.text message))) := by
    intro message err herr
    cases herr
    exact ⟨message, rfl⟩
  unfold System.Ends newEngine
  rw [wp_bind, wp_onEngine]
  unfold restore
  rw [wp_bind, wp_attempt, wp_onBackend]
  refine Storage.wp_call (Storage.within_true w.backend.script) ?_ ?_ ?_ ?_
    (fun _ _ => trivial) (fun _ _ _ => trivial)
  · intro env script result _ _
    rw [wp_bind, wp_attempt]
    refine wp_mono (recordStale_foreign _ _ _) ?_ ?_ (fun _ _ => trivial)
    · intro _ w' hw'
      rw [wp_onEngine]
      dsimp only
      rw [(publishMatched_config _ _ _).2, hw']
      exact failedByText_none
    · rintro _ w' ⟨⟨message, rfl⟩, _⟩
      exact hfail message
  · -- The reconciliation itself always succeeds.
    intro env script err _ h
    cases h
  · intro script message _ _
    exact hfail message
  · intro env script message _ _
    exact hfail message

end EngineErrors

/-- What holds of every engine of a service between operations. -/
def World.Accountable (w : World Storage LeaseLog) : Prop :=
  w.engine.Covered ∧ FailedByText w.engine.recoveryErr

theorem accountable_kept : System.Kept World.Accountable :=
  covered_kept (fun _ err => FailedByText err)

theorem accountable_established : Service.Established World.Accountable := by
  intro config orders recovered w
  refine wp_mono
    (wp_and (newEngine_covered config orders recovered)
      (newEngine_failedByText config orders recovered w))
    ?_ ?_ (fun _ _ => trivial)
  · rintro _ w' ⟨⟨hcovered, _⟩, hfailed⟩
    exact ⟨hcovered, hfailed⟩
  · rintro _ w' ⟨⟨hcovered, _⟩, hfailed⟩
    exact ⟨hcovered, hfailed⟩

/-- Every engine of every reachable host is accountable. -/
theorem reachable_accountable
    {h t : Host Storage LeaseLog} {es : List (ServiceEvent LeaseLog × Reply)}
    (hrun : Host.machine.Run h es t)
    (hh : h.service.engines = ∅) :
    t.service.Each World.Accountable :=
  Host.run_each accountable_kept accountable_established hrun hh

namespace Service

variable {s : Service Storage LeaseLog} {q leaseID : GoString} {engine : Engine}

/-- The engine of the queue holds the lease. -/
def Holds (s : Service Storage LeaseLog) (q leaseID : GoString) : Prop :=
  ∃ engine, s.engines.lookup q = some engine ∧ engine.leases.lookup leaseID ≠ none

/-- The recovery error of a queue, if its engine exists and its recovery failed. -/
def failure (s : Service Storage LeaseLog) (q : GoString) : Option GoError :=
  (s.engines.lookup q).bind Engine.recoveryErr

/-- The queue has an engine, which does not hold the lease. -/
def Passive (s : Service Storage LeaseLog) (leaseID q : GoString) : Prop :=
  ∃ engine, s.engines.lookup q = some engine ∧ engine.leases.lookup leaseID = none

/-- An engine without the lease answers and changes nothing. -/
theorem onQueue_ack_passive
    (hpassive : s.Passive leaseID q) :
    onQueue q (Moxy.ack leaseID) s =
      .error ((s.failure q).getD (.sentinel .errLeaseNotFound)) s := by
  obtain ⟨engine, hengine, hnone⟩ := hpassive
  have hworld : s.world q = ⟨engine, s.backends q, s.journals q⟩ := by
    simp [world, hengine]
  have hback : s.putBack q ⟨engine, s.backends q, s.journals q⟩ = s := by
    simp [putBack, Map.replace_self hengine]
  have hack :
      Moxy.ack leaseID (⟨engine, s.backends q, s.journals q⟩ : World Storage LeaseLog) =
        .error (engine.recoveryErr.getD (.sentinel .errLeaseNotFound))
          ⟨engine, s.backends q, s.journals q⟩ := by
    apply eq_error_of_wp
    unfold Moxy.ack
    rw [wp_bind, wp_ensureRecovered]
    cases hrec : engine.recoveryErr with
    | some err =>
        exact ⟨rfl, rfl⟩
    | none =>
        dsimp only
        rw [wp_bind, wp_read]
        simp only [hnone]
        exact ⟨rfl, rfl⟩
  unfold onQueue zoom
  rw [hworld, hack]
  simp [hback, failure, hengine]

/-- One turn of the scan. -/
theorem ackScan_cons
    (rest : List GoString) :
    ackScan leaseID (q :: rest) s =
      match onQueue q (Moxy.ack leaseID) s with
      | .ok _ s' => .ok () s'
      | .error err s' =>
          if err.is .errLeaseNotFound then ackScan leaseID rest s' else .error err s'
      | .crashed s' => .crashed s' := by
  show andThen (attempt (onQueue q (Moxy.ack leaseID))) _ s = _
  unfold andThen attempt
  cases onQueue q (Moxy.ack leaseID) s with
  | ok a s' =>
      rfl
  | error err s' =>
      dsimp only
      split_ifs <;> rfl
  | crashed s' =>
      rfl

theorem failure_not_notFound
    (heach : s.Each World.Accountable)
    {err : GoError}
    (h : s.failure q = some err) :
    err.is .errLeaseNotFound = false ∧ ¬ err.Plain := by
  obtain ⟨engine, hengine, hrec⟩ := Option.bind_eq_some_iff.mp h
  obtain ⟨message, rfl⟩ := (heach q engine hengine).2 err hrec
  exact ⟨by simp, id⟩

/-- A scan over engines without the lease ends at the first failed recovery. -/
theorem ackScan_passive :
    ∀ queues : List GoString,
      (∀ q ∈ queues, s.Passive leaseID q) →
      (∀ q ∈ queues, ∀ err, s.failure q = some err →
        err.is .errLeaseNotFound = false) →
      ackScan leaseID queues s =
        .error ((queues.findSome? s.failure).getD (.sentinel .errLeaseNotFound)) s := by
  intro queues
  induction queues with
  | nil =>
      intro _ _
      rfl
  | cons q rest ih =>
      intro h hfail
      rw [ackScan_cons, onQueue_ack_passive (h q (by simp))]
      cases hf : s.failure q with
      | none =>
          have hrest := ih
            (fun q' hq' => h q' (List.mem_cons_of_mem q hq'))
            (fun q' hq' => hfail q' (List.mem_cons_of_mem q hq'))
          simpa [hf] using hrest
      | some err =>
          simp [hf, hfail q (by simp) err hf]

theorem not_holds_iff_passive
    (hengine : s.engines.lookup q ≠ none) :
    ¬ s.Holds q leaseID ↔ s.Passive leaseID q := by
  obtain ⟨engine, h⟩ := Option.ne_none_iff_exists'.mp hengine
  simp [Holds, Passive, h]

/-- The engine that holds a lease has recovered. -/
theorem Holds.failure_eq_none
    (heach : s.Each World.Accountable)
    (hholds : s.Holds q leaseID) :
    s.failure q = none := by
  obtain ⟨engine, hengine, hlease⟩ := hholds
  simp only [failure, hengine, Option.bind_some]
  by_contra hrec
  exact hlease ((heach q engine hengine).1.failed_empty hrec leaseID)

/-- The engine that holds a lease answers with plain errors. -/
theorem Holds.ack_error_plain
    (heach : s.Each World.Accountable)
    (hholds : s.Holds q leaseID)
    {err : GoError} {s' : Service Storage LeaseLog}
    (h : onQueue q (Moxy.ack leaseID) s = .error err s') :
    err.Plain := by
  have hnone := hholds.failure_eq_none heach
  obtain ⟨engine, hengine, _⟩ := hholds
  have hrec : (s.world q).engine.recoveryErr = none := by
    simpa [failure, world, hengine] using hnone
  have hplain : wp (onQueue q (Moxy.ack leaseID)) (fun _ _ => True)
      (fun err _ => err.Plain) (fun _ => True) s := by
    rw [wp_onQueue]
    exact ack_plain leaseID hrec
  have hresult := wp_of_error hplain h
  exact hresult

theorem onQueue_sameAt
    {α : Type} (m : EngineM Storage LeaseLog α) {q' : GoString}
    (h : q' ≠ q) :
    SameAt q' s (onQueue q m s).state :=
  wp_state (onQueue_spares m h)

/-- Engines that neither hold the lease nor failed to recover do not find it. -/
theorem ackScan_notFound
    {s' : Service Storage LeaseLog} {queues : List GoString}
    (hrecovered : ∀ q', s.failure q' = none)
    (hpassive : ∀ q' ∈ queues, s.Passive leaseID q')
    (hsame : ∀ q' ∈ queues, SameAt q' s s') :
    ackScan leaseID queues s' = .error (.sentinel .errLeaseNotFound) s' := by
  have hfailure : ∀ q' ∈ queues, s'.failure q' = none := by
    intro q' hq'
    have hkept := hrecovered q'
    unfold failure at hkept ⊢
    rwa [(hsame q' hq').engine]
  rw [ackScan_passive queues ?_ ?_, List.findSome?_eq_none_iff.mpr hfailure]
  · rfl
  · intro q' hq'
    obtain ⟨engine, hengine, hnone⟩ := hpassive q' hq'
    exact ⟨engine, (hsame q' hq').engine.trans hengine, hnone⟩
  · intro q' hq' e he
    rw [hfailure q' hq'] at he
    cases he

/-- Without failed recoveries the scan gives what the holder of the lease gives. -/
theorem ackScan_holder
    (heach : s.Each World.Accountable)
    (hholds : s.Holds q leaseID)
    (hrecovered : ∀ q', s.failure q' = none) :
    ∀ queues : List GoString,
      queues.Nodup → q ∈ queues →
      (∀ q' ∈ queues, q' ≠ q → s.Passive leaseID q') →
      ackScan leaseID queues s = onQueue q (Moxy.ack leaseID) s := by
  intro queues
  induction queues with
  | nil =>
      intro _ hq _
      simp at hq
  | cons first rest ih =>
      intro hnodup hq hpassive
      obtain ⟨hfirst, hrest⟩ := List.nodup_cons.mp hnodup
      rw [ackScan_cons]
      by_cases heq : first = q
      · subst heq
        have hplain := @Holds.ack_error_plain s first leaseID heach hholds
        have hsame : ∀ q' ∈ rest,
            SameAt q' s (onQueue first (Moxy.ack leaseID) s).state :=
          fun q' hq' => onQueue_sameAt _ (fun h => hfirst (h ▸ hq'))
        cases hend : onQueue first (Moxy.ack leaseID) s with
        | ok _ s' =>
            rfl
        | crashed s' =>
            rfl
        | error err s' =>
            rw [hend] at hsame
            change ∀ q' ∈ rest, SameAt q' s s' at hsame
            dsimp only
            split_ifs with hnotFound
            · -- The holder gave the lease up as stale; nobody else knows it.
              have herr : err = .sentinel .errLeaseNotFound := by
                have herrPlain := hplain hend
                cases err with
                | sentinel t => simpa using hnotFound
                | text m => simp at hnotFound
                | wrap before e after => exact herrPlain.elim
                | join e₁ e₂ => exact herrPlain.elim
              rw [herr]
              exact ackScan_notFound hrecovered
                (fun q' hq' => hpassive q' (List.mem_cons_of_mem _ hq')
                  (fun h => hfirst (h ▸ hq'))) hsame
            · rfl
      · have hq' : q ∈ rest := by
          rcases List.mem_cons.mp hq with h | h
          · exact absurd h.symm heq
          · exact h
        have hrec := ih hrest hq'
          (fun q' h => hpassive q' (List.mem_cons_of_mem _ h))
        rw [onQueue_ack_passive (hpassive first (by simp) heq), hrecovered first]
        simpa using hrec

/--
An acknowledgement gives what the engine that holds the lease gives and touches
no other queue, in every order; if no engine holds the lease, it changes nothing
and gives the same in every order.
-/
def AckIndependent (s : Service Storage LeaseLog) (leaseID : GoString) : Prop :=
  (∀ q, s.Holds q leaseID → ∀ order,
    ack order leaseID s = onQueue q (Moxy.ack leaseID) s ∧
    ∀ q', q' ≠ q → SameAt q' s (ack order leaseID s).state) ∧
  ((∀ q, ¬ s.Holds q leaseID) → ∀ order order',
    ack order leaseID s = ack order' leaseID s ∧
    (ack order leaseID s).state = s)

/--
If an engine holds the lease, no recovery has failed; otherwise all recoveries
that failed did so with one error.
-/
def RecoveriesAgree (s : Service Storage LeaseLog) (leaseID : GoString) : Prop :=
  (∀ q, s.Holds q leaseID → ∀ q', s.failure q' = none) ∧
  ((∀ q, ¬ s.Holds q leaseID) → ∀ q q' err err',
    s.failure q = some err → s.failure q' = some err' → err = err')

theorem existingEngines_nodup
    (order : List GoString) (s : Service Storage LeaseLog) :
    (s.existingEngines order).Nodup :=
  Map.range_keys_nodup order s.engines

theorem exists_of_failure
    {err : GoError}
    (h : s.failure q = some err) :
    s.engines.lookup q ≠ none := by
  intro hnone
  simp [failure, hnone] at h

/-- A failed recovery can be the first answer to an acknowledgement. -/
theorem ack_failure_first
    (heach : s.Each World.Accountable)
    (hpassive : s.Passive leaseID q)
    {err : GoError}
    (h : s.failure q = some err) :
    ack [q] leaseID s = .error err s := by
  obtain ⟨engine, hengine, hnone⟩ := hpassive
  obtain ⟨rest, hrange⟩ := Map.range_first hengine
  show ackScan leaseID (s.existingEngines [q]) s = _
  rw [existingEngines, hrange, List.map_cons, ackScan_cons,
    onQueue_ack_passive ⟨engine, hengine, hnone⟩, h]
  simp [(failure_not_notFound heach h).1]

/-- A lease that no engine holds: the answer is the first failed recovery. -/
theorem ack_unheld
    (heach : s.Each World.Accountable)
    (hnone : ∀ q, ¬ s.Holds q leaseID)
    (order : List GoString) :
    ack order leaseID s =
      .error (((s.existingEngines order).findSome? s.failure).getD
        (.sentinel .errLeaseNotFound)) s := by
  refine ackScan_passive _ ?_ ?_
  · intro q hq
    exact (not_holds_iff_passive ((mem_existingEngines order s).mp hq)).mp (hnone q)
  · intro q _ err herr
    exact (failure_not_notFound heach herr).1

/-- If failed recoveries agree, their first one does not depend on the order. -/
theorem first_failure_eq
    (hagree : ∀ q q' err err',
      s.failure q = some err → s.failure q' = some err' → err = err')
    (order order' : List GoString) :
    (s.existingEngines order).findSome? s.failure =
      (s.existingEngines order').findSome? s.failure := by
  cases h : (s.existingEngines order).findSome? s.failure with
  | none =>
      rw [List.findSome?_eq_none_iff] at h
      symm
      rw [List.findSome?_eq_none_iff]
      intro q hq
      exact h q ((mem_existingEngines order s).mpr ((mem_existingEngines order' s).mp hq))
  | some err =>
      obtain ⟨q, hq, herr⟩ := List.exists_of_findSome?_eq_some h
      cases h' : (s.existingEngines order').findSome? s.failure with
      | none =>
          rw [List.findSome?_eq_none_iff] at h'
          have hq' := (mem_existingEngines order' s).mpr (exists_of_failure herr)
          rw [h' q hq'] at herr
          cases herr
      | some err' =>
          obtain ⟨q', _, herr'⟩ := List.exists_of_findSome?_eq_some h'
          rw [hagree q q' err err' herr herr']

end Service

section Blocked

def queueA : GoString :=
  goString "a"

def queueB : GoString :=
  goString "b"

def leaseL : GoString :=
  goString "L"

/-- Empty storage; the first call on the backend of the queue `a` fails. -/
def refusingHost : Host Storage LeaseLog :=
  ⟨Service.newWithConfig ⟨3, 0, [], true, 0⟩
    (fun q => ⟨⟨MemoryQueue.new, []⟩,
      if q = queueA then [⟨.fails (goString "connection refused"), 0, []⟩] else []⟩)
    (fun _ => ⟨[], []⟩), true⟩

/-- A task of the queue `b` is leased; then the recovery of the queue `a` fails. -/
def blocking : List (ServiceEvent LeaseLog) :=
  [.enqueue Opening.unused queueB (goString "T") (goString "p"),
    .fetch Opening.unused queueB leaseL 0 1000,
    .enqueue Opening.unused queueA (goString "U") (goString "p")]

def blockedHost : Host Storage LeaseLog :=
  Host.machine.final refusingHost blocking

theorem blockedHost_run :
    Host.machine.Run refusingHost (Host.machine.trace refusingHost blocking) blockedHost :=
  Machine.run_of_admits blocking refusingHost ⟨trivial, trivial, trivial, trivial⟩

theorem blockedHost_holds_b : blockedHost.service.Holds queueB leaseL := by
  have hlease :
      ((blockedHost.service.engines.lookup queueB).bind
        (fun engine => engine.leases.lookup leaseL)).isSome = true := by
    decide +kernel
  cases hengine : blockedHost.service.engines.lookup queueB with
  | none =>
      simp [hengine] at hlease
  | some engine =>
      refine ⟨engine, hengine, fun hnone => ?_⟩
      simp [hengine, hnone] at hlease

theorem blockedHost_holds
    {q : GoString}
    (h : blockedHost.service.Holds q leaseL) :
    q = queueB := by
  have hqueues : blockedHost.service.existingEngines [] = [queueA, queueB] := by
    decide +kernel
  have hfree :
      (blockedHost.service.engines.lookup queueA).bind
        (fun engine => engine.leases.lookup leaseL) = none := by
    decide +kernel
  obtain ⟨engine, hengine, hlease⟩ := h
  have hq : q ∈ blockedHost.service.existingEngines [] :=
    (Service.mem_existingEngines [] _).mpr (by simp [hengine])
  rw [hqueues] at hq
  rcases List.mem_pair.mp hq with rfl | rfl
  · rw [hengine] at hfree
    exact absurd hfree hlease
  · rfl

end Blocked

/--
In every reachable state, for a lease ID that at most one engine holds:
acknowledgements are independent of the other queues and of the scan order
exactly if the failed recoveries agree.
-/
theorem ack_independent_iff_recoveries_agree
    {h t : Host Storage LeaseLog} {es : List (ServiceEvent LeaseLog × Reply)}
    {leaseID : GoString}
    (hrun : Host.machine.Run h es t)
    (hh : h.service.engines = ∅)
    (hunique : ∀ q q',
      t.service.Holds q leaseID → t.service.Holds q' leaseID → q = q') :
    t.service.AckIndependent leaseID ↔ t.service.RecoveriesAgree leaseID := by
  have heach := reachable_accountable hrun hh
  have hothers : ∀ q, t.service.Holds q leaseID → ∀ q', q' ≠ q →
      t.service.engines.lookup q' ≠ none → t.service.Passive leaseID q' := by
    intro q hq q' hne hengine
    exact (Service.not_holds_iff_passive hengine).mp (fun hq' => hne (hunique q' q hq' hq))
  constructor
  · rintro ⟨hheld, hunheld⟩
    refine ⟨?_, ?_⟩
    · intro q hq q'
      by_contra hfailed
      obtain ⟨err, herr⟩ := Option.ne_none_iff_exists'.mp hfailed
      have hne : q' ≠ q := by
        rintro rfl
        exact hfailed (hq.failure_eq_none heach)
      -- Visited first, the failed recovery answers in place of the holder.
      have hpassive := hothers q hq q' hne (Service.exists_of_failure herr)
      have hown := (hheld q hq [q']).1
      rw [Service.ack_failure_first heach hpassive herr] at hown
      exact (Service.failure_not_notFound heach herr).2
        (hq.ack_error_plain heach hown.symm)
    · intro hnone q q' err err' herr herr'
      have hpassive : ∀ p e, t.service.failure p = some e →
          t.service.Passive leaseID p := fun p e he =>
        (Service.not_holds_iff_passive (Service.exists_of_failure he)).mp (hnone p)
      have heq := (hunheld hnone [q] [q']).1
      rw [Service.ack_failure_first heach (hpassive q err herr) herr,
        Service.ack_failure_first heach (hpassive q' err' herr') herr'] at heq
      cases heq
      rfl
  · rintro ⟨hheld, hunheld⟩
    refine ⟨?_, ?_⟩
    · intro q hq order
      have hengine : t.service.engines.lookup q ≠ none := by
        obtain ⟨engine, hengine, _⟩ := hq
        simp [hengine]
      have heq : Service.ack order leaseID t.service =
          Service.onQueue q (ack leaseID) t.service :=
        Service.ackScan_holder heach hq (hheld q hq) _
          (Service.existingEngines_nodup order t.service)
          ((Service.mem_existingEngines order _).mpr hengine)
          (fun q' hq' hne =>
            hothers q hq q' hne ((Service.mem_existingEngines order _).mp hq'))
      refine ⟨heq, fun q' hne => ?_⟩
      rw [heq]
      exact Service.onQueue_sameAt _ hne
    · intro hnone order order'
      rw [Service.ack_unheld heach hnone order, Service.ack_unheld heach hnone order',
        Service.first_failure_eq (hunheld hnone) order order']
      exact ⟨rfl, rfl⟩

theorem ack_independent_iff_recoveries_agree_blocked :
    blockedHost.service.AckIndependent leaseL ↔
      blockedHost.service.RecoveriesAgree leaseL :=
  ack_independent_iff_recoveries_agree blockedHost_run rfl
    (fun _ _ hq hq' => (blockedHost_holds hq).trans (blockedHost_holds hq').symm)

/--
The lease is active in the queue `b` alone, whose own acknowledgement returns, but
a scan that meets the queue `a` first reports the failed recovery of `a`.
-/
theorem ack_blocked_by_failed_recovery :
    Host.machine.Run refusingHost (Host.machine.trace refusingHost blocking)
      blockedHost ∧
    blockedHost.service.Holds queueB leaseL ∧
    (blockedHost.exec (Service.ack [queueA] leaseL) (fun _ => .acked)).1 =
      .failed (.join (.sentinel .errRecoveryIncomplete)
        (.text (goString "connection refused"))) ∧
    (blockedHost.exec (Service.onQueue queueB (ack leaseL)) (fun _ => .acked)).1 =
      .acked ∧
    ¬ blockedHost.service.AckIndependent leaseL := by
  have hscan :
      (blockedHost.exec (Service.ack [queueA] leaseL) (fun _ => .acked)).1 =
        .failed (.join (.sentinel .errRecoveryIncomplete)
          (.text (goString "connection refused"))) := by
    decide +kernel
  have hown :
      (blockedHost.exec (Service.onQueue queueB (ack leaseL)) (fun _ => .acked)).1 =
        .acked := by
    decide +kernel
  refine ⟨blockedHost_run, blockedHost_holds_b, hscan, hown, ?_⟩
  intro hindependent
  have heq := (hindependent.1 queueB blockedHost_holds_b [queueA]).1
  unfold Host.exec at hscan hown
  rw [heq] at hscan
  rw [hscan] at hown
  cases hown

end Moxy
