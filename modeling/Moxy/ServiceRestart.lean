import Moxy.ServiceHost

/-!
# Moxy: open leases after a restart of the service

A service that has just been started owns no engines, and nothing but an enqueue
or a fetch creates one.  Until such a call names a queue, its journal is not even
opened: an acknowledgement of one of its leases is answered with "lease does not
exist", a reaping pass finds nothing to do, and the task of the lease stays in
processing under its fence.
-/

namespace Moxy

open Lib Lib.CrashM

/-- Opening the journal of a queue returns what survived in it. -/
def Service.Reopens (s : Service Storage LeaseLog) (queueName : GoString)
    (opening : Opening LeaseLog) : Prop :=
  ∃ journal,
    opening.journal = .ok (journal, journal.records) ∧
    LeaseLog.Survives (s.journals queueName).entries journal.entries

/-- Journals open with what survived in them, and services have journals. -/
def Host.Durable (h : Host Storage LeaseLog) : ServiceEvent LeaseLog → Prop
  | .enqueue opening queueName _ _ => h.service.Reopens queueName opening
  | .fetch opening queueName _ _ _ => h.service.Reopens queueName opening
  | .start config => config.journal = true
  | _ => True

/-- Hosts with journals over durable backends. -/
def durableHosts : Machine (Host Storage LeaseLog) (ServiceEvent LeaseLog) Reply where
  step := Host.step
  guard := Host.Durable

/--
The lease is open on the storage of a queue: its fetch record is durable, no
record closes it, and the backend holds the task under its fence.
-/
structure Service.LeaseOpen (queueName leaseID : GoString) (task : Task)
    (expiresAt : Int) (s : Service Storage LeaseLog) : Prop where
  fetched :
    ∃ createdAt,
      ⟨⟨.fetch, leaseID, task, createdAt, expiresAt⟩, true⟩ ∈
        (s.journals queueName).entries
  not_closed :
    ∀ entry ∈ (s.journals queueName).entries,
      entry.record.leaseID = leaseID → ¬ entry.record.op.Closes
  fenced :
    ∃ stored,
      (s.backends queueName).store.queue.processing.lookup task.id =
        some ⟨stored, leaseID⟩

/-- The event does not create the engine of the queue. -/
def ServiceEvent.LeavesAlone (q : GoString) : ServiceEvent LeaseLog → Prop
  | .enqueue _ queueName _ _ => q ≠ queueName
  | .fetch _ queueName _ _ _ => q ≠ queueName
  | _ => True

section Restart

variable {q : GoString}

theorem Service.LeaseOpen.of_storage
    {leaseID : GoString} {task : Task} {expiresAt : Int}
    {s s' : Service Storage LeaseLog}
    (h : s.LeaseOpen q leaseID task expiresAt)
    (hbackend : s'.backends q = s.backends q)
    (hjournal : s'.journals q = s.journals q) :
    s'.LeaseOpen q leaseID task expiresAt := by
  obtain ⟨hfetched, hnot, hfenced⟩ := h
  constructor
  · rw [hjournal]
    exact hfetched
  · rw [hjournal]
    exact hnot
  · rw [hbackend]
    exact hfenced

/-- The queue has no engine, and its storage is that of `s`. -/
structure Host.Asleep (q : GoString) (s : Service Storage LeaseLog)
    (h : Host Storage LeaseLog) : Prop where
  engine : h.service.engines.lookup q = none
  backend : h.service.backends q = s.backends q
  journal : h.service.journals q = s.journals q

/-- An operation that spares the queue leaves it asleep. -/
theorem Host.Asleep.ends
    {α : Type} {s : Service Storage LeaseLog} {h : Host Storage LeaseLog}
    {m : ServiceM Storage LeaseLog α}
    (hh : h.Asleep q s)
    (hm : Service.Spares q m h.service) :
    Host.Ends (Host.Asleep q s) h m := by
  have hawake : ∀ s', Service.SameAt q h.service s' →
      Host.Asleep q s (⟨s', true⟩ : Host Storage LeaseLog) :=
    fun s' hs' => ⟨hs'.engine.trans hh.engine, hs'.backend.trans hh.backend,
      hs'.journal.trans hh.journal⟩
  exact wp_mono hm (fun _ s' hs' => hawake s' hs') (fun _ s' hs' => hawake s' hs')
    (fun s' hs' => ⟨rfl, hs'.backend.trans hh.backend, hs'.journal.trans hh.journal⟩)

/-- No event wakes a queue that it does not name. -/
theorem Host.Asleep.step
    {s : Service Storage LeaseLog} {h : Host Storage LeaseLog}
    (hh : h.Asleep q s)
    {e : ServiceEvent LeaseLog}
    (he : e.LeavesAlone q) :
    (h.step e).2.Asleep q s := by
  refine Host.step_rule (P := Host.Asleep q s) e hh
    (fun _ _ => ⟨rfl, hh.backend, hh.journal⟩) ?_ ?_ ?_ ?_
  · rintro opening queueName newID payload rfl
    exact hh.ends (Service.enqueue_spares opening newID payload he)
  · rintro opening queueName leaseID now timeout rfl
    exact hh.ends (Service.fetch_spares opening leaseID now timeout he)
  · intro order leaseID _
    exact hh.ends (Service.ack_spares order leaseID hh.engine)
  · intro order now _
    exact hh.ends (Service.reapExpired_spares order now hh.engine)

/-- No run wakes a queue that it does not name. -/
theorem durableHosts_asleep
    {s : Service Storage LeaseLog} {h t : Host Storage LeaseLog}
    {es : List (ServiceEvent LeaseLog × Reply)}
    (hrun : durableHosts.Run h es t)
    (hes : ∀ er ∈ es, er.1.LeavesAlone q)
    (hh : h.Asleep q s) :
    t.Asleep q s :=
  hrun.keeps (P := Host.Asleep q s) (K := ServiceEvent.LeavesAlone q)
    (fun _ _ hu he _ => hu.step he) hes hh

end Restart

section New

variable (config : ServiceConfig) (backends : GoString → Storage)
  (journals : GoString → LeaseLog) (order : List GoString)

theorem Service.existingEngines_new :
    (Service.newWithConfig config backends journals).existingEngines order = [] := by
  rw [List.eq_nil_iff_forall_not_mem]
  intro queueName hmem
  exact (Service.mem_existingEngines order _).mp hmem rfl

/-- A service without engines knows no lease. -/
theorem Service.ack_new
    (leaseID : GoString) :
    Service.ack order leaseID (Service.newWithConfig config backends journals) =
      .error (.sentinel .errLeaseNotFound)
        (Service.newWithConfig config backends journals) := by
  show Service.ackScan leaseID _ _ = _
  rw [Service.existingEngines_new]
  rfl

/-- A service without engines reaps nothing. -/
theorem Service.reapExpired_new
    (now : Int) :
    Service.reapExpired order now (Service.newWithConfig config backends journals) =
      .ok (0, none) (Service.newWithConfig config backends journals) := by
  show Service.reapScan now _ _ _ _ = _
  rw [Service.existingEngines_new]
  rfl

end New

/-- The host after its process was stopped and a new service was started. -/
def Host.restarted (config : ServiceConfig) (h : Host Storage LeaseLog) :
    Host Storage LeaseLog :=
  (Host.step (.start config) (Host.step .stop h).2).2

section Leased

/-- A service with journals over empty storage. -/
def emptyHost : Host Storage LeaseLog :=
  ⟨Service.newWithConfig ⟨3, 0, [], true, 0⟩
    (fun _ => ⟨⟨MemoryQueue.new, []⟩, []⟩) (fun _ => ⟨[], []⟩), true⟩

def jobs : GoString :=
  goString "jobs"

def jobTask : Task :=
  ⟨goString "T", goString "p", 0⟩

/-- One task is enqueued and leased for a thousand nanoseconds. -/
def leasing : List (ServiceEvent LeaseLog) :=
  [.enqueue Opening.unused jobs (goString "T") (goString "p"),
    .fetch Opening.unused jobs (goString "L") 0 1000]

def leasedHost : Host Storage LeaseLog :=
  durableHosts.final emptyHost leasing

theorem leasedHost_run :
    durableHosts.Run emptyHost (durableHosts.trace emptyHost leasing) leasedHost := by
  have hjournal :
      (((durableHosts.step (.enqueue Opening.unused jobs (goString "T") (goString "p"))
        emptyHost).2.service.journals jobs).entries) = [] := by
    decide +kernel
  refine Machine.run_of_admits leasing emptyHost ⟨?_, ?_, trivial⟩
  · exact ⟨⟨[], []⟩, rfl, List.Sublist.refl _, rfl⟩
  · refine ⟨⟨[], []⟩, rfl, ?_⟩
    rw [hjournal]
    exact ⟨List.Sublist.refl _, rfl⟩

theorem leasedHost_open :
    leasedHost.service.LeaseOpen jobs (goString "L") jobTask 1000 := by
  have hjournal :
      (leasedHost.service.journals jobs).entries =
        [⟨⟨.fetch, goString "L", jobTask, 0, 1000⟩, true⟩] := by
    decide +kernel
  have hfenced :
      (leasedHost.service.backends jobs).store.queue.processing.lookup jobTask.id =
        some ⟨jobTask, goString "L"⟩ := by
    decide +kernel
  refine ⟨⟨0, by rw [hjournal]; exact List.mem_singleton_self _⟩, ?_, jobTask, hfenced⟩
  intro entry hentry _
  rw [hjournal, List.mem_singleton] at hentry
  subst hentry
  exact id

end Leased

/--
Take any host, and any lease that is open when its process stops.  The first
acknowledgement on the new service answers that the lease does not exist, the
first reaping pass finds nothing, whatever the time is, and neither changes
anything.  The lease stays as it is in every run of the new service until an
enqueue or a fetch names its queue.
-/
theorem open_lease_unknown_after_restart
    {h : Host Storage LeaseLog} {q leaseID : GoString} {task : Task} {expiresAt : Int}
    (config : ServiceConfig)
    (hopen : h.service.LeaseOpen q leaseID task expiresAt) :
    (∀ order,
      Service.ack order leaseID (h.restarted config).service =
        .error (.sentinel .errLeaseNotFound) (h.restarted config).service) ∧
    (∀ order now,
      Service.reapExpired order now (h.restarted config).service =
        .ok (0, none) (h.restarted config).service) ∧
    (∀ es t,
      durableHosts.Run (h.restarted config) es t →
      (∀ er ∈ es, er.1.LeavesAlone q) →
      t.service.LeaseOpen q leaseID task expiresAt) := by
  refine ⟨fun order => Service.ack_new _ _ _ order leaseID,
    fun order now => Service.reapExpired_new _ _ _ order now, ?_⟩
  intro es t hrun hes
  have hasleep : (h.restarted config).Asleep q h.service := ⟨rfl, rfl, rfl⟩
  obtain ⟨_, hbackend, hjournal⟩ := durableHosts_asleep hrun hes hasleep
  exact hopen.of_storage hbackend hjournal

/-- The leased task is neither completed nor moved by the first calls. -/
theorem open_lease_unknown_after_restart_leased :
    (Service.ack [] (goString "L") (leasedHost.restarted ⟨3, 0, [], true, 0⟩).service =
      .error (.sentinel .errLeaseNotFound)
        (leasedHost.restarted ⟨3, 0, [], true, 0⟩).service) ∧
    (Service.reapExpired [] 1000 (leasedHost.restarted ⟨3, 0, [], true, 0⟩).service =
      .ok (0, none) (leasedHost.restarted ⟨3, 0, [], true, 0⟩).service) := by
  obtain ⟨hack, hreap, _⟩ :=
    open_lease_unknown_after_restart ⟨3, 0, [], true, 0⟩ leasedHost_open
  exact ⟨hack [], hreap [] 1000⟩

/-- A run with one open lease, a restart, and the first calls on the new service. -/
theorem open_lease_lost_by_first_calls :
    durableHosts.Run emptyHost (durableHosts.trace emptyHost leasing) leasedHost ∧
    leasedHost.service.LeaseOpen jobs (goString "L") jobTask 1000 ∧
    (durableHosts.step (.ack [] (goString "L"))
      (leasedHost.restarted ⟨3, 0, [], true, 0⟩)).1 =
        .failed (.sentinel .errLeaseNotFound) ∧
    (durableHosts.step (.reap [] 1000)
      (leasedHost.restarted ⟨3, 0, [], true, 0⟩)).1 = .reaped 0 none ∧
    ((durableHosts.step (.reap [] 1000)
      (leasedHost.restarted ⟨3, 0, [], true, 0⟩)).2.service.backends
        jobs).store.queue.processing.lookup jobTask.id =
          some ⟨jobTask, goString "L"⟩ := by
  refine ⟨leasedHost_run, leasedHost_open, ?_, ?_, ?_⟩
  · decide +kernel
  · decide +kernel
  · decide +kernel

end Moxy
