import Moxy.LeaseAgreement

/-!
# Moxy: the visibility timeout is exclusive across restarts

`Held lease` is the joint invariant of a lease that has been returned to a worker
and has neither been acknowledged nor come due.  The store keeps its task under
its fence, the journal holds exactly one record about it, the acknowledged fetch
record, and the process knows it in whatever phase the process is.  A restart may
drop unacknowledged records, but there are none about this lease.
-/

namespace Moxy

open Lib Lib.CrashM

/-- The journal entries about one lease. -/
def entriesOf (leaseID : GoString) (entries : List JournalEntry) :
    List JournalEntry :=
  entries.filter (fun entry => entry.record.leaseID = leaseID)

/-- The process knows the lease. -/
def Phase.Keeps (lease : Lease) : Phase → Prop
  | .down => True
  | .recovering opened =>
      opened.lookup lease.leaseID = some lease.fetchRecord
  | .serving leases => leases.lookup lease.leaseID = some lease
  | .leasing leases claim =>
      leases.lookup lease.leaseID = some lease ∧ claim.leaseID ≠ lease.leaseID

/-- A lease that a worker holds. -/
structure Held (lease : Lease) (c : Custody) : Prop where
  consistent : c.Consistent
  fenced : c.store.queue.processing.lookup lease.task.id =
    some ⟨lease.task, lease.leaseID⟩
  recorded : entriesOf lease.leaseID c.entries = [⟨lease.fetchRecord, true⟩]
  kept : c.phase.Keeps lease

/-- The events that leave a held lease alone. -/
def Event.Spares (lease : Lease) (e : Event LeaseLog) : Prop :=
  e ≠ .ack lease.leaseID ∧ ∀ now, e = .reap now → now < lease.expiresAt

section Journal

theorem entriesOf_append_ne
    {leaseID : GoString} {entries : List JournalEntry} {entry : JournalEntry}
    (h : entry.record.leaseID ≠ leaseID) :
    entriesOf leaseID (entries ++ [entry]) = entriesOf leaseID entries := by
  simp [entriesOf, h]

theorem entriesOf_eq_nil
    {leaseID : GoString} {entries : List JournalEntry} {issued : List GoString}
    (hnoted : ∀ entry ∈ entries, entry.record.leaseID ∈ issued)
    (hfresh : leaseID ∉ issued) :
    entriesOf leaseID entries = [] := by
  unfold entriesOf
  rw [List.filter_eq_nil_iff]
  intro entry hmem hid
  have hsame : entry.record.leaseID = leaseID := of_decide_eq_true hid
  exact hfresh (hsame ▸ hnoted entry hmem)

/-- A restart keeps a lease whose only record is acknowledged. -/
theorem entriesOf_survives
    {leaseID : GoString} {before after : List JournalEntry} {r : Record}
    (hsurvives : LeaseLog.Survives before after)
    (h : entriesOf leaseID before = [⟨r, true⟩]) :
    entriesOf leaseID after = [⟨r, true⟩] := by
  have hbefore : (⟨r, true⟩ : JournalEntry) ∈ entriesOf leaseID before := by
    simp [h]
  obtain ⟨hmem, hid⟩ := List.mem_filter.mp hbefore
  have hacked : (⟨r, true⟩ : JournalEntry) ∈ after.filter JournalEntry.acked := by
    rw [hsurvives.2]
    exact List.mem_filter.mpr ⟨hmem, rfl⟩
  have hafter : (⟨r, true⟩ : JournalEntry) ∈ entriesOf leaseID after :=
    List.mem_filter.mpr ⟨(List.mem_filter.mp hacked).1, hid⟩
  have hsub : (entriesOf leaseID after).Sublist [⟨r, true⟩] := by
    rw [← h]
    exact hsurvives.1.filter _
  rcases List.sublist_singleton.mp hsub with hnil | hone
  · rw [hnil] at hafter
    cases hafter
  · exact hone

theorem records_filter
    (leaseID : GoString) (journal : LeaseLog) :
    journal.records.filter (fun r => r.leaseID = leaseID) =
      (entriesOf leaseID journal.entries).map JournalEntry.record := by
  unfold LeaseLog.records entriesOf
  rw [List.filter_map]
  rfl

/-- A replay opens the lease whose only record is its fetch record. -/
theorem live_of_entriesOf
    {lease : Lease} {journal : LeaseLog}
    (h : entriesOf lease.leaseID journal.entries =
      [⟨lease.fetchRecord, true⟩]) :
    (live journal.records).lookup lease.leaseID = some lease.fetchRecord := by
  rw [live_lookup_filter, records_filter, h]
  exact AList.lookup_insert _

end Journal

section Holding

variable {amb : Prop} {e : Event LeaseLog} {c c' : Custody} {lease : Lease}

theorem Held.fencedBy
    (h : Held lease c) :
    c.store.queue.FencedBy lease.task.id lease.leaseID :=
  ⟨lease.task, h.fenced⟩

theorem Held.issued
    (h : Held lease c) :
    lease.leaseID ∈ c.issued := by
  refine Store.Sound.fences_issued h.consistent.sound _
    (List.mem_append_right _ ?_)
  exact MemoryQueue.mem_fences.mpr ⟨_, h.fencedBy⟩

/-- An acquisition leaves the entries of processing storage alone. -/
theorem Store.Sound.acquire_lookup_other
    {issued : List GoString} {s : Store} (hs : s.Sound issued)
    {leaseID t : GoString} {entry : ProcessingEntry}
    (h : s.queue.processing.lookup t = some entry) :
    (s.acquire leaseID).2.queue.processing.lookup t = some entry := by
  rcases s.acquire_cases leaseID with ⟨next, rest, hready, heq⟩ | ⟨_, heq⟩
  · rw [heq, Map.lookup_insert_ite]
    split_ifs with hk
    · have hnone := hs.ready_not_processing
        (show next ∈ s.queue.ready by simp [hready])
      rw [← hk, h] at hnone
      cases hnone
    · exact h
  · rw [heq]
    exact h

/-- An active lease with the ID of the held lease is the held lease. -/
theorem Held.active_eq
    {leases : Map GoString Lease} {other : Lease}
    (h : Held lease c)
    (hphase : c.phase = .serving leases)
    (hactive : leases.lookup other.leaseID = some other)
    (hid : other.leaseID = lease.leaseID) :
    other = lease := by
  have hkept := h.kept
  rw [hphase] at hkept
  rw [hid] at hactive
  exact Option.some.inj (hactive.symm.trans hkept)

theorem Held.opened_eq
    {opened : Map GoString Record} {r : Record}
    (h : Held lease c)
    (hphase : c.phase = .recovering opened)
    (hopen : opened.lookup r.leaseID = some r)
    (hid : r.leaseID = lease.leaseID) :
    r = lease.fetchRecord := by
  have hkept := h.kept
  rw [hphase] at hkept
  rw [hid] at hopen
  exact Option.some.inj (hopen.symm.trans hkept)

/-- The fence of a held lease is in place, so its end takes effect. -/
theorem Held.mem_finish_log
    (h : Held lease c) (ending : Ending) :
    ending.transition lease.task.id lease.leaseID ∈
      (c.store.finish ending lease.task.id lease.leaseID).2.log := by
  rcases c.store.finish_cases ending lease.task.id lease.leaseID with
    ⟨task, _, heq⟩ | ⟨err, hnot, _, _⟩
  · rw [heq]
    exact List.mem_append_right _ (List.mem_singleton.mpr rfl)
  · exact absurd h.fencedBy hnot

/-- A held lease stays held unless the event ends it. -/
theorem Move.held_unless
    (hmove : Move amb True e c c')
    (hends : ∀ ending, e.MayEnd lease ending →
      ending.transition lease.task.id lease.leaseID ∉ c'.store.log)
    (h : Held lease c) :
    Held lease c' := by
  have hconsistent := hmove.consistent h.consistent
  have hkept := h.kept
  cases hmove with
  | waste | enqueue =>
      exact ⟨hconsistent, h.fenced, h.recorded, hkept⟩
  | acquire _ hp hfresh hready =>
      rw [hp] at hkept
      refine ⟨hconsistent,
        Store.Sound.acquire_lookup_other h.consistent.sound h.fenced,
        h.recorded, hkept, ?_⟩
      rintro rfl
      exact hfresh h.issued
  | note hp acked =>
      rw [hp] at hkept
      refine ⟨hconsistent, h.fenced, ?_, h.kept⟩
      rw [entriesOf_append_ne (show _ ≠ lease.leaseID from hkept.2)]
      exact h.recorded
  | publish hp =>
      rw [hp] at hkept
      refine ⟨hconsistent, h.fenced, h.recorded, ?_⟩
      exact (AList.lookup_insert_ne hkept.2.symm).trans hkept.1
  | rollback hp =>
      rw [hp] at hkept
      exact ⟨hconsistent, Store.finish_lookup_other h.fenced hkept.2.symm,
        h.recorded, hkept.1⟩
  | abandon _ hp =>
      rw [hp] at hkept
      exact ⟨hconsistent, h.fenced, h.recorded, hkept.1⟩
  | finish hp hactive hcause =>
      refine ⟨hconsistent, Store.finish_lookup_other h.fenced ?_,
        h.recorded, h.kept⟩
      -- The lease that ends is not the held one: its end would be in the history.
      intro hid
      cases h.active_eq hp hactive hid.symm
      exact hends _ hcause (h.mem_finish_log _)
  | close hp hactive hnot _ acked =>
      refine ⟨hconsistent, h.fenced, ?_, h.kept⟩
      rw [entriesOf_append_ne]
      · exact h.recorded
      · intro hid
        cases h.active_eq hp hactive hid
        exact hnot h.fencedBy
  | drop hp hactive hnot =>
      rw [hp] at hkept
      refine ⟨hconsistent, h.fenced, h.recorded, ?_⟩
      refine (AList.lookup_erase_ne ?_).trans hkept
      intro hid
      cases h.active_eq hp hactive hid.symm
      exact hnot h.fencedBy
  | stop => exact ⟨hconsistent, h.fenced, h.recorded, trivial⟩
  | reopen _ hdur =>
      obtain ⟨hsurvives, rfl⟩ := hdur trivial
      have hrecorded := entriesOf_survives hsurvives h.recorded
      exact ⟨hconsistent, h.fenced, hrecorded, live_of_entriesOf hrecorded⟩
  | reconcile hp order order' =>
      rw [hp] at hkept
      refine ⟨hconsistent, ?_, h.recorded, h.kept⟩
      refine (MemoryQueue.recoverOrphanedProcessing_lookup _ _ _ _ _).mpr
        ⟨h.fenced, ?_⟩
      exact List.mem_map.mpr ⟨(lease.leaseID, lease.fetchRecord),
        (Map.mem_range order' _ _ _).mpr hkept, rfl⟩
  | closeStale hp hopen hnot acked =>
      refine ⟨hconsistent, h.fenced, ?_, h.kept⟩
      rw [entriesOf_append_ne]
      · exact h.recorded
      · intro hid
        rw [h.opened_eq hp hopen hid] at hnot
        exact hnot h.fencedBy
  | recovered hp hleases =>
      rw [hp] at hkept
      refine ⟨hconsistent, h.fenced, h.recorded, ?_⟩
      exact (hleases.exact _ _).mpr ⟨lease.fetchRecord, hkept, h.fencedBy, rfl⟩

theorem Event.Spares.not_mayEnd
    (hspares : e.Spares lease) (ending : Ending) :
    ¬ e.MayEnd lease ending := by
  intro hcause
  cases e with
  | ack leaseID =>
      exact hspares.1 (by rw [hcause.1])
  | reap now =>
      have hlate := hspares.2 now rfl
      have hdue := hcause.1
      omega
  | enqueue | fetch | restart => exact hcause.elim

theorem Move.held
    (hmove : Move amb True e c c')
    (hspares : e.Spares lease)
    (h : Held lease c) :
    Held lease c' :=
  hmove.held_unless (fun ending hcause => absurd hcause (hspares.not_mayEnd ending)) h

end Holding

section Runs

variable {s t : System Storage LeaseLog} {es : List (Event LeaseLog × Reply)}
  {lease : Lease}

/-- A returned lease is held. -/
theorem held_of_fetched
    {leaseID : GoString} {now timeout : Int}
    (hconsistent : s.custody.Consistent)
    (hjournal : ∀ engine, s.process = some engine →
      engine.config.journal = true)
    (hfresh : leaseID ∉ s.issued)
    (hreply : (s.step (.fetch leaseID now timeout)).1 = .fetched lease)
    (hafter : (s.step (.fetch leaseID now timeout)).2.custody.Consistent) :
    lease.leaseID = leaseID ∧
      Held lease (s.step (.fetch leaseID now timeout)).2.custody := by
  obtain ⟨hlease, _, ⟨rest, hready⟩, hstore, engine, hp, hrec, hp', hentries⟩ :=
    fetch_reply hreply
  have hid : lease.leaseID = leaseID := by rw [hlease]
  refine ⟨hid, hafter, ?_, ?_, ?_⟩
  · show (s.step _).2.backend.store.queue.processing.lookup _ = _
    rw [hstore]
    rcases s.backend.store.acquire_cases leaseID with
      ⟨next, rest', hready', heq⟩ | ⟨hnil, _⟩
    · rw [hready] at hready'
      cases hready'
      rw [heq, hid]
      exact AList.lookup_insert _
    · rw [hready] at hnil
      cases hnil
  · show entriesOf _ (s.step _).2.journal.entries = _
    rw [hentries (hjournal engine hp), hid]
    have hnone : entriesOf leaseID s.journal.entries = [] :=
      entriesOf_eq_nil hconsistent.noted hfresh
    unfold entriesOf at hnone ⊢
    rw [List.filter_append, hnone]
    simp [Lease.fetchRecord, hid]
  · rw [System.custody_serving hp' hrec]
    exact AList.lookup_insert _

theorem durable_held
    (hrun : durable.Run s es t)
    (hspares : ∀ er ∈ es, er.1.Spares lease)
    (hregular : s.Regular True)
    (hs : Held lease s.custody) :
    Held lease t.custody :=
  (durable_keeps hrun hspares
    (fun _ _ _ he hmove hc => hmove.held he hc) hregular hs).2

/--
The visibility timeout is exclusive across restarts.  A lease was returned by a
`Fetch` of a journalled run with fresh UUIDs; since then there was no `Ack` of it,
and every `ReapExpired` came before its deadline.  Then its task is still in
processing, unchanged and under its fence, and no `Fetch` has returned the task
again, wherever the process stopped in between.
-/
theorem visibility_exclusive
    {calls : List CallEnv} {appends : List AppendFate}
    {before after : List (Event LeaseLog × Reply)}
    {leaseID : GoString} {now timeout : Int}
    (hrun : durable.Run (System.empty calls appends)
      (before ++ (.fetch leaseID now timeout, .fetched lease) :: after) t)
    (hack : ∀ er ∈ after, er.1 ≠ .ack lease.leaseID)
    (hreap : ∀ er ∈ after, ∀ now', er.1 = .reap now' →
      now' < lease.expiresAt) :
    t.backend.store.queue.processing.lookup lease.task.id =
        some ⟨lease.task, lease.leaseID⟩ ∧
    ∀ leaseID' now' timeout' lease',
      (.fetch leaseID' now' timeout', .fetched lease') ∈ after →
      lease'.task.id ≠ lease.task.id := by
  obtain ⟨s, hbefore, hguard, hreply, hafter⟩ := hrun.split_at
  have hfetch : durable.Run s
      ([] ++ [(.fetch leaseID now timeout, (s.step (.fetch leaseID now timeout)).1)])
      (s.step (.fetch leaseID now timeout)).2 :=
    Machine.Run.next _ (Machine.Run.refl s) hguard
  obtain ⟨hregular, hconsistent⟩ :=
    durable_consistent hbefore System.regular_true System.consistent_empty
  obtain ⟨hregular', hconsistent'⟩ :=
    durable_consistent hfetch hregular hconsistent
  have hjournal : ∀ engine, s.process = some engine →
      engine.config.journal = true :=
    fun engine hp => (durable_covered hbefore rfl engine hp).2
  have hg : s.Fresh (.fetch leaseID now timeout) := hguard.1
  obtain ⟨_, hheld⟩ := held_of_fetched hconsistent hjournal
    (hg leaseID (by simp [Event.newIDs])) hreply hconsistent'
  have hspares : ∀ er ∈ after, er.1.Spares lease :=
    fun er her => ⟨hack er her, hreap er her⟩
  refine ⟨(durable_held hafter hspares hregular' hheld).fenced, ?_⟩
  intro leaseID' now' timeout' lease' hmem hsame
  obtain ⟨u, es₁, es₂, rfl, hu, _, hreply', _⟩ := hafter.split hmem
  have hheld' : Held lease u.custody :=
    durable_held hu (fun er her => hspares er (List.mem_append_left _ her))
      hregular' hheld
  obtain ⟨rest, hready⟩ := (fetch_reply hreply').ready
  have hnone := Store.Sound.ready_not_processing hheld'.consistent.sound
    (show lease'.task ∈ u.backend.store.queue.ready by simp [hready])
  rw [hsame, hheld'.fenced] at hnone
  cases hnone

/-- A lease with deadline 15 survives a restart and a reap at 14. -/
theorem visibility_exclusive_restarted :
    ∃ t : System Storage LeaseLog,
      durable.Run (System.empty [] [])
        ([(.restart ⟨3, 0, true⟩ ⟨[], [], []⟩ ⟨[], []⟩ [], .started),
          (.enqueue [84] [1, 2], .enqueued ⟨[84], [1, 2], 0⟩)] ++
          (.fetch [76] 5 10, .fetched ⟨[76], ⟨[84], [1, 2], 0⟩, 5, 15⟩) ::
          [(.restart ⟨3, 0, true⟩ ⟨[], [], []⟩
              ⟨[⟨⟨.fetch, [76], ⟨[84], [1, 2], 0⟩, 5, 15⟩, true⟩], []⟩
              [⟨.fetch, [76], ⟨[84], [1, 2], 0⟩, 5, 15⟩], .started),
            (.reap 14, .reaped 0 none)]) t ∧
      t.backend.store.queue.processing.lookup [84] =
        some ⟨⟨[84], [1, 2], 0⟩, [76]⟩ := by
  have hrun : durable.Run (System.empty [] [])
      ([(.restart ⟨3, 0, true⟩ ⟨[], [], []⟩ ⟨[], []⟩ [], .started),
        (.enqueue [84] [1, 2], .enqueued ⟨[84], [1, 2], 0⟩)] ++
        (.fetch [76] 5 10, .fetched ⟨[76], ⟨[84], [1, 2], 0⟩, 5, 15⟩) ::
        [(.restart ⟨3, 0, true⟩ ⟨[], [], []⟩
            ⟨[⟨⟨.fetch, [76], ⟨[84], [1, 2], 0⟩, 5, 15⟩, true⟩], []⟩
            [⟨.fetch, [76], ⟨[84], [1, 2], 0⟩, 5, 15⟩], .started),
          (.reap 14, .reaped 0 none)]) _ :=
    durable.run_of_admits
      [.restart ⟨3, 0, true⟩ ⟨[], [], []⟩ ⟨[], []⟩ [], .enqueue [84] [1, 2],
        .fetch [76] 5 10,
        .restart ⟨3, 0, true⟩ ⟨[], [], []⟩
          ⟨[⟨⟨.fetch, [76], ⟨[84], [1, 2], 0⟩, 5, 15⟩, true⟩], []⟩
          [⟨.fetch, [76], ⟨[84], [1, 2], 0⟩, 5, 15⟩],
        .reap 14]
      (System.empty [] [])
      ⟨⟨by decide, rfl, ⟨by decide, rfl⟩, rfl⟩,
        ⟨by decide, trivial⟩,
        ⟨by decide, trivial⟩,
        ⟨by decide, rfl, ⟨by decide, rfl⟩, rfl⟩,
        ⟨by decide, trivial⟩, trivial⟩
  exact ⟨_, hrun, (visibility_exclusive hrun (by simp) (by simp)).1⟩

end Runs

end Moxy
