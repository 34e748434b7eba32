import Moxy.CalmStorage
import Moxy.LeaseAgreement

/-!
# Moxy: no work is stranded in processing

A task in processing is brought back only by the lease that fences it, so a
processing entry without an active lease would stay there for ever.
`Custody.Covers` says that a serving process has an active lease for every
processing entry; while a lease is being given out, the entry may also be the one
just claimed.

With `Engine.Covered` this gives the reaper everything: one pass after all heap
deadlines, with storage that answers, empties the lease map and processing.
-/

namespace Moxy

open Lib Lib.CrashM

/-- Every processing entry is the responsibility of a lease in memory. -/
def Custody.Covers (c : Custody) : Prop :=
  match c.phase with
  | .serving leases => ∀ t leaseID, c.store.queue.FencedBy t leaseID →
      ∃ lease, leases.lookup leaseID = some lease
  | .leasing leases claim => ∀ t leaseID, c.store.queue.FencedBy t leaseID →
      leaseID = claim.leaseID ∨ ∃ lease, leases.lookup leaseID = some lease
  | _ => True

section Moves

variable {e : Event LeaseLog} {c c' : Custody}

theorem Custody.covers_serving
    {leases : Map GoString Lease}
    (hphase : c.phase = .serving leases) :
    c.Covers ↔ ∀ t leaseID, c.store.queue.FencedBy t leaseID →
      ∃ lease, leases.lookup leaseID = some lease := by
  unfold Custody.Covers
  rw [hphase]

theorem Custody.covers_leasing
    {leases : Map GoString Lease} {claim : Lease}
    (hphase : c.phase = .leasing leases claim) :
    c.Covers ↔ ∀ t leaseID, c.store.queue.FencedBy t leaseID →
      leaseID = claim.leaseID ∨ ∃ lease, leases.lookup leaseID = some lease := by
  unfold Custody.Covers
  rw [hphase]

/-- Without foreign errors every move keeps processing covered. -/
theorem Move.covers
    (hmove : Move False True e c c')
    (hconsistent : c.Consistent)
    (h : c.Covers) :
    c'.Covers := by
  have hknows := hconsistent.phase
  cases hmove with
  | waste | enqueue | note | close => exact h
  | acquire _ hp _ hready =>
      rw [Custody.covers_serving hp] at h
      intro t l hf
      rcases Store.acquire_fencedBy hready hf with rfl | hold
      · exact Or.inl rfl
      · exact Or.inr (h t l hold)
  | publish hp =>
      rw [Custody.covers_leasing hp] at h
      intro t l hf
      rw [Map.lookup_insert_ite]
      split_ifs with hk
      · exact ⟨_, rfl⟩
      · rcases h t l hf with rfl | hold
        · exact absurd rfl hk
        · exact hold
  | rollback hp =>
      rw [Custody.covers_leasing hp] at h
      rw [hp] at hknows
      intro t l hf
      have hold := Store.finish_fencedBy hf
      rcases h t l hold with rfl | hlease
      · -- The claim fenced its own task only, and has just given it up.
        exfalso
        have htask := hconsistent.fenced_task hknows.2 hold
        subst htask
        exact Store.finish_not_fenced _ _ _ _ hf
      · exact hlease
  | abandon hamb => exact hamb.elim
  | finish hp =>
      rw [Custody.covers_serving hp] at h
      unfold Custody.Covers
      simp only [hp]
      exact fun t l hf => h t l (Store.finish_fencedBy hf)
  | drop hp hactive hnot =>
      rw [Custody.covers_serving hp] at h
      rw [hp] at hknows
      intro t l hf
      rw [Map.lookup_erase_ite]
      split_ifs with hk
      · exfalso
        subst hk
        have htask := hconsistent.fenced_task (hknows _ _ hactive).2 hf
        subst htask
        exact hnot hf
      · exact h t l hf
  | stop => trivial
  | reopen => trivial
  | reconcile hp =>
      unfold Custody.Covers
      simp only [hp]
  | closeStale hp =>
      unfold Custody.Covers
      simp only [hp]
  | recovered _ hleases =>
      intro t l hf
      obtain ⟨r, hr, rfl⟩ := hleases.complete t l hf
      exact ⟨r.lease, (hleases.exact l r.lease).mpr ⟨r, hr, hf, rfl⟩⟩

/-- Every state of a durable run without foreign errors is covered. -/
theorem durable_covers
    {s : System Storage LeaseLog} {calls : List CallEnv}
    {appends : List AppendFate} {es : List (Event LeaseLog × Reply)}
    (hcalls : Storage.Within False calls)
    (hrun : durable.Run (System.empty calls appends) es s) :
    s.Regular False ∧ s.custody.Consistent ∧ s.custody.Covers :=
  durable_keeps (K := fun _ => True)
    (P := fun c => c.Consistent ∧ c.Covers) hrun (fun _ _ => trivial)
    (fun _ _ _ _ hmove hc => ⟨hmove.consistent hc.1, hmove.covers hc.1 hc.2⟩)
    (System.regular_empty hcalls) ⟨System.consistent_empty, trivial⟩

end Moves

section Reaping

variable {w : World Storage LeaseLog}

/-- On calm storage an expiry succeeds and uses one call of either kind. -/
theorem expireLease_calm
    {n : Nat} {lease : Lease}
    (hjournal : w.engine.config.journal = true)
    (hcalm : w.CalmFor (n + 1)) :
    wp (expireLease lease)
      (fun _ w' => w'.engine = w.engine ∧ w'.CalmFor n)
      (fun _ _ => False) (fun _ => False) w := by
  have hcalls := hcalm.calls.head (show CallEnv.calm.fate = .reports from rfl)
  have happends := hcalm.appends.head (show AppendFate.stored = .stored from rfl)
  have hrest := fun entries store =>
    (⟨hcalm.calls.tail, hcalm.appends.tail⟩ : World.CalmFor n
      ⟨w.engine, ⟨store, w.backend.script.tail⟩,
        ⟨entries, w.journal.script.tail⟩⟩)
  unfold expireLease
  rw [wp_bind, wp_read, wp_bind, wp_attempt]
  rw [wp_onBackend]
  refine wp_expireCall (Storage.wp_call_calm hcalls ?_ ?_)
  · intro env _ _
    exact wp_record_calm hjournal happends ⟨rfl, hrest _ _⟩
  · intro env err herr
    have hstale : isStaleLeaseError err = true := by
      rcases w.backend.store.finish_cases
          (expiryEnding (w.engine.shouldDeadLetter lease) env)
          lease.task.id lease.leaseID with ⟨task, _, heq⟩ | ⟨err', _, hst, heq⟩
      · rw [heq] at herr
        cases herr
      · rw [heq] at herr
        cases herr
        exact hst
    dsimp only
    rw [if_pos hstale]
    exact wp_record_calm hjournal happends ⟨rfl, hrest _ _⟩

/-- What holds during a pass after all heap deadlines on calm storage. -/
structure CalmPass (now : Int) (w : World Storage LeaseLog) : Prop where
  journalled : w.engine.config.journal = true
  recovered : w.engine.recoveryErr = none
  due : ∀ item ∈ w.engine.expirations.toList, item.expiresAt ≤ now
  calm : w.CalmFor w.engine.expirations.size

theorem CalmPass.pop
    {now : Int} {item : ExpirationItem}
    (h : CalmPass now w)
    (hpeek : BinaryHeap.peek w.engine.expirations = some item) :
    (∀ other ∈ w.engine.popExpiration.expirations.toList, other.expiresAt ≤ now) ∧
      w.CalmFor (w.engine.popExpiration.expirations.size + 1) := by
  have hperm := BinaryHeap.pop_perm ExpirationItem.less hpeek
  refine ⟨fun other hother =>
    h.due other (hperm.mem_iff.mpr (List.mem_cons_of_mem _ hother)), ?_⟩
  have hsize : w.engine.expirations.size =
      w.engine.popExpiration.expirations.size + 1 := by
    simpa only [Engine.popExpiration, Array.length_toList, List.length_cons] using
      hperm.length_eq
  rw [← hsize]
  exact h.calm

/-- A pass after all heap deadlines on calm storage empties the heap. -/
theorem reapExpired_calm
    {now : Int}
    (hrec : w.engine.recoveryErr = none)
    (hjournal : w.engine.config.journal = true)
    (hdue : ∀ item ∈ w.engine.expirations.toList, item.expiresAt ≤ now)
    (hcalm : w.CalmFor w.engine.expirations.size) :
    wp (reapExpired now)
      (fun r w' => r.2 = none ∧ w'.engine.recoveryErr = none ∧
        w'.engine.expirations.size = 0)
      (fun _ _ => False) (fun _ => False) w := by
  refine wp_mono (wp_reapExpired (I := fun _ => CalmPass now)
    (F := fun _ _ _ => False) ?_ ?_ ?_ (fun _ => ⟨hjournal, hrec, hdue, hcalm⟩)) ?_
    (fun _ _ h => h) (fun _ h => h)
  · intro _ w' item h hpeek _ _
    obtain ⟨hrest, hcalls⟩ := h.pop hpeek
    exact ⟨h.journalled, h.recovered, hrest,
      ⟨hcalls.calls.mono, hcalls.appends.mono⟩⟩
  · intro _ w' item lease h hpeek _ _ _
    obtain ⟨hrest, hcalls⟩ := h.pop hpeek
    refine wp_mono (expireLease_calm h.journalled ⟨hcalls.calls, hcalls.appends⟩) ?_
      (fun _ _ h => h) (fun _ h => h)
    rintro _ w'' ⟨_, hcalm'⟩
    exact ⟨h.journalled, h.recovered, hrest, ⟨hcalm'.calls, hcalm'.appends⟩⟩
  · intro err herr
    rw [hrec] at herr
    cases herr
  · rintro ⟨count, err⟩ w' hends
    cases err with
    | some err => exact False.elim hends
    | none =>
        obtain ⟨h, hnone⟩ := hends
        refine ⟨rfl, h.recovered, ?_⟩
        cases hpeek : BinaryHeap.peek w'.engine.expirations with
        | none =>
            have hempty : w'.engine.expirations[0]? = none := hpeek
            exact Nat.le_zero.mp (Array.getElem?_eq_none_iff.mp hempty)
        | some item =>
            have hperm := BinaryHeap.pop_perm ExpirationItem.less hpeek
            have hlate := hnone item hpeek
            have hearly := h.due item (hperm.mem_iff.mpr List.mem_cons_self)
            omega

/-- A covered engine with an empty heap has no active lease. -/
theorem Engine.Covered.leases_eq_empty
    {e : Engine}
    (h : e.Covered)
    (hsize : e.expirations.size = 0) :
    e.leases = ∅ := by
  refine Map.eq_empty_of_lookup ?_
  intro leaseID
  cases hl : e.leases.lookup leaseID with
  | none => rfl
  | some lease =>
      exfalso
      obtain ⟨item, hmem, _⟩ := h.entry leaseID lease hl (by simp)
      rw [Array.eq_empty_of_size_eq_zero hsize] at hmem
      cases hmem

end Reaping

section Runs

variable {s : System Storage LeaseLog} {engine : Engine}

/-- What a reap on calm storage after all heap deadlines answers and leaves. -/
theorem reap_calm
    {now : Int}
    (hprocess : s.process = some engine)
    (hrec : engine.recoveryErr = none)
    (hjournal : engine.config.journal = true)
    (hdue : ∀ item ∈ engine.expirations.toList, item.expiresAt ≤ now)
    (hcalm : World.CalmFor engine.expirations.size
      ⟨engine, s.backend, s.journal⟩) :
    ∃ count engine',
      (s.step (.reap now)).1 = .reaped count none ∧
      (s.step (.reap now)).2.process = some engine' ∧
      engine'.recoveryErr = none ∧
      engine'.expirations.size = 0 := by
  simp only [System.step, hprocess]
  refine System.exec_cases (P := fun r => ∃ count engine',
    r.1 = .reaped count none ∧ r.2.process = some engine' ∧
      engine'.recoveryErr = none ∧ engine'.expirations.size = 0) ?_
  refine wp_mono (reapExpired_calm hrec hjournal hdue hcalm) ?_
    (fun _ _ h => h.elim) (fun _ h => h.elim)
  rintro ⟨count, err⟩ w' ⟨herr, hrec', hsize⟩
  cases herr
  exact ⟨count, w'.engine, rfl, rfl, hrec', hsize⟩

/--
No work is stranded in processing: in every state of a journalled run in which
recovery has succeeded, each processing entry has an active lease on the same
task and a heap entry; and one `ReapExpired` after all heap deadlines, on storage
that answers meanwhile, leaves no lease and nothing in processing.
-/
theorem processing_never_stranded
    {calls : List CallEnv} {appends : List AppendFate}
    {es : List (Event LeaseLog × Reply)}
    (hcalls : Storage.Within False calls)
    (hrun : durable.Run (System.empty calls appends) es s)
    (hprocess : s.process = some engine)
    (hrec : engine.recoveryErr = none) :
    (∀ taskID stored leaseID,
      s.backend.store.queue.processing.lookup taskID = some ⟨stored, leaseID⟩ →
      (∃ lease, engine.leases.lookup leaseID = some lease ∧
        lease.task = stored) ∧
      ∃ item ∈ engine.expirations.toList, item.leaseID = leaseID) ∧
    (∀ now,
      (∀ item ∈ engine.expirations.toList, item.expiresAt ≤ now) →
      World.CalmFor engine.expirations.size ⟨engine, s.backend, s.journal⟩ →
      ∃ count engine',
        (s.step (.reap now)).1 = .reaped count none ∧
        (s.step (.reap now)).2.process = some engine' ∧
        engine'.leases = ∅ ∧
        (s.step (.reap now)).2.backend.store.queue.processing = ∅) := by
  obtain ⟨hregular, hconsistent, hcovers⟩ := durable_covers hcalls hrun
  have hserving := System.custody_serving hprocess hrec
  have hknows := hconsistent.phase
  rw [hserving] at hknows
  constructor
  · intro taskID stored leaseID hl
    obtain ⟨lease, hlease⟩ :=
      (Custody.covers_serving hserving).mp hcovers taskID leaseID ⟨stored, hl⟩
    obtain ⟨item, hmem, hid, _⟩ :=
      (hregular.covered engine hprocess).entry leaseID lease hlease (by simp)
    have htask : stored = lease.task :=
      (hknows leaseID lease hlease).2.2 taskID stored hl
    exact ⟨⟨lease, hlease, htask.symm⟩, item, hmem, hid⟩
  · intro now hdue hcalm
    have hjournal := (durable_covered hrun rfl engine hprocess).2
    obtain ⟨count, engine', hreply, hprocess', hrec', hsize⟩ :=
      reap_calm hprocess hrec hjournal hdue hcalm
    have hfresh : s.Fresh (.reap now) := by
      intro id hid
      cases hid
    have hrun' : durable.Run (System.empty calls appends)
        (es ++ [(.reap now, (s.step (.reap now)).1)])
        (s.step (.reap now)).2 :=
      Machine.Run.next _ hrun ⟨hfresh, trivial⟩
    obtain ⟨hregular', _, hcovers'⟩ := durable_covers hcalls hrun'
    have hempty : engine'.leases = ∅ :=
      (hregular'.covered engine' hprocess').leases_eq_empty hsize
    refine ⟨count, engine', hreply, hprocess', hempty, ?_⟩
    refine Map.eq_empty_of_lookup ?_
    intro taskID
    cases hl : (s.step (.reap now)).2.backend.store.queue.processing.lookup
        taskID with
    | none => rfl
    | some entry =>
        exfalso
        obtain ⟨lease, hlease⟩ :=
          (Custody.covers_serving (System.custody_serving hprocess' hrec')).mp
            hcovers' taskID entry.leaseID ⟨entry.task, hl⟩
        rw [hempty] at hlease
        cases hlease

/-- A leased task is returned by a reap at its deadline. -/
theorem processing_never_stranded_reaped :
    ∃ (s : System Storage LeaseLog) (es : List (Event LeaseLog × Reply))
      (engine : Engine),
      durable.Run (System.empty [] []) es s ∧
      s.process = some engine ∧
      s.backend.store.queue.processing.lookup [84] =
        some ⟨⟨[84], [1, 2], 0⟩, [76]⟩ ∧
      (∃ count engine',
        (s.step (.reap 15)).1 = .reaped count none ∧
        (s.step (.reap 15)).2.process = some engine' ∧
        engine'.leases = ∅ ∧
        (s.step (.reap 15)).2.backend.store.queue.processing = ∅) := by
  have hrun := durable.run_of_admits
    [.restart ⟨3, 0, true⟩ ⟨[], [], []⟩ ⟨[], []⟩ [], .enqueue [84] [1, 2],
      .fetch [76] 5 10]
    (System.empty [] [])
    ⟨⟨by decide, rfl, ⟨by decide, rfl⟩, rfl⟩,
      ⟨by decide, trivial⟩,
      ⟨by decide, trivial⟩, trivial⟩
  refine ⟨_, _, _, hrun, rfl, rfl, ?_⟩
  exact (processing_never_stranded (by simp [Storage.Within]) hrun rfl rfl).2 15
    (by decide) ⟨by unfold Upcoming; decide, by unfold Upcoming; decide⟩

end Runs

end Moxy
