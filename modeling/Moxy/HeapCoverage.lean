import Moxy.ExpirationOrder

/-!
# Moxy: every active lease keeps its heap entry

An entry of the expiration heap outlives its lease: `ack` closes a lease and leaves the
entry, and `reapExpired` removes it when it is due.  The other way round would be a lease
that never expires, and `reapExpired` has a branch that could cause it: an entry is
removed without a word when its lease is not yet due.

The branch is never taken.  An active lease has one entry, whose instant is not before
the end of the lease, so where the entry is due the lease is due.  The runs are those of
any backend and any journal, from any storage, with any instants and any recovered
records; a fetch generates a lease ID that has no entry yet.

* `checkedReap` is `reapExpired` with an error in the place of the branch.
* `heap_covers_active_leases`: coverage, heap order, and that the two programs are equal.
-/

namespace Moxy

open Lib Lib.CrashM

variable {β γ : Type} [Backend β] [Journal γ]

/-- The error of `checkedReapLoop`. -/
def leaseNotDue : GoError :=
  .text (goString "core: entry of a lease that is not due")

/-- `reapLoop`, but an error where the lease of a due entry is not due. -/
def checkedReapLoop (now : Int) : Nat → Nat → EngineM β γ (Nat × Option GoError)
  | 0, requeued => pure (requeued, none)
  | fuel + 1, requeued => do
      let w ← read
      match BinaryHeap.peek w.engine.expirations with
      | none => pure (requeued, none)
      | some item =>
          if now < item.expiresAt then pure (requeued, none)
          else do
            onEngine Engine.popExpiration
            match w.engine.leases.lookup item.leaseID with
            | none => checkedReapLoop now fuel requeued
            | some lease =>
                if now < lease.expiresAt then fail leaseNotDue
                else do
                  match ← attempt (expireLease lease) with
                  | .error err => do
                      onEngine (Engine.pushExpiration
                        ⟨item.leaseID,
                          now + w.engine.config.requeueRetryDelay⟩)
                      pure (requeued, some err)
                  | .ok _ => do
                      onEngine (Engine.dropLease item.leaseID)
                      checkedReapLoop now fuel (requeued + 1)

/-- `reapExpired` with the checked loop. -/
def checkedReap (now : Int) : EngineM β γ (Nat × Option GoError) := do
  let w ← read
  match w.engine.recoveryErr with
  | some err => pure (0, some err)
  | none => checkedReapLoop now w.engine.expirations.size 0

/-- From a covered memory with a timetable the two loops do the same. -/
theorem checkedReapLoop_eq
    (now : Int) (e₀ : Engine) (issued : List GoString) :
    ∀ (fuel requeued : Nat) (w : World β γ),
      e₀.Steady w.engine → w.engine.Timed issued →
      checkedReapLoop now fuel requeued w = reapLoop now fuel requeued w := by
  have hkeeps := Engine.scheduled_reapKeeps now e₀ issued
  intro fuel
  induction fuel with
  | zero => exact fun _ _ _ _ => rfl
  | succ fuel ih =>
      intro requeued w hsteady htimed
      rw [checkedReapLoop, reapLoop]
      refine bind_congr ?_
      rw [wp_read]
      cases hpeek : BinaryHeap.peek w.engine.expirations with
      | none => rfl
      | some item =>
          dsimp only
          split_ifs with hearly
          · rfl
          refine bind_congr ?_
          rw [wp_onEngine]
          have hdue : item.expiresAt ≤ now := by omega
          cases hactive : w.engine.leases.lookup item.leaseID with
          | none =>
              have hrest := hkeeps.skip _ item ⟨hsteady, htimed⟩ hpeek hdue
                (fun lease h => by rw [hactive] at h; cases h)
              exact ih requeued _ hrest.1 hrest.2
          | some lease =>
              -- the entry is the only one of its lease, so it is not before the deadline
              have hafter := hsteady.1.le_entry htimed (BinaryHeap.mem_of_peek hpeek) hactive
              have hexpired : lease.expiresAt ≤ now := hafter.trans hdue
              dsimp only
              rw [if_neg (by omega), if_neg (by omega)]
              refine bind_congr ?_
              rw [wp_attempt]
              -- the engine is the same after the calls that end the lease
              refine wp_mono (wp_expireLease_engine lease _) ?_ (fun _ _ _ => rfl)
                (fun _ _ => trivial)
              intro _ w' hw
              refine bind_congr ?_
              rw [wp_onEngine]
              have hrest := hkeeps.close _ item lease ⟨hsteady, htimed⟩ hpeek hdue hactive
                hexpired
              have hengine : w'.engine = w.engine.popExpiration := hw
              rw [← hengine] at hrest
              exact ih (requeued + 1) _ hrest.1 hrest.2

theorem checkedReap_eq
    {issued : List GoString} {w : World β γ}
    (h : w.engine.Covered)
    (ht : w.engine.Timed issued)
    (now : Int) :
    checkedReap now w = reapExpired now w := by
  rw [checkedReap, reapExpired]
  refine bind_congr ?_
  rw [wp_read]
  cases w.engine.recoveryErr with
  | some err => rfl
  | none => exact checkedReapLoop_eq now w.engine issued _ 0 w ⟨h, rfl, rfl⟩ ht

section Systems

/-- The lease ID that a fetch generates has no entry in the heap. -/
def System.NewLease (s : System β γ) (e : Event γ) : Prop :=
  match e with
  | .fetch leaseID _ _ =>
      ∀ engine ∈ s.process, leaseID ∉ scheduledIDs engine.expirations
  | _ => True

instance (s : System β γ) (e : Event γ) : Decidable (s.NewLease e) :=
  match e with
  | .fetch leaseID _ _ =>
      inferInstanceAs (Decidable
        (∀ engine ∈ s.process, leaseID ∉ scheduledIDs engine.expirations))
  | .restart _ _ _ _ | .enqueue _ _ | .ack _ | .reap _ =>
      inferInstanceAs (Decidable True)

/-- Systems over any storage whose fetches generate new lease IDs. -/
def freshLeases (β γ : Type) [Backend β] [Journal γ] :
    Machine (System β γ) (Event γ) Reply where
  step := System.step
  guard s e := s.NewLease e

instance (s : System β γ) (e : Event γ) : Decidable ((freshLeases β γ).guard s e) :=
  inferInstanceAs (Decidable (s.NewLease e))

omit [Journal γ] in
/-- A start makes no lease active but one of the recovered records. -/
theorem knownMatches_recovered
    (orders : RestoreOrders) (recovered : List Record) (backend : β) :
    KnownMatches (recovered.map Record.leaseID) orders recovered backend := by
  rw [KnownMatches]
  cases Backend.recoverOrphanedProcessing (openFences orders.fences (live recovered))
      backend with
  | ok result _ => exact fun r hr _ => List.mem_map_of_mem hr
  | error | crashed => trivial

/-- The memory of the process is covered, and its heap is a timetable. -/
def System.Clockwork (s : System β γ) : Prop :=
  s.Holds (fun w => w.engine.Covered ∧ w.engine.Timed (scheduledIDs w.engine.expirations))

theorem System.Clockwork.step
    {s : System β γ} {e : Event γ}
    (h : s.Clockwork)
    (hnew : s.NewLease e) :
    (s.step e).2.Clockwork := by
  intro engine hengine
  have hcovered := step_covered (fun _ _ => True) e
    (fun engine hp => ⟨(h engine hp).1, trivial⟩) (fun _ _ _ _ _ _ => trivial) engine hengine
  refine ⟨hcovered.1, ?_⟩
  cases System.step_memory hengine with
  | started hrestored => exact (hrestored.timed (knownMatches_recovered _ _ _)).self
  | same hp => exact (h _ hp).2
  | @published leaseID now timeout memory hp _ task =>
      have hold : memory.Timed (leaseID :: scheduledIDs memory.expirations) :=
        (h _ hp).2.mono (fun _ hid => List.mem_cons_of_mem _ hid)
      have hpush : Timetable (leaseID :: scheduledIDs memory.expirations)
          (BinaryHeap.push ExpirationItem.less memory.expirations ⟨leaseID, now + timeout⟩) :=
        hold.push (hnew _ hp) List.mem_cons_self
      exact hpush.self
  | dropped hp => exact (h _ hp).2
  | reaped hp hpath =>
      have hpopped := (Engine.timed_reapKeeps _ _).path (h _ hp).2 hpath
      exact hpopped.self

theorem freshLeases_clockwork
    {backend : β} {journal : γ} {issued : List GoString}
    {es : List (Event γ × Reply)} {s : System β γ}
    (hrun : (freshLeases β γ).Run (System.cold backend journal issued) es s) :
    s.Clockwork := by
  refine hrun.invariant (P := System.Clockwork) ?_ ?_
  · exact fun u e hu hguard => hu.step hguard
  · intro engine hengine
    cases hengine

/--
In every reachable state an active lease has exactly one entry, at or after the end of
the lease, no ID has two entries, the slice is in heap order, and no reap meets an entry
that is due although its lease is not.
-/
theorem heap_covers_active_leases
    {backend : β} {journal : γ} {issued : List GoString}
    {es : List (Event γ × Reply)} {s : System β γ} {engine : Engine}
    (hrun : (freshLeases β γ).Run (System.cold backend journal issued) es s)
    (hprocess : s.process = some engine) :
    (∀ leaseID lease, engine.leases.lookup leaseID = some lease →
      (scheduledIDs engine.expirations).count leaseID = 1 ∧
      ∀ item ∈ engine.expirations.toList, item.leaseID = leaseID →
        lease.expiresAt ≤ item.expiresAt) ∧
    (∀ leaseID, (scheduledIDs engine.expirations).count leaseID ≤ 1) ∧
    BinaryHeap.IsHeap ExpirationItem.less engine.expirations ∧
    (∀ now, checkedReap now ⟨engine, s.backend, s.journal⟩ =
      reapExpired now ⟨engine, s.backend, s.journal⟩) := by
  obtain ⟨hcovered, htimed⟩ := freshLeases_clockwork hrun engine hprocess
  refine ⟨?_, List.nodup_iff_count_le_one.mp htimed.nodup, htimed.heap,
    checkedReap_eq hcovered htimed⟩
  intro leaseID lease hactive
  obtain ⟨entry, hentry, hid, _⟩ := hcovered.entry leaseID lease hactive (by simp)
  have hscheduled : leaseID ∈ scheduledIDs engine.expirations :=
    hid ▸ List.mem_map_of_mem hentry
  refine ⟨List.count_eq_one_of_mem htimed.nodup hscheduled, ?_⟩
  rintro item hitem rfl
  exact hcovered.le_entry htimed hitem hactive

/-- A lease expires; the call that returns its task fails, and then time runs backwards. -/
def failedExpiry : List (Event LeaseLog) :=
  [.restart ⟨3, 7, true⟩ ⟨[], [], []⟩ ⟨[], []⟩ [], .enqueue [65] [], .fetch [76] 5 10,
    .reap 20, .reap 3]

/-- Storage in which the fourth call fails. -/
def fourthCallFails : System Storage LeaseLog :=
  System.cold
    ⟨⟨MemoryQueue.new, []⟩, [.calm, .calm, .calm, ⟨.fails (goString "timeout"), 0, []⟩]⟩
    ⟨[], []⟩ []

/-- The lease stays active, and its one entry waits for the next attempt. -/
theorem heap_covers_active_leases_retry :
    ∃ engine,
      ((freshLeases Storage LeaseLog).final fourthCallFails failedExpiry).process =
        some engine ∧
      engine.leases.lookup [76] = some ⟨[76], ⟨[65], [], 0⟩, 5, 15⟩ ∧
      engine.expirations = #[⟨[76], 27⟩] ∧
      (scheduledIDs engine.expirations).count [76] = 1 := by
  have hrun := (freshLeases Storage LeaseLog).run_of_admits failedExpiry fourthCallFails
    (by decide)
  refine ⟨_, rfl, rfl, by decide, ?_⟩
  exact ((heap_covers_active_leases hrun rfl).1 [76] ⟨[76], ⟨[65], [], 0⟩, 5, 15⟩ rfl).1

end Systems

end Moxy
