import Moxy.ServiceAck
import Moxy.VisibilityExclusion

/-!
# Moxy: how a lease gives way to the next

A lease that was returned is held until an acknowledgement of it took effect or a
reaping pass came at its deadline or later (`durable_ackedOrHeld`), so a task is handed
out again only after such a pass (`durable_refetched`).  A lease is acknowledged at most
once, and for that the journal does not matter (`anyRestart_acked_once`).  Both are stated
for the runs of one engine, in the form in which the concurrent service needs them.
-/

namespace Moxy

open Lib Lib.CrashM

/-- Whatever the journal answers, only a foreign error can come of it. -/
theorem wp_record_store
    {entry : Record} {w : World Storage LeaseLog}
    {ok : Unit → World Storage LeaseLog → Prop}
    {error : GoError → World Storage LeaseLog → Prop}
    (hok : ∀ journal, ok () { w with journal := journal })
    (herror : ∀ message journal, error (.text message) { w with journal := journal }) :
    wp (record entry) ok error (fun _ => True) w := by
  rw [wp_record]
  split_ifs
  · exact LeaseLog.wp_append (fun _ => hok _) (fun _ message => herror message _)
      (fun _ => trivial) (fun _ _ => trivial)
  · exact hok w.journal

/--
An acknowledgement of an active lease succeeds with the completion of its task, or
fails with an error of the storage, or finds that the fence is gone.
-/
theorem ack_active
    {w : World Storage LeaseLog} {leaseID : GoString} {lease : Lease}
    (hrec : w.engine.recoveryErr = none)
    (hl : w.engine.leases.lookup leaseID = some lease) :
    wp (ack leaseID)
      (fun _ w' =>
        w.backend.store.queue.FencedBy lease.task.id lease.leaseID ∧
        w'.backend.store =
          (w.backend.store.finish .completed lease.task.id lease.leaseID).2)
      (fun err _ =>
        (∃ message, err = .text message) ∨
          ¬ w.backend.store.queue.FencedBy lease.task.id lease.leaseID)
      (fun _ => True) w := by
  unfold ack
  rw [wp_bind, wp_ensureRecovered, hrec]
  dsimp only
  rw [wp_bind, wp_read, hl]
  dsimp only
  rw [wp_bind, wp_attempt, wp_onBackend]
  refine Storage.wp_call (Storage.within_true _) ?_ ?_ ?_ ?_
    (fun _ _ => trivial) (fun _ _ _ => trivial)
  · intro env script a _ hok
    have hfenced : w.backend.store.queue.FencedBy lease.task.id lease.leaseID := by
      rcases w.backend.store.finish_cases .completed lease.task.id lease.leaseID with
        ⟨task, htask, _⟩ | ⟨err, _, _, heq⟩
      · exact ⟨task, htask⟩
      · rw [Store.complete_eq_finish, heq] at hok
        cases hok
    dsimp only
    rw [wp_bind]
    exact wp_record_store (fun _ => ⟨hfenced, rfl⟩) (fun message _ => .inl ⟨message, rfl⟩)
  · intro env script err _ herr
    have hnot : ¬ w.backend.store.queue.FencedBy lease.task.id lease.leaseID := by
      rcases w.backend.store.finish_cases .completed lease.task.id lease.leaseID with
        ⟨_, _, heq⟩ | ⟨_, hnot, _, _⟩
      · rw [Store.complete_eq_finish, heq] at herr
        cases herr
      · exact hnot
    dsimp only
    split_ifs
    · rw [wp_bind]
      exact wp_record_store (fun _ => .inr hnot) (fun message _ => .inl ⟨message, rfl⟩)
    · exact .inr hnot
  · intro script message _ _
    exact .inl ⟨message, rfl⟩
  · intro env script message _ _
    exact .inl ⟨message, rfl⟩

/-- The effect of a successful acknowledgement. -/
theorem ack_reply
    {s : System Storage LeaseLog} {leaseID : GoString}
    (h : (s.step (.ack leaseID)).1 = .acked) :
    ∃ engine lease,
      s.process = some engine ∧
      engine.recoveryErr = none ∧
      engine.leases.lookup leaseID = some lease ∧
      s.backend.store.queue.FencedBy lease.task.id lease.leaseID ∧
      (s.step (.ack leaseID)).2.backend.store =
        (s.backend.store.finish .completed lease.task.id lease.leaseID).2 := by
  obtain ⟨engine, hp⟩ :=
    System.step_process (by rw [h]; exact Reply.noConfusion) (by simp)
  simp only [System.step, hp] at h ⊢
  revert h
  refine System.exec_cases (P := fun r : Reply × System Storage LeaseLog => r.1 = .acked →
    ∃ engine' lease, some engine = some engine' ∧ engine'.recoveryErr = none ∧
      engine'.leases.lookup leaseID = some lease ∧
      s.backend.store.queue.FencedBy lease.task.id lease.leaseID ∧
      r.2.backend.store =
        (s.backend.store.finish .completed lease.task.id lease.leaseID).2) ?_
  cases hrec : engine.recoveryErr with
  | some err =>
      unfold ack
      rw [wp_bind, wp_ensureRecovered, hrec]
      exact fun h => by cases h
  | none =>
      cases hl : engine.leases.lookup leaseID with
      | none =>
          unfold ack
          rw [wp_bind, wp_ensureRecovered, hrec]
          dsimp only
          rw [wp_bind, wp_read, hl]
          exact fun h => by cases h
      | some lease =>
          refine wp_mono (ack_active hrec hl) ?_ ?_ ?_
          · rintro _ w' ⟨hfenced, hstore⟩ _
            exact ⟨engine, lease, rfl, hrec, hl, hfenced, hstore⟩
          · exact fun _ _ _ h => by cases h
          · exact fun _ _ h => by cases h

/-- An acknowledgement of a held lease does not report that the lease does not exist. -/
theorem held_ack_found
    {s : System Storage LeaseLog} {lease : Lease} {engine : Engine} {err : GoError}
    (hprocess : s.process = some engine)
    (hrec : engine.recoveryErr = none)
    (h : Held lease s.custody)
    (hreply : (s.step (.ack lease.leaseID)).1 = .failed err) :
    err.is .errLeaseNotFound = false := by
  have hkept := h.kept
  rw [System.custody_serving hprocess hrec] at hkept
  simp only [System.step, hprocess] at hreply
  revert hreply
  refine System.exec_cases (P := fun r : Reply × System Storage LeaseLog => r.1 = .failed err →
    err.is .errLeaseNotFound = false) ?_
  refine wp_mono (ack_active hrec hkept) ?_ ?_ ?_
  · intro _ _ _ h
    cases h
  · rintro err' _ (⟨message, rfl⟩ | hnot) hfailed
    · cases hfailed
      rfl
    · exact absurd h.fencedBy hnot
  · intro _ _ h
    cases h

section Settling

/-- The lease has been acknowledged with effect, or a worker still holds it. -/
def AckedOrHeld (lease : Lease) (c : Custody) : Prop :=
  .completed lease.task.id lease.leaseID ∈ c.store.log ∨ Held lease c

/-- Only a reaping pass at the deadline or later takes a lease away from its worker. -/
theorem Move.ackedOrHeld
    {amb : Prop} {e : Event LeaseLog} {c c' : Custody} {lease : Lease}
    (hmove : Move amb True e c c')
    (hearly : ∀ now, e = .reap now → now < lease.expiresAt)
    (h : AckedOrHeld lease c) :
    AckedOrHeld lease c' := by
  by_cases hdone : .completed lease.task.id lease.leaseID ∈ c'.store.log
  · exact .inl hdone
  · rcases h with hc | hheld
    · exact absurd (hmove.log.subset hc) hdone
    · refine .inr (hmove.held_unless ?_ hheld)
      intro ending hcause
      cases e with
      | ack leaseID =>
          rw [hcause.2]
          exact hdone
      | reap now =>
          have hdue := hcause.1
          have hlate := hearly now rfl
          omega
      | enqueue | fetch | restart => exact hcause.elim

theorem durable_ackedOrHeld
    {s t : System Storage LeaseLog} {es : List (Event LeaseLog × Reply)} {lease : Lease}
    (hrun : durable.Run s es t)
    (hearly : ∀ er ∈ es, ∀ now, er.1 = .reap now → now < lease.expiresAt)
    (hregular : s.Regular True)
    (h : AckedOrHeld lease s.custody) :
    AckedOrHeld lease t.custody :=
  (durable_keeps (K := fun e => ∀ now, e = .reap now → now < lease.expiresAt) hrun hearly
    (fun _ _ _ he hmove hc => hmove.ackedOrHeld he hc) hregular h).2

end Settling

section Turnover

variable {calls : List CallEnv} {appends : List AppendFate}
  {before mid : List (Event LeaseLog × Reply)} {s t : System Storage LeaseLog} {lease : Lease}

/-- A returned lease is held, in a run from empty storage. -/
theorem durable_fetched_held
    {leaseID : GoString} {now timeout : Int}
    (hrun : durable.Run (System.empty calls appends) before s)
    (hguard : durable.guard s (.fetch leaseID now timeout))
    (hreply : (s.step (.fetch leaseID now timeout)).1 = .fetched lease) :
    (s.step (.fetch leaseID now timeout)).2.Regular True ∧
    Held lease (s.step (.fetch leaseID now timeout)).2.custody := by
  obtain ⟨hregular, hconsistent⟩ :=
    durable_consistent hrun System.regular_true System.consistent_empty
  obtain ⟨hregular', hconsistent'⟩ :=
    durable_consistent (Machine.Run.next _ (.refl s) hguard) hregular hconsistent
  have hjournal : ∀ engine, s.process = some engine → engine.config.journal = true :=
    fun engine hp => (durable_covered hrun rfl engine hp).2
  exact ⟨hregular', (held_of_fetched hconsistent hjournal
    (hguard.1 leaseID List.mem_cons_self) hreply hconsistent').2⟩

/-- A task whose lease is acknowledged or held is not in ready storage. -/
theorem AckedOrHeld.not_ready
    {c : Custody} {task : Task}
    (h : AckedOrHeld lease c)
    (hsound : c.Sound)
    (hready : task ∈ c.store.queue.ready) :
    task.id ≠ lease.task.id := by
  intro hsame
  rcases h with hdone | hheld
  · refine (hsound.completed_gone _ _ hdone).1 ?_
    rw [← hsame]
    exact Store.Sound.mem_taskIDs_of_ready hready
  · have hnone := Store.Sound.ready_not_processing hsound hready
    rw [hsame, hheld.fenced] at hnone
    cases hnone

/-- A task is handed out again only after a reaping pass at the deadline or later. -/
theorem durable_refetched
    {leaseID leaseID' : GoString} {now timeout now' timeout' : Int} {lease' : Lease}
    {after : List (Event LeaseLog × Reply)}
    (hrun : durable.Run (System.empty calls appends)
      (before ++ (.fetch leaseID now timeout, .fetched lease) ::
        (mid ++ (.fetch leaseID' now' timeout', .fetched lease') :: after)) t)
    (hsame : lease'.task.id = lease.task.id) :
    ∃ er ∈ mid, ∃ pass, er.1 = .reap pass ∧ lease.expiresAt ≤ pass := by
  by_contra hnone
  obtain ⟨s, hbefore, hguard, hreply, hrest⟩ := hrun.split_at
  obtain ⟨u, hmid, hguard', hreply', _⟩ := hrest.split_at
  obtain ⟨hregular, hheld⟩ := durable_fetched_held hbefore hguard hreply
  have hkept : AckedOrHeld lease u.custody := by
    refine durable_ackedOrHeld hmid ?_ hregular (.inr hheld)
    intro er her pass hpass
    by_contra hlate
    exact hnone ⟨er, her, pass, hpass, not_lt.mp hlate⟩
  have hsound := (durable_consistent hmid hregular hheld.consistent).2.sound
  obtain ⟨rest, hready⟩ := (fetch_reply hreply').ready
  exact hkept.not_ready hsound
    (show lease'.task ∈ u.backend.store.queue.ready by simp [hready]) hsame

/-- The lease that a successful acknowledgement ends, under its own ID. -/
theorem acked_fence
    {leaseID : GoString}
    (hregular : s.Regular True)
    (hreply : (s.step (.ack leaseID)).1 = .acked) :
    ∃ taskID,
      s.backend.store.queue.FencedBy taskID leaseID ∧
      (s.step (.ack leaseID)).2.backend.store =
        (s.backend.store.finish .completed taskID leaseID).2 := by
  obtain ⟨engine, lease, hprocess, _, hl, hfenced, hstore⟩ := ack_reply hreply
  obtain rfl : lease.leaseID = leaseID := (hregular.covered engine hprocess).keyed leaseID lease hl
  exact ⟨lease.task.id, hfenced, hstore⟩

/-- A durable run is one with any restarts. -/
theorem durable_anyRestart
    {es : List (Event LeaseLog × Reply)}
    (hrun : durable.Run s es t) :
    anyRestart.Run s es t := by
  induction hrun with
  | refl => exact .refl _
  | next e _ hguard ih => exact ih.next e hguard.1

/-- A lease is acknowledged at most once, whatever records the starts read. -/
theorem anyRestart_acked_once
    {leaseID : GoString} {after : List (Event LeaseLog × Reply)}
    (hrun : anyRestart.Run (System.empty calls appends)
      (before ++ (.ack leaseID, .acked) :: (mid ++ (.ack leaseID, .acked) :: after)) t) :
    False := by
  obtain ⟨s, hbefore, hguard, hreply, hrest⟩ := hrun.split_at
  obtain ⟨u, hmid, hguard', hreply', _⟩ := hrest.split_at
  obtain ⟨hregular, hsound⟩ := anyRestart_sound hbefore System.regular_true System.sound_empty
  obtain ⟨hregular', hsound'⟩ :=
    anyRestart_sound (Machine.Run.next _ (.refl s) hguard) hregular hsound
  obtain ⟨hregular'', hsound''⟩ := anyRestart_sound hmid hregular' hsound'
  -- The first acknowledgement uses the lease up.
  obtain ⟨taskID, hfenced, hstore⟩ := acked_fence hregular hreply
  have hconsumed : leaseID ∈ u.backend.store.consumed := by
    refine List.mem_filterMap.mpr ⟨.completed taskID leaseID, ?_, rfl⟩
    refine (anyRestart_log hmid hregular').subset ?_
    rw [show (anyRestart.step (.ack leaseID) s).2.backend.store =
      (s.backend.store.finish .completed taskID leaseID).2 from hstore]
    rcases s.backend.store.finish_cases .completed taskID leaseID with
      ⟨task, _, heq⟩ | ⟨_, hnot, _, _⟩
    · rw [heq]
      exact List.mem_append_right _ List.mem_cons_self
    · exact absurd hfenced hnot
  -- The second one would find it among the fences again.
  obtain ⟨taskID', hfenced', _⟩ := acked_fence hregular'' hreply'
  have hfence : leaseID ∈ u.backend.store.queue.fences :=
    MemoryQueue.mem_fences.mpr ⟨_, hfenced'⟩
  exact List.disjoint_of_nodup_append (Store.Sound.fences_nodup hsound'') hconsumed hfence

theorem anyRestart_issued
    {es : List (Event LeaseLog × Reply)} {id : GoString}
    (hrun : anyRestart.Run s es t)
    (h : id ∈ s.issued) :
    id ∈ t.issued := by
  refine hrun.invariant (P := fun u => id ∈ u.issued) ?_ h
  intro u e hu _
  change id ∈ (u.step e).2.issued
  rw [System.step_issued]
  exact List.mem_append_right _ hu

/-- The tasks that a run hands out were enqueued in it. -/
theorem durable_fetched_issued
    {es : List (Event LeaseLog × Reply)} {leaseID : GoString} {now timeout : Int}
    (hrun : durable.Run (System.empty calls appends) es t)
    (h : (.fetch leaseID now timeout, .fetched lease) ∈ es) :
    lease.task.id ∈ t.issued := by
  obtain ⟨s, _, _, _, hbefore, hguard, hreply, hrest⟩ := hrun.split h
  obtain ⟨_, hheld⟩ := durable_fetched_held hbefore hguard hreply
  refine anyRestart_issued (durable_anyRestart hrest)
    (hheld.consistent.sound.taskIDs_issued _ ?_)
  exact Store.Sound.mem_taskIDs_of_processing hheld.consistent.sound hheld.fenced

/-- The leases that a run acknowledges were given out in it. -/
theorem anyRestart_acked_issued
    {es : List (Event LeaseLog × Reply)} {leaseID : GoString}
    (hrun : anyRestart.Run (System.empty calls appends) es t)
    (h : (.ack leaseID, .acked) ∈ es) :
    leaseID ∈ t.issued := by
  obtain ⟨s, _, _, _, hbefore, hguard, hreply, hrest⟩ := hrun.split h
  obtain ⟨hregular, hsound⟩ := anyRestart_sound hbefore System.regular_true System.sound_empty
  obtain ⟨taskID, hfenced, _⟩ := acked_fence hregular hreply
  refine anyRestart_issued hrest ?_
  change leaseID ∈ (s.step (.ack leaseID)).2.issued
  rw [System.step_issued]
  refine List.mem_append_right _
    (Store.Sound.fences_issued hsound _ (List.mem_append_right _ ?_))
  exact MemoryQueue.mem_fences.mpr ⟨_, hfenced⟩

end Turnover

end Moxy
