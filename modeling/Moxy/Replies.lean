import Moxy.EngineSystem
import Moxy.StoreHistory

/-!
# Moxy: what a successful reply tells

The simulation by custody moves forgets what a caller was told.  The lemmas of
this module go the other way: from the reply of an event to the exact effect that
the event had.
-/

namespace Moxy

open Lib Lib.CrashM

/-- An event that got a reply other than `down` was handled by a process. -/
theorem System.step_process
    {s : System Storage LeaseLog} {e : Event LeaseLog}
    (hreply : (s.step e).1 ≠ .down)
    (he : ∀ config orders journal recovered,
      e ≠ .restart config orders journal recovered) :
    ∃ engine, s.process = some engine := by
  cases hp : s.process with
  | some engine => exact ⟨engine, rfl⟩
  | none =>
      exfalso
      cases e with
      | restart config orders journal recovered =>
          exact he config orders journal recovered rfl
      | enqueue | fetch | ack | reap =>
          simp [System.step, hp] at hreply

/-- What a successful fetch has done. -/
structure FetchEffect (s s' : System Storage LeaseLog) (leaseID : GoString)
    (now timeout : Int) (lease : Lease) : Prop where
  lease_eq : lease = ⟨leaseID, lease.task, now, now + timeout⟩
  timeout_pos : 0 < timeout
  ready : ∃ rest, s.backend.store.queue.ready = lease.task :: rest
  store : s'.backend.store = (s.backend.store.acquire leaseID).2
  process : ∃ engine, s.process = some engine ∧
    engine.recoveryErr = none ∧
    s'.process = some (engine.publish lease) ∧
    (engine.config.journal = true →
      s'.journal.entries = s.journal.entries ++ [⟨lease.fetchRecord, true⟩])

/-- An append that returned nil has stored its record, if there is a journal. -/
theorem wp_record_returned
    {entry : Record} {w : World Storage LeaseLog}
    {ok : Unit → World Storage LeaseLog → Prop}
    {error : GoError → World Storage LeaseLog → Prop}
    {crashed : World Storage LeaseLog → Prop}
    (hok : ∀ journal : LeaseLog,
      (w.engine.config.journal = true →
        journal.entries = w.journal.entries ++ [⟨entry, true⟩]) →
      ok () { w with journal := journal })
    (herror : ∀ err journal, error err { w with journal := journal })
    (hcrash : ∀ journal, crashed { w with journal := journal }) :
    wp (record entry) ok error crashed w := by
  rw [wp_record]
  split_ifs with hj
  · exact LeaseLog.wp_append
      (fun script => hok _ (fun _ => rfl))
      (fun script message => herror _ _)
      (fun script => hcrash _)
      (fun script acked => hcrash _)
  · exact hok w.journal (fun h => absurd h hj)

/-- A fetch that returns has taken the head of ready storage and recorded it. -/
theorem wp_fetch_returned
    {w : World Storage LeaseLog} {leaseID : GoString} {now timeout : Int} :
    wp (fetch leaseID now timeout)
      (fun lease w' =>
        lease = ⟨leaseID, lease.task, now, now + timeout⟩ ∧
        0 < timeout ∧
        (∃ rest, w.backend.store.queue.ready = lease.task :: rest) ∧
        w'.backend.store = (w.backend.store.acquire leaseID).2 ∧
        w.engine.recoveryErr = none ∧
        w'.engine = w.engine.publish lease ∧
        (w.engine.config.journal = true →
          w'.journal.entries =
            w.journal.entries ++ [⟨lease.fetchRecord, true⟩]))
      (fun _ _ => True) (fun _ => True) w := by
  unfold fetch
  split_ifs with htimeout
  · trivial
  rw [wp_bind, wp_ensureRecovered]
  cases hrec : w.engine.recoveryErr with
  | some err => trivial
  | none =>
      dsimp only
      rw [wp_bind, wp_attempt, wp_onBackend]
      refine Storage.wp_call (Storage.within_true _) ?_ ?_
        ?_ ?_ (fun _ _ => trivial) (fun _ _ _ => trivial)
      · intro env script task _ htask
        rw [wp_bind, wp_attempt]
        refine wp_record_returned ?_ ?_ (fun _ => trivial)
        · intro journal hjournal
          rw [wp_bind, wp_onEngine, wp_pure]
          exact ⟨rfl, by omega, Store.acquire_ok htask, rfl, rfl, rfl, hjournal⟩
        · intro err journal
          rw [wp_bind, wp_attempt, wp_onBackend]
          exact Storage.wp_call (Storage.within_true _)
            (fun _ _ _ _ _ => trivial) (fun _ _ _ _ _ => trivial)
            (fun _ _ _ _ => trivial) (fun _ _ _ _ _ => trivial)
            (fun _ _ => trivial) (fun _ _ _ => trivial)
      · intro env script err _ _
        dsimp only
        split_ifs <;> trivial
      · intro script message _ _
        dsimp only
        split_ifs <;> trivial
      · intro env script message _ _
        dsimp only
        split_ifs <;> trivial

theorem fetch_reply
    {s : System Storage LeaseLog} {leaseID : GoString} {now timeout : Int}
    {lease : Lease}
    (h : (s.step (.fetch leaseID now timeout)).1 = .fetched lease) :
    FetchEffect s (s.step (.fetch leaseID now timeout)).2 leaseID now timeout
      lease := by
  obtain ⟨engine, hp⟩ :=
    System.step_process (by rw [h]; exact Reply.noConfusion) (by simp)
  simp only [System.step, hp] at h ⊢
  revert h
  refine System.exec_cases (P := fun r => r.1 = .fetched lease →
    FetchEffect s r.2 leaseID now timeout lease) ?_
  refine wp_mono wp_fetch_returned ?_ ?_ ?_
  · rintro l w' ⟨hlease, hpos, hready, hstore, hrec, hengine, hentries⟩ hreply
    cases Reply.fetched.inj hreply
    refine ⟨hlease, hpos, hready, hstore, engine, hp, hrec, ?_, hentries⟩
    simp only [System.resume]
    rw [hengine]
  · rintro err w' _ hreply
    cases hreply
  · rintro w' _ hreply
    cases hreply

end Moxy
