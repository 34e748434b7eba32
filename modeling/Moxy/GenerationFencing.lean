import Moxy.ProcessingCoverage

/-!
# Moxy: generation fencing under ambiguous backend errors

A call that took effect but reported a foreign error leaves an engine with a lease
whose task may have gone on: back to ready, and out again under another lease.
Then two leases of one task are active at once, and the engine keeps retrying the
old one.

The fence decides between them.  Each lease ID is used up at most once; what is
done for one lease leaves the entries of the others alone; and the lease that
fences the task cannot be disturbed before its deadline except by its own `Ack`.
-/

namespace Moxy

open Lib Lib.CrashM

/-- The entries that are fenced by other leases are the same in both stores. -/
def Store.SameBut (leaseID : GoString) (s s' : Store) : Prop :=
  ∀ taskID entry, entry.leaseID ≠ leaseID →
    (s.queue.processing.lookup taskID = some entry ↔
      s'.queue.processing.lookup taskID = some entry)

theorem Store.SameBut.finish
    (ending : Ending) (taskID leaseID : GoString) (s : Store) :
    Store.SameBut leaseID s (s.finish ending taskID leaseID).2 :=
  fun _ _ hne =>
    ⟨fun hl => Store.finish_lookup_other hl hne, Store.finish_lookup⟩

section Expiry

variable {w : World Storage LeaseLog}

/-- Expiring a lease touches no entry of another lease, however it ends. -/
theorem expireLease_sameBut
    (lease : Lease) :
    Store.SameBut lease.leaseID w.backend.store
      (expireLease lease w).state.backend.store := by
  refine wp_state
    (P := fun w' : World Storage LeaseLog =>
      Store.SameBut lease.leaseID w.backend.store w'.backend.store) ?_
  unfold expireLease
  rw [wp_bind, wp_read, wp_bind, wp_attempt]
  rw [wp_onBackend]
  refine wp_expireCall (Storage.wp_fenced (expiryEnding _)
    (R := Store.SameBut lease.leaseID w.backend.store)
    (fun _ _ => rfl) (Storage.within_true _) (fun _ _ _ => Iff.rfl)
    (fun _ => Store.SameBut.finish _ _ _ _) ?_ ?_ ?_ ?_)
  · intro env script _
    exact wp_record_any (fun _ => Store.SameBut.finish _ _ _ _)
      (fun _ _ => Store.SameBut.finish _ _ _ _)
      (fun _ => Store.SameBut.finish _ _ _ _)
  · intro script err _ _ hstale
    dsimp only
    rw [if_pos hstale]
    exact wp_record_any (fun _ _ _ _ => Iff.rfl) (fun _ _ _ _ _ => Iff.rfl)
      (fun _ _ _ _ => Iff.rfl)
  · intro store script message _ _ hR
    exact hR
  · intro store script _ hR
    exact hR

/-- On calm storage the lease that fences its task is acknowledged. -/
theorem ack_calm
    {leaseID : GoString} {lease : Lease}
    (hrec : w.engine.recoveryErr = none)
    (hactive : w.engine.leases.lookup leaseID = some lease)
    (hfenced : w.backend.store.queue.FencedBy lease.task.id lease.leaseID)
    (hcalm : w.CalmFor 1) :
    wp (ack leaseID)
      (fun _ w' => w'.backend.store =
        (w.backend.store.finish .completed lease.task.id lease.leaseID).2)
      (fun _ _ => False) (fun _ => False) w := by
  have hcalls := hcalm.calls.head (show CallEnv.calm.fate = .reports from rfl)
  have happends := hcalm.appends.head (show AppendFate.stored = .stored from rfl)
  unfold ack
  rw [wp_bind, wp_ensureRecovered, hrec]
  dsimp only
  rw [wp_bind, wp_read, hactive]
  dsimp only
  rw [wp_bind, wp_attempt, wp_onBackend]
  refine Storage.wp_call_calm hcalls ?_ ?_
  · intro env _ _
    rw [wp_bind]
    exact wp_record_ok happends (fun _ => rfl)
  · intro env err herr
    rcases w.backend.store.finish_cases .completed lease.task.id lease.leaseID
      with ⟨task, _, heq⟩ | ⟨_, hnot, _, _⟩
    · rw [Store.complete_eq_finish, heq] at herr
      cases herr
    · exact absurd hfenced hnot

end Expiry

section Retention

variable {amb dur : Prop} {e : Event LeaseLog} {c c' : Custody} {lease : Lease}

/-- A lease that fences its task, in a process that has not stopped. -/
structure Retained (lease : Lease) (c : Custody) : Prop where
  settled : c.phase = .down ∨ ∃ leases, c.phase = .serving leases ∧
    leases.lookup lease.leaseID = some lease
  fenced : c.store.queue.FencedBy lease.task.id lease.leaseID

/-- Acknowledgements of other leases, and reaps before the deadline. -/
def Event.Passes (lease : Lease) : Event LeaseLog → Prop
  | .ack leaseID => leaseID ≠ lease.leaseID
  | .reap now => now < lease.expiresAt
  | _ => False

theorem Retained.active_eq
    {leases : Map GoString Lease} {other : Lease}
    (h : Retained lease c)
    (hphase : c.phase = .serving leases)
    (hactive : leases.lookup other.leaseID = some other)
    (hid : other.leaseID = lease.leaseID) :
    other = lease := by
  rcases h.settled with hdown | ⟨leases', hserving, hl⟩
  · rw [hphase] at hdown
    cases hdown
  · rw [hphase] at hserving
    cases hserving
    rw [hid] at hactive
    exact Option.some.inj (hactive.symm.trans hl)

theorem Move.retained
    (hmove : Move amb dur e c c')
    (he : e.Passes lease)
    (h : Retained lease c) :
    Retained lease c' := by
  have hphase : ∀ phase, c.phase = phase →
      phase = .down ∨ ∃ leases, phase = .serving leases := by
    rintro phase rfl
    rcases h.settled with hdown | ⟨leases, hserving, _⟩
    · exact Or.inl hdown
    · exact Or.inr ⟨leases, hserving⟩
  cases hmove with
  | waste | close => exact ⟨h.settled, h.fenced⟩
  | enqueue hev | acquire hev | reopen hev =>
      subst hev
      exact he.elim
  | note hp | publish hp | rollback hp | abandon _ hp | reconcile hp
  | closeStale hp | recovered hp => simpa using hphase _ hp
  | finish hp hactive hcause =>
      refine ⟨h.settled, ?_⟩
      obtain ⟨task, hl⟩ := h.fenced
      refine ⟨task, Store.finish_lookup_other hl ?_⟩
      intro hid
      cases h.active_eq hp hactive hid.symm
      cases e with
      | ack leaseID => exact he hcause.1
      | reap now =>
          have hlate : now < lease.expiresAt := he
          have hdue := hcause.1
          omega
      | enqueue | fetch | restart => exact he.elim
  | drop hp hactive hnot =>
      refine ⟨Or.inr ⟨_, rfl, ?_⟩, h.fenced⟩
      rcases h.settled with hdown | ⟨leases', hserving, hl⟩
      · rw [hp] at hdown
        cases hdown
      · rw [hp] at hserving
        cases hserving
        refine (AList.lookup_erase_ne ?_).trans hl
        intro hid
        cases h.active_eq hp hactive hid.symm
        exact hnot h.fenced
  | stop => exact ⟨Or.inl rfl, h.fenced⟩

end Retention

section Runs

variable {s t : System Storage LeaseLog} {es : List (Event LeaseLog × Reply)}
  {engine : Engine}

/-- A process that answers is still there. -/
theorem System.exec_process
    {α : Type} {s : System Storage LeaseLog} {m : EngineM Storage LeaseLog α}
    {reply : α → Reply} (h : (s.exec engine m reply).1 ≠ .crashed) :
    (s.exec engine m reply).2.process ≠ none := by
  unfold System.exec at h ⊢
  cases hm : m ⟨engine, s.backend, s.journal⟩ with
  | ok a w => simp [System.resume]
  | error err w => simp [System.resume]
  | crashed w => simp [hm] at h

theorem System.step_process_some
    {e : Event LeaseLog}
    (hs : s.process ≠ none)
    (h : (s.step e).1 ≠ .crashed) :
    (s.step e).2.process ≠ none := by
  cases hp : s.process with
  | none => exact absurd hp hs
  | some engine =>
      cases e with
      | restart config orders journal recovered => exact System.exec_process h
      | enqueue | fetch | ack | reap =>
          simp only [System.step, hp] at h ⊢
          exact System.exec_process h

theorem run_process_some
    (hrun : anyRestart.Run s es t)
    (hs : s.process ≠ none)
    (hreplies : ∀ er ∈ es, er.2 ≠ .crashed) :
    t.process ≠ none := by
  induction hrun with
  | refl => exact hs
  | @next t es e hrun hguard ih =>
      refine System.step_process_some
        (ih (fun er her => hreplies er (List.mem_append_left _ her))) ?_
      exact hreplies _ (List.mem_append_right _ List.mem_cons_self)

/-- A run without restarts keeps the recovery result of the process. -/
theorem run_recovered
    (hrun : anyRestart.Run s es t)
    (hkind : ∀ er ∈ es, ∀ config orders journal recovered,
      er.1 ≠ .restart config orders journal recovered)
    (hs : s.Holds (fun w => w.engine.Covered ∧ w.engine.recoveryErr = none)) :
    t.Holds (fun w => w.engine.Covered ∧ w.engine.recoveryErr = none) := by
  refine hrun.keeps
    (P := System.Holds
      (fun w => w.engine.Covered ∧ w.engine.recoveryErr = none))
    (K := fun e => ∀ config orders journal recovered,
      e ≠ .restart config orders journal recovered) ?_ hkind hs
  intro u e hu he _
  refine step_covered (fun _ err => err = none) e hu ?_
  intro config orders journal recovered heq
  exact absurd heq (he config orders journal recovered)

theorem Event.Passes.not_restart
    {e : Event LeaseLog} {lease : Lease} (h : e.Passes lease) :
    ∀ config orders journal recovered,
      e ≠ .restart config orders journal recovered := by
  rintro config orders journal recovered rfl
  exact h

/-- What is known about the lease that fences its task, after such a run. -/
structure Prevails (lease : Lease) (t : System Storage LeaseLog)
    (engine : Engine) : Prop where
  process : t.process = some engine
  recovered : engine.recoveryErr = none
  active : engine.leases.lookup lease.leaseID = some lease
  fenced : t.backend.store.queue.FencedBy lease.task.id lease.leaseID

theorem run_prevails
    {lease : Lease}
    (hrun : anyRestart.Run s es t)
    (hpasses : ∀ er ∈ es, er.1.Passes lease)
    (hreplies : ∀ er ∈ es, er.2 ≠ .crashed)
    (hregular : s.Regular True)
    (hs : Prevails lease s engine) :
    ∃ engine', Prevails lease t engine' := by
  have hstart : Retained lease s.custody :=
    ⟨Or.inr ⟨engine.leases, System.custody_serving hs.process hs.recovered,
      hs.active⟩, hs.fenced⟩
  obtain ⟨_, hend⟩ := anyRestart_keeps hrun hpasses
    (fun _ _ _ he hmove hc => hmove.retained he hc) hregular hstart
  have hrecovered := run_recovered hrun
    (fun er her => (hpasses er her).not_restart)
    (by
      intro engine' hp
      rw [hs.process] at hp
      cases hp
      exact ⟨hregular.covered engine hs.process, hs.recovered⟩)
  have hsome : s.process ≠ none := by
    rw [hs.process]
    exact Option.some_ne_none engine
  obtain ⟨engine', hp⟩ :=
    Option.ne_none_iff_exists'.mp (run_process_some hrun hsome hreplies)
  have hrec : engine'.recoveryErr = none := (hrecovered engine' hp).2
  refine ⟨engine', hp, hrec, ?_, hend.fenced⟩
  rcases hend.settled with hdown | ⟨leases, hserving, hl⟩
  · rw [System.custody_serving hp hrec] at hdown
    cases hdown
  · rw [System.custody_serving hp hrec] at hserving
    cases hserving
    exact hl

/-- A reliable acknowledgement of that lease completes the task. -/
theorem Prevails.ack
    {lease : Lease}
    (h : Prevails lease t engine)
    (hcalm : World.CalmFor 1 ⟨engine, t.backend, t.journal⟩) :
    (t.step (.ack lease.leaseID)).1 = .acked ∧
      (t.step (.ack lease.leaseID)).2.backend.store =
        (t.backend.store.finish .completed lease.task.id lease.leaseID).2 := by
  simp only [System.step, h.process]
  refine System.exec_cases
    (P := fun r : Reply × System Storage LeaseLog => r.1 = .acked ∧
      r.2.backend.store =
        (t.backend.store.finish .completed lease.task.id lease.leaseID).2) ?_
  exact wp_mono (ack_calm h.recovered h.active h.fenced hcalm)
    (fun _ _ hstore => ⟨rfl, hstore⟩) (fun _ _ hf => hf.elim)
    (fun _ hf => hf.elim)

/--
Generation fencing, in every state of every run with arbitrary failures and
restarts: each lease ID is consumed at most once; `Ack(L)` and the expiry of `L`
leave the entries of other leases alone; and a lease that fences its task stays
active and keeps the fence through any calls of `Ack` for other leases and of
`ReapExpired` before its deadline, until a reliable `Ack` of its own completes the
task.
-/
theorem generation_fencing
    {calls : List CallEnv} {appends : List AppendFate}
    (hrun : anyRestart.Run (System.empty calls appends) es s) :
    (∀ leaseID, s.backend.store.consumed.count leaseID ≤ 1) ∧
    (∀ leaseID, Store.SameBut leaseID s.backend.store
      (s.step (.ack leaseID)).2.backend.store) ∧
    (∀ (w : World Storage LeaseLog) (lease : Lease),
      Store.SameBut lease.leaseID w.backend.store
        (expireLease lease w).state.backend.store) ∧
    (∀ engine old current fs t,
      s.process = some engine →
      engine.leases.lookup old.leaseID = some old →
      engine.leases.lookup current.leaseID = some current →
      old.leaseID ≠ current.leaseID →
      old.task.id = current.task.id →
      s.backend.store.queue.FencedBy current.task.id current.leaseID →
      anyRestart.Run s fs t →
      (∀ er ∈ fs, er.2 ≠ .crashed ∧
        (er.1 = .ack old.leaseID ∨
          ∃ now, er.1 = .reap now ∧ now < current.expiresAt)) →
      ∃ engine',
        t.process = some engine' ∧
        engine'.leases.lookup current.leaseID = some current ∧
        t.backend.store.queue.FencedBy current.task.id current.leaseID ∧
        (World.CalmFor 1 ⟨engine', t.backend, t.journal⟩ →
          (t.step (.ack current.leaseID)).1 = .acked ∧
          .completed current.task.id current.leaseID ∈
            (t.step (.ack current.leaseID)).2.backend.store.log ∧
          (t.step (.ack current.leaseID)).2.backend.store.occurrences
            current.task.id = [])) := by
  obtain ⟨hregular, hsound⟩ :=
    anyRestart_sound hrun System.regular_true System.sound_empty
  refine ⟨?_, ?_, fun w lease => expireLease_sameBut lease, ?_⟩
  · intro leaseID
    have hnodup := (List.nodup_append.mp (Store.Sound.fences_nodup hsound)).1
    exact List.nodup_iff_count_le_one.mp hnodup leaseID
  · exact fun leaseID => (System.step_acking leaseID hregular).others
  · intro engine old current fs t hprocess _ hcurrent hne _ hfenced hfs hevents
    have hcovered := hregular.covered engine hprocess
    have hrec : engine.recoveryErr = none := by
      by_contra hfailed
      rw [hcovered.failed_empty hfailed] at hcurrent
      cases hcurrent
    have hpasses : ∀ er ∈ fs, er.1.Passes current := by
      intro er her
      rcases (hevents er her).2 with hack | ⟨now, hreap, hearly⟩
      · rw [hack]
        exact hne
      · rw [hreap]
        exact hearly
    obtain ⟨engine', hprevails⟩ := run_prevails hfs hpasses
      (fun er her => (hevents er her).1) hregular
      ⟨hprocess, hrec, hcurrent, hfenced⟩
    refine ⟨engine', hprevails.process, hprevails.active, hprevails.fenced, ?_⟩
    intro hcalm
    obtain ⟨hreply, hstore⟩ := hprevails.ack hcalm
    obtain ⟨hregular', hsound'⟩ := anyRestart_sound hfs hregular hsound
    have hlogged : .completed current.task.id current.leaseID ∈
        (t.step (.ack current.leaseID)).2.backend.store.log := by
      rw [hstore]
      rcases t.backend.store.finish_cases .completed current.task.id
          current.leaseID with ⟨task, _, heq⟩ | ⟨_, hnot, _, _⟩
      · rw [heq]
        exact List.mem_append_right _ List.mem_cons_self
      · exact absurd hprevails.fenced hnot
    refine ⟨hreply, hlogged, ?_⟩
    have hafter : (t.step (.ack current.leaseID)).2.backend.store.Sound
        t.issued := by
      rw [hstore]
      exact Store.Sound.finish hsound' _ _ _
    exact Store.occurrences_eq_nil (hafter.completed_gone _ _ hlogged).1

/-- The reply to a requeue is lost, and the task is leased again. -/
def lostRequeue : System Storage LeaseLog :=
  anyRestart.final
    (System.empty [.calm, .calm, .calm, ⟨.lost [], 0, []⟩] [])
    [.restart ⟨3, 0, true⟩ ⟨[], [], []⟩ ⟨[], []⟩ [], .enqueue [84] [1, 2],
      .fetch [76] 5 10, .reap 15, .fetch [77] 16 10]

/-- The old lease is acknowledged and reaped, then the new one acknowledged. -/
theorem generation_fencing_two_leases :
    ∃ (es fs : List (Event LeaseLog × Reply)) (t : System Storage LeaseLog)
      (engine' : Engine),
      anyRestart.Run (System.empty
        [.calm, .calm, .calm, ⟨.lost [], 0, []⟩] []) es lostRequeue ∧
      anyRestart.Run lostRequeue fs t ∧
      t.process = some engine' ∧
      engine'.leases.lookup [77] = some ⟨[77], ⟨[84], [1, 2], 1⟩, 16, 26⟩ ∧
      (t.step (.ack [77])).1 = .acked := by
  have hrun : anyRestart.Run _ _ lostRequeue := anyRestart.run_of_admits
    [.restart ⟨3, 0, true⟩ ⟨[], [], []⟩ ⟨[], []⟩ [], .enqueue [84] [1, 2],
      .fetch [76] 5 10, .reap 15, .fetch [77] 16 10]
    (System.empty [.calm, .calm, .calm, ⟨.lost [], 0, []⟩] [])
    (by decide +kernel)
  have hfs := anyRestart.run_of_admits [.ack [76], .reap 25] lostRequeue
    (by decide +kernel)
  have hold : lostRequeue.process.bind (·.leases.lookup [76]) =
      some ⟨[76], ⟨[84], [1, 2], 0⟩, 5, 15⟩ := by decide +kernel
  have hnew : lostRequeue.process.bind (·.leases.lookup [77]) =
      some ⟨[77], ⟨[84], [1, 2], 1⟩, 16, 26⟩ := by decide +kernel
  have hfence : lostRequeue.backend.store.queue.processing.lookup [84] =
      some ⟨⟨[84], [1, 2], 1⟩, [77]⟩ := by decide +kernel
  obtain ⟨engine, hprocess, hold⟩ := Option.bind_eq_some_iff.mp hold
  rw [hprocess, Option.bind_some] at hnew
  obtain ⟨engine', hprocess', hactive, _, hack⟩ :=
    (generation_fencing hrun).2.2.2 engine
      ⟨[76], ⟨[84], [1, 2], 0⟩, 5, 15⟩ ⟨[77], ⟨[84], [1, 2], 1⟩, 16, 26⟩ _ _
      hprocess hold hnew (by decide) rfl ⟨_, hfence⟩ hfs
      (by
        intro er her
        rcases List.mem_cons.mp her with rfl | hrest
        · exact ⟨by decide +kernel, Or.inl rfl⟩
        · have hlast := List.mem_singleton.mp hrest
          rw [hlast]
          exact ⟨by decide +kernel, Or.inr ⟨25, rfl, by decide⟩⟩)
  have hcalls : (anyRestart.final lostRequeue
      [.ack [76], .reap 25]).backend.script = [] := by decide +kernel
  have happends : (anyRestart.final lostRequeue
      [.ack [76], .reap 25]).journal.script = [] := by decide +kernel
  exact ⟨_, _, _, engine', hrun, hfs, hprocess', hactive,
    (hack (World.calmFor_of_nil hcalls happends)).1⟩

end Runs

end Moxy
