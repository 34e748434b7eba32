import Moxy.TaskConservation

/-!
# Moxy: journal, memory and store agree on a leased task

A lease is known in up to three places: as a fetch record in the journal, as an
entry of the lease map, and as the fence of a processing task.  The three are
written at different moments, and after a restart the lease map is rebuilt from
the journal alone.  `Custody.Consistent` says that they never disagree: whatever
task a record or an active lease carries is the task that the store keeps under
that fence, as long as it keeps one.
-/

namespace Moxy

open Lib Lib.CrashM

namespace Custody

/-- The lease ID has been used, and what it fences is `task`. -/
def Vouches (c : Custody) (leaseID : GoString) (task : Task) : Prop :=
  leaseID ∈ c.issued ∧
    ∀ taskID stored,
      c.store.queue.processing.lookup taskID = some ⟨stored, leaseID⟩ →
      stored = task

/-- What the process holds in memory agrees with the store. -/
def Knows (c : Custody) : Phase → Prop
  | .down => True
  | .recovering opened => ∀ leaseID r, opened.lookup leaseID = some r →
      r.leaseID = leaseID ∧ c.Vouches leaseID r.task
  | .serving leases => ∀ leaseID lease, leases.lookup leaseID = some lease →
      lease.leaseID = leaseID ∧ c.Vouches leaseID lease.task
  | .leasing leases claim =>
      (∀ leaseID lease, leases.lookup leaseID = some lease →
        lease.leaseID = leaseID ∧ c.Vouches leaseID lease.task) ∧
      c.Vouches claim.leaseID claim.task

/-- Journal, memory and store agree. -/
structure Consistent (c : Custody) : Prop where
  sound : c.Sound
  noted : ∀ entry ∈ c.entries, entry.record.leaseID ∈ c.issued
  entries : ∀ entry ∈ c.entries, entry.record.op = .fetch →
    c.Vouches entry.record.leaseID entry.record.task
  phase : c.Knows c.phase

end Custody

section Vouching

variable {c : Custody} {leaseID : GoString} {task : Task}

variable {amb dur : Prop} {e : Event LeaseLog} {c' : Custody}

theorem Move.issued
    (hmove : Move amb dur e c c') :
    ∀ id ∈ c.issued, id ∈ c'.issued := by
  intro id hid
  cases hmove with
  | waste | enqueue | acquire => exact List.mem_cons_of_mem _ hid
  | note | publish | rollback | abandon | finish | close | drop | stop | reopen
  | reconcile | closeStale | recovered => exact hid

/-- Every move keeps what is vouched for: a new fence is a new lease ID. -/
theorem Move.vouches
    (hmove : Move amb dur e c c')
    (h : c.Vouches leaseID task) :
    c'.Vouches leaseID task := by
  refine ⟨hmove.issued leaseID h.1, ?_⟩
  intro t stored hl
  cases hmove with
  | acquire _ _ hfresh hready =>
      rcases Store.acquire_lookup hready hl with ⟨_, hentry⟩ | hold
      · cases hentry
        exact absurd h.1 hfresh
      · exact h.2 t stored hold
  | rollback | finish => exact h.2 t stored (Store.finish_lookup hl)
  | reconcile =>
      exact h.2 t stored
        ((MemoryQueue.recoverOrphanedProcessing_lookup _ _ _ t _).mp hl).1
  | waste | enqueue | note | publish | abandon | close | drop | stop | reopen
  | closeStale | recovered => exact h.2 t stored hl

/-- What a process knows stays right as long as its phase does not change. -/
theorem Move.knows
    {phase : Phase}
    (hmove : Move amb dur e c c')
    (h : c.Knows phase) :
    c'.Knows phase := by
  cases phase with
  | down => trivial
  | recovering opened =>
      exact fun l r hl => ⟨(h l r hl).1, hmove.vouches (h l r hl).2⟩
  | serving leases =>
      exact fun l lease hl => ⟨(h l lease hl).1, hmove.vouches (h l lease hl).2⟩
  | leasing leases claim =>
      exact ⟨fun l lease hl => ⟨(h.1 l lease hl).1, hmove.vouches (h.1 l lease hl).2⟩,
        hmove.vouches h.2⟩

/-- The lease that an acquisition is about is vouched for. -/
theorem Store.Sound.vouches_acquired
    {issued : List GoString} {s : Store} {next : Task} {rest : List Task}
    (h : s.Sound issued)
    (hfresh : leaseID ∉ issued)
    (hready : s.queue.ready = next :: rest) {t : GoString} {stored : Task}
    (hl : (s.acquire leaseID).2.queue.processing.lookup t =
      some ⟨stored, leaseID⟩) :
    stored = next := by
  rcases Store.acquire_lookup hready hl with ⟨_, hentry⟩ | hold
  · cases hentry
    rfl
  · exfalso
    have hin : leaseID ∈ s.queue.fences :=
      MemoryQueue.mem_fences.mpr ⟨t, stored, hold⟩
    exact hfresh (h.fences_issued _ (List.mem_append_right _ hin))

end Vouching

section Consistency

variable {amb : Prop} {e : Event LeaseLog} {c c' : Custody}

theorem closeRecord_op_ne_fetch
    {op : Op} (hop : op.Closes) (leaseID : GoString) :
    (closeRecord op leaseID).op ≠ .fetch := by
  rintro rfl
  exact hop

/-- A move that leaves the journal alone keeps it consistent. -/
theorem Custody.Consistent.of_entries
    (h : c.Consistent)
    (hmove : Move amb True e c c')
    (hentries : ∀ x ∈ c'.entries, x ∈ c.entries)
    (hphase : c'.Knows c'.phase) :
    c'.Consistent where
  sound := hmove.sound h.sound
  noted x hx := hmove.issued _ (h.noted x (hentries x hx))
  entries x hx hop := hmove.vouches (h.entries x (hentries x hx) hop)
  phase := hphase

/-- A move that appends one entry keeps the journal consistent. -/
theorem Custody.Consistent.of_append
    {entry : JournalEntry}
    (h : c.Consistent)
    (hmove : Move amb True e c c')
    (hentries : c'.entries = c.entries ++ [entry])
    (hissued : entry.record.leaseID ∈ c.issued)
    (hentry : entry.record.op = .fetch →
      c.Vouches entry.record.leaseID entry.record.task)
    (hphase : c'.phase = c.phase) :
    c'.Consistent := by
  refine ⟨hmove.sound h.sound, ?_, ?_, ?_⟩
  · intro x hx
    rw [hentries] at hx
    rcases List.mem_append.mp hx with hold | hlast
    · exact hmove.issued _ (h.noted x hold)
    · rw [List.mem_singleton.mp hlast]
      exact hmove.issued _ hissued
  · intro x hx hop
    rw [hentries] at hx
    rcases List.mem_append.mp hx with hold | hlast
    · exact hmove.vouches (h.entries x hold hop)
    · rw [List.mem_singleton.mp hlast] at hop ⊢
      exact hmove.vouches (hentry hop)
  · rw [hphase]
    exact hmove.knows h.phase

/-- A replay of surviving entries opens only leases that are vouched for. -/
theorem Custody.Consistent.replay
    {journal : LeaseLog}
    (h : c.Consistent)
    (hsub : ∀ x ∈ journal.entries, x ∈ c.entries) :
    c.Knows (.recovering (live journal.records)) := by
  intro leaseID r hr
  obtain ⟨hmem, hid, hop⟩ := live_lookup_some hr
  obtain ⟨entry, hentry, rfl⟩ := List.mem_map.mp hmem
  refine ⟨hid, ?_⟩
  rw [← hid]
  exact h.entries entry (hsub entry hentry) hop

theorem Move.consistent
    (hmove : Move amb True e c c')
    (h : c.Consistent) :
    c'.Consistent := by
  have hself : ∀ x ∈ c.entries, x ∈ c.entries := fun _ hx => hx
  have hknows := h.phase
  have hstays : c'.Knows c.phase := hmove.knows h.phase
  have hmove' := hmove
  cases hmove with
  | waste | enqueue | finish | reconcile =>
      exact h.of_entries hmove' hself hstays
  | acquire _ hp hfresh hready =>
      rw [hp] at hstays
      refine h.of_entries hmove' hself ⟨hstays, List.mem_cons_self, ?_⟩
      exact fun t stored hl =>
        Store.Sound.vouches_acquired h.sound hfresh hready hl
  | note hp acked =>
      rw [hp] at hknows
      exact h.of_append hmove' rfl hknows.2.1 (fun _ => hknows.2) rfl
  | publish hp =>
      rw [hp] at hstays
      refine h.of_entries hmove' hself ?_
      intro leaseID lease hl
      rw [Map.lookup_insert_ite] at hl
      split_ifs at hl with hk
      · cases hl
        subst hk
        exact ⟨rfl, hstays.2⟩
      · exact hstays.1 leaseID lease hl
  | rollback hp =>
      rw [hp] at hstays
      exact h.of_entries hmove' hself hstays.1
  | abandon _ hp =>
      rw [hp] at hstays
      exact h.of_entries hmove' hself hstays.1
  | close hp hactive _ hop acked =>
      rw [hp] at hknows
      refine h.of_append hmove' rfl (hknows _ _ hactive).2.1 ?_ rfl
      exact fun hfetch => absurd hfetch (closeRecord_op_ne_fetch hop _)
  | drop hp =>
      rw [hp] at hstays
      refine h.of_entries hmove' hself ?_
      intro leaseID lease hl
      rw [Map.lookup_erase_ite] at hl
      split_ifs at hl
      exact hstays leaseID lease hl
  | stop => exact h.of_entries hmove' hself trivial
  | reopen _ hdur =>
      obtain ⟨⟨hsub, _⟩, rfl⟩ := hdur trivial
      exact h.of_entries hmove' (fun x hx => hsub.subset hx)
        (hmove'.knows (h.replay (fun x hx => hsub.subset hx)))
  | closeStale hp hopen _ acked =>
      rw [hp] at hknows
      refine h.of_append hmove' rfl (hknows _ _ hopen).2.1 ?_ rfl
      exact fun hfetch =>
        absurd hfetch (closeRecord_op_ne_fetch (show Op.stale.Closes from trivial) _)
  | recovered hp hleases =>
      rw [hp] at hstays
      refine h.of_entries hmove' hself ?_
      intro leaseID lease hl
      obtain ⟨r, hr, _, rfl⟩ := (hleases.exact leaseID lease).mp hl
      exact hstays leaseID r hr

/-- The fence that a vouched lease holds is on its own task. -/
theorem Custody.Consistent.fenced_task
    {leaseID t : GoString} {task : Task}
    (h : c.Consistent)
    (hvouches : c.Vouches leaseID task)
    (hf : c.store.queue.FencedBy t leaseID) :
    t = task.id := by
  obtain ⟨stored, hl⟩ := hf
  have hsame : stored = task := hvouches.2 t stored hl
  have hkey : stored.id = t := Store.Sound.keyed h.sound t _ hl
  rw [← hkey, hsame]

theorem System.consistent_empty
    {calls : List CallEnv} {appends : List AppendFate} :
    (System.empty calls appends).custody.Consistent where
  sound := System.sound_empty
  noted _ h := by cases h
  entries _ h := by cases h
  phase := trivial

/-- Every state of a durable run is consistent. -/
theorem durable_consistent
    {s t : System Storage LeaseLog} {es : List (Event LeaseLog × Reply)}
    (hrun : durable.Run s es t)
    (hregular : s.Regular amb)
    (hs : s.custody.Consistent) :
    t.Regular amb ∧ t.custody.Consistent :=
  durable_keeps (K := fun _ => True) hrun (fun _ _ => trivial)
    (fun _ _ _ _ hmove hc => hmove.consistent hc) hregular hs

end Consistency

end Moxy
