import Moxy.Custody
import Moxy.ExpirationCoverage

/-!
# Moxy: the engine moves custody

Every event of the concrete system, with every pattern of failures, is a sequence
of custody moves (`System.step_moves`).  The proof follows the text of the five
operations: each backend call and each append contributes at most one move, and
wherever the process may stop, the moves made so far are followed by `stop`.
-/

namespace Moxy

open Lib Lib.CrashM

section Rules

/--
A backend call, for a proof that follows the store: `R` holds of the store that
the call leaves, whether or not the call took effect.
-/
theorem Storage.wp_call_reach
    {α : Type} {effect : CallEnv → Store → Except GoError α × Store}
    {ok : α → Storage → Prop} {error : GoError → Storage → Prop}
    {crashed : Storage → Prop} {s : Storage} {amb : Prop} {R : Store → Prop}
    (hwithin : Within amb s.script)
    (hbefore : R s.store)
    (hafter : ∀ env, R (effect env s.store).2)
    (hok : ∀ env script a, Within amb script →
      (effect env s.store).1 = .ok a →
      ok a ⟨(effect env s.store).2, script⟩)
    (herror : ∀ env script err, Within amb script →
      (effect env s.store).1 = .error err →
      error err ⟨(effect env s.store).2, script⟩)
    (hforeign : ∀ store script message, amb → Within amb script →
      R store → error (.text message) ⟨store, script⟩)
    (hcrash : ∀ store script, Within amb script → R store →
      crashed ⟨store, script⟩) :
    wp (Storage.call effect) ok error crashed s :=
  Storage.wp_call hwithin hok herror
    (fun script message hamb hw => hforeign _ script message hamb hw hbefore)
    (fun env script message hamb hw =>
      hforeign _ script message hamb hw (hafter env))
    (fun script hw => hcrash _ script hw hbefore)
    (fun env script hw => hcrash _ script hw (hafter env))

/-- A fenced call: it removes the task, or reports a stale fence. -/
theorem Storage.wp_fenced
    {effect : CallEnv → Store → Except GoError Unit × Store}
    {ok : Unit → Storage → Prop} {error : GoError → Storage → Prop}
    {crashed : Storage → Prop} {s : Storage} {amb : Prop} {R : Store → Prop}
    {taskID leaseID : GoString} (ending : CallEnv → Ending)
    (heffect : ∀ env store,
      effect env store = store.finish (ending env) taskID leaseID)
    (hwithin : Within amb s.script)
    (hbefore : R s.store)
    (hafter : ∀ env, R (s.store.finish (ending env) taskID leaseID).2)
    (hok : ∀ env script, Within amb script →
      ok () ⟨(s.store.finish (ending env) taskID leaseID).2, script⟩)
    (hstale : ∀ script err, Within amb script →
      ¬ s.store.queue.FencedBy taskID leaseID →
      isStaleLeaseError err = true → error err ⟨s.store, script⟩)
    (hforeign : ∀ store script message, amb → Within amb script →
      R store → error (.text message) ⟨store, script⟩)
    (hcrash : ∀ store script, Within amb script → R store →
      crashed ⟨store, script⟩) :
    wp (Storage.call effect) ok error crashed s := by
  refine Storage.wp_call_reach hwithin hbefore ?_ ?_ ?_ hforeign hcrash
  · intro env
    rw [heffect]
    exact hafter env
  · intro env script _ hw _
    rw [heffect]
    exact hok env script hw
  · intro env script err hw herr
    rw [heffect] at herr ⊢
    rcases s.store.finish_cases (ending env) taskID leaseID with
      ⟨task, _, heq⟩ | ⟨err', hnot, hst, heq⟩
    · rw [heq] at herr
      cases herr
    · rw [heq] at herr ⊢
      cases herr
      exact hstale script err hw hnot hst

/-- An append, for a proof that follows the entries of the journal. -/
theorem wp_record_reach
    {entry : Record} {w : World Storage LeaseLog}
    {ok : Unit → World Storage LeaseLog → Prop}
    {error : GoError → World Storage LeaseLog → Prop}
    {crashed : World Storage LeaseLog → Prop}
    {R : List JournalEntry → Prop}
    (hbefore : R w.journal.entries)
    (hafter : ∀ acked, R (w.journal.entries ++ [⟨entry, acked⟩]))
    (hok : ∀ entries script, R entries →
      ok () { w with journal := ⟨entries, script⟩ })
    (herror : ∀ entries script message, R entries →
      error (.text message) { w with journal := ⟨entries, script⟩ })
    (hcrash : ∀ entries script, R entries →
      crashed { w with journal := ⟨entries, script⟩ }) :
    wp (record entry) ok error crashed w := by
  rw [wp_record]
  split_ifs
  · exact LeaseLog.wp_append
      (fun script => hok _ script (hafter true))
      (fun script message => herror _ script message (hafter false))
      (fun script => hcrash _ script hbefore)
      (fun script acked => hcrash _ script (hafter acked))
  · exact hok w.journal.entries w.journal.script hbefore

end Rules

section Operations

variable {amb dur : Prop} {e : Event LeaseLog} {c : Custody}
  {issued : List GoString} {w : World Storage LeaseLog}

/-- Moves from `c` lead to `w`, whose process is serving. -/
structure Serves (amb dur : Prop) (e : Event LeaseLog) (c : Custody)
    (issued : List GoString) (w : World Storage LeaseLog) : Prop where
  moves : Moves amb dur e c (w.custody (.serving w.engine.leases) issued)
  within : Storage.Within amb w.backend.script
  recovered : w.engine.recoveryErr = none

/-- Moves from `c` lead to `w`, whose process has stopped. -/
structure Falls (amb dur : Prop) (e : Event LeaseLog) (c : Custody)
    (issued : List GoString) (w : World Storage LeaseLog) : Prop where
  moves : Moves amb dur e c (w.custody .down issued)
  within : Storage.Within amb w.backend.script

/-- All ends of an operation are reached by moves from `c`. -/
def Tracked {α : Type} (amb dur : Prop) (e : Event LeaseLog) (c : Custody)
    (issued : List GoString) (m : EngineM Storage LeaseLog α)
    (w : World Storage LeaseLog) : Prop :=
  wp m (fun _ => Serves amb dur e c issued) (fun _ => Serves amb dur e c issued)
    (Falls amb dur e c issued) w

/-- The process may stop after any move. -/
theorem falls_of_moves
    {phase : Phase} {w : World Storage LeaseLog}
    (h : Moves amb dur e c (w.custody phase issued))
    (hwithin : Storage.Within amb w.backend.script) :
    Falls amb dur e c issued w :=
  ⟨h.tail Move.stop, hwithin⟩

theorem enqueue_tracked
    {newID : GoString} {payload : Bytes}
    (hrec : w.engine.recoveryErr = none)
    (hwithin : Storage.Within amb w.backend.script)
    (hfresh : newID ∉ issued) :
    Tracked amb dur (.enqueue newID payload)
      (w.custody (.serving w.engine.leases) issued) (newID :: issued)
      (enqueue newID payload) w := by
  unfold Tracked enqueue onBackend
  rw [wp_bind, wp_ensureRecovered, hrec]
  simp only [wp_bind, wp_pure, wp_zoom]
  refine Storage.wp_call_reach
    (R := fun store => Moves amb dur (.enqueue newID payload)
      (w.custody (.serving w.engine.leases) issued)
      ⟨store, w.journal.entries, .serving w.engine.leases, newID :: issued⟩)
    hwithin ?_ ?_ ?_ ?_ ?_ ?_
  · exact Relation.ReflTransGen.single (Move.waste (by simp [Event.newIDs]))
  · exact fun _ =>
      Relation.ReflTransGen.single (Move.enqueue rfl rfl hfresh)
  · exact fun _ _ _ hw _ =>
      ⟨Relation.ReflTransGen.single (Move.enqueue rfl rfl hfresh), hw, hrec⟩
  · exact fun _ _ _ hw _ =>
      ⟨Relation.ReflTransGen.single (Move.enqueue rfl rfl hfresh), hw, hrec⟩
  · exact fun _ _ _ _ hw hmoves => ⟨hmoves, hw, hrec⟩
  · exact fun _ _ hw hmoves => falls_of_moves hmoves hw

/-- The rest of a fetch once the task has left ready storage. -/
theorem fetch_claimed
    {leases : Map GoString Lease} (claim : Lease)
    (hrec : w.engine.recoveryErr = none)
    (hwithin : Storage.Within amb w.backend.script)
    (hleases : w.engine.leases = leases)
    (hheld : w.backend.store.queue.FencedBy claim.task.id claim.leaseID)
    (hmoves : Moves amb dur e c (w.custody (.leasing leases claim) issued)) :
    Tracked amb dur e c issued
      (do
        match ← attempt (record claim.fetchRecord) with
        | .error err =>
            match ← attempt
                (onBackend (Backend.requeue claim.task.id claim.leaseID)) with
            | .error requeueErr => fail (.join err requeueErr)
            | .ok _ => fail err
        | .ok _ => do
            onEngine (Engine.publish claim)
            pure claim : EngineM Storage LeaseLog Lease) w := by
  subst hleases
  unfold Tracked
  rw [wp_bind, wp_attempt]
  refine wp_record_reach
    (R := fun entries => Moves amb dur e c
      ⟨w.backend.store, entries, .leasing w.engine.leases claim, issued⟩)
    hmoves (fun acked => hmoves.tail (Move.note rfl acked)) ?_ ?_ ?_
  · intro entries script hnoted
    rw [wp_bind, wp_onEngine, wp_pure]
    exact ⟨hnoted.tail (Move.publish rfl), hwithin, hrec⟩
  · intro entries script message hnoted
    rw [wp_bind, wp_attempt, wp_onBackend]
    have hrolled := hnoted.tail (Move.rollback rfl)
    refine Storage.wp_fenced (fun _ => .requeued)
      (R := fun store =>
        Moves amb dur e c ⟨store, entries, .down, issued⟩ ∧
        (amb → Moves amb dur e c
          ⟨store, entries, .serving w.engine.leases, issued⟩))
      (fun _ _ => rfl) hwithin ?_ ?_ ?_ ?_ ?_ ?_
    · exact ⟨hnoted.tail Move.stop,
        fun hamb => hnoted.tail (Move.abandon hamb rfl)⟩
    · exact fun _ => ⟨hrolled.tail Move.stop, fun _ => hrolled⟩
    · exact fun _ _ hw => ⟨hrolled, hw, hrec⟩
    · exact fun _ _ _ hnot _ => absurd hheld hnot
    · exact fun _ _ _ hamb hw hR => ⟨hR.2 hamb, hw, hrec⟩
    · exact fun _ _ hw hR => ⟨hR.1, hw⟩
  · exact fun _ _ hnoted => falls_of_moves hnoted hwithin

theorem fetch_tracked
    {leaseID : GoString} {now timeout : Int}
    (hrec : w.engine.recoveryErr = none)
    (hwithin : Storage.Within amb w.backend.script)
    (hfresh : leaseID ∉ issued) :
    Tracked amb dur (.fetch leaseID now timeout)
      (w.custody (.serving w.engine.leases) issued) (leaseID :: issued)
      (fetch leaseID now timeout) w := by
  have hwaste : Moves amb dur (.fetch leaseID now timeout)
      (w.custody (.serving w.engine.leases) issued)
      (w.custody (.serving w.engine.leases) (leaseID :: issued)) :=
    Relation.ReflTransGen.single (Move.waste (by simp [Event.newIDs]))
  unfold Tracked fetch
  split_ifs
  · exact ⟨hwaste, hwithin, hrec⟩
  rw [wp_bind, wp_ensureRecovered, hrec]
  dsimp only
  rw [wp_bind, wp_attempt, wp_onBackend]
  rcases w.backend.store.acquire_cases leaseID with
    ⟨next, rest, hready, heq⟩ | ⟨_, heq⟩
  · have hacquired : Moves amb dur (.fetch leaseID now timeout)
        (w.custody (.serving w.engine.leases) issued)
        ⟨(w.backend.store.acquire leaseID).2, w.journal.entries,
          .leasing w.engine.leases ⟨leaseID, next, now, now + timeout⟩,
          leaseID :: issued⟩ :=
      Relation.ReflTransGen.single (Move.acquire rfl rfl hfresh hready)
    refine Storage.wp_call_reach
      (R := fun store =>
        Moves amb dur (.fetch leaseID now timeout)
          (w.custody (.serving w.engine.leases) issued)
          ⟨store, w.journal.entries, .down, leaseID :: issued⟩ ∧
        (amb → Moves amb dur (.fetch leaseID now timeout)
          (w.custody (.serving w.engine.leases) issued)
          ⟨store, w.journal.entries, .serving w.engine.leases,
            leaseID :: issued⟩))
      hwithin ?_ ?_ ?_ ?_ ?_ ?_
    · exact ⟨hwaste.tail Move.stop, fun _ => hwaste⟩
    · exact fun _ => ⟨hacquired.tail Move.stop,
        fun hamb => hacquired.tail (Move.abandon hamb rfl)⟩
    · intro _ script task hw htask
      have hsame : next = task := by
        rw [heq] at htask
        exact Except.ok.inj htask
      subst hsame
      refine fetch_claimed ⟨leaseID, next, now, now + timeout⟩
        hrec hw rfl ?_ hacquired
      rw [heq]
      exact ⟨next, AList.lookup_insert _⟩
    · intro _ script err _ herr
      rw [heq] at herr
      cases herr
    · intro store script message hamb hw hR
      dsimp only
      split_ifs
      · exact ⟨hR.2 hamb, hw, hrec⟩
      · exact ⟨hR.2 hamb, hw, hrec⟩
    · exact fun _ _ hw hR => ⟨hR.1, hw⟩
  · refine Storage.wp_call_reach
      (R := fun store => store = w.backend.store)
      hwithin rfl ?_ ?_ ?_ ?_ ?_
    · exact fun _ => congrArg Prod.snd heq
    · intro _ script task _ htask
      rw [heq] at htask
      cases htask
    · intro _ script err hw _
      rw [heq]
      dsimp only
      split_ifs
      · exact ⟨hwaste, hw, hrec⟩
      · exact ⟨hwaste, hw, hrec⟩
    · rintro store script message _ hw rfl
      dsimp only
      split_ifs
      · exact ⟨hwaste, hw, hrec⟩
      · exact ⟨hwaste, hw, hrec⟩
    · rintro store script hw rfl
      exact falls_of_moves hwaste hw

/-- Appending a close record for a lease that has lost its task. -/
theorem record_close_tracked
    {op : Op} {lease : Lease}
    (hserves : Serves amb dur e c issued w)
    (hactive : w.engine.leases.lookup lease.leaseID = some lease)
    (hnot : ¬ w.backend.store.queue.FencedBy lease.task.id lease.leaseID)
    (hop : op.Closes) :
    wp (record (closeRecord op lease.leaseID))
      (fun _ w' => Serves amb dur e c issued w' ∧
        w'.engine = w.engine ∧ w'.backend = w.backend)
      (fun _ w' => Serves amb dur e c issued w' ∧ w'.engine = w.engine)
      (Falls amb dur e c issued) w := by
  have hmoves := hserves.moves
  refine wp_record_reach
    (R := fun entries => Moves amb dur e c
      ⟨w.backend.store, entries, .serving w.engine.leases, issued⟩)
    hmoves (fun acked => hmoves.tail (Move.close rfl hactive hnot hop acked))
    ?_ ?_ ?_
  · exact fun _ _ hR => ⟨⟨hR, hserves.within, hserves.recovered⟩, rfl, rfl⟩
  · exact fun _ _ _ hR => ⟨⟨hR, hserves.within, hserves.recovered⟩, rfl⟩
  · exact fun _ _ hR => falls_of_moves hR hserves.within

/-- Deleting a lease that has lost its task. -/
theorem Serves.dropLease
    {lease : Lease}
    (h : Serves amb dur e c issued w)
    (hactive : w.engine.leases.lookup lease.leaseID = some lease)
    (hnot : ¬ w.backend.store.queue.FencedBy lease.task.id lease.leaseID) :
    Serves amb dur e c issued
      { w with engine := w.engine.dropLease lease.leaseID } :=
  ⟨h.moves.tail (Move.drop rfl hactive hnot), h.within, h.recovered⟩

theorem ack_tracked
    {leaseID : GoString}
    (hrec : w.engine.recoveryErr = none)
    (hwithin : Storage.Within amb w.backend.script)
    (hkeyed : ∀ k lease, w.engine.leases.lookup k = some lease →
      lease.leaseID = k) :
    Tracked amb dur (.ack leaseID)
      (w.custody (.serving w.engine.leases) issued) issued
      (ack leaseID) w := by
  have hstart : Serves amb dur (.ack leaseID)
      (w.custody (.serving w.engine.leases) issued) issued w :=
    ⟨Relation.ReflTransGen.refl, hwithin, hrec⟩
  unfold Tracked ack
  rw [wp_bind, wp_ensureRecovered, hrec]
  dsimp only
  rw [wp_bind, wp_read]
  cases hactive : w.engine.leases.lookup leaseID with
  | none => exact hstart
  | some lease =>
      have hid : lease.leaseID = leaseID := hkeyed leaseID lease hactive
      subst hid
      have hfinish : ∀ ending : Ending, ending = .completed →
          Moves amb dur (.ack lease.leaseID)
            (w.custody (.serving w.engine.leases) issued)
            ⟨(w.backend.store.finish ending lease.task.id lease.leaseID).2,
              w.journal.entries, .serving w.engine.leases, issued⟩ :=
        fun ending hend => Relation.ReflTransGen.single
          (Move.finish rfl hactive ⟨rfl, hend⟩)
      dsimp only
      rw [wp_bind, wp_attempt, wp_onBackend]
      refine Storage.wp_fenced (fun _ => .completed)
        (R := fun store => Moves amb dur (.ack lease.leaseID)
          (w.custody (.serving w.engine.leases) issued)
          ⟨store, w.journal.entries, .serving w.engine.leases, issued⟩)
        (fun _ _ => rfl) hwithin Relation.ReflTransGen.refl
        (fun _ => hfinish _ rfl) ?_ ?_ ?_ ?_
      · intro _ script hw
        dsimp only
        rw [wp_bind]
        refine wp_mono
          (record_close_tracked ⟨hfinish _ rfl, hw, hrec⟩ hactive
            (Store.finish_not_fenced _ _ _ _) (show Op.ack.Closes from trivial))
          ?_ (fun _ _ h => h.1) (fun _ h => h)
        rintro _ w' ⟨hserves, hengine, hbackend⟩
        refine hserves.dropLease ?_ ?_
        · rw [hengine]
          exact hactive
        · rw [hbackend]
          exact Store.finish_not_fenced _ _ _ _
      · intro script err hw hnot hstale
        dsimp only
        rw [if_pos hstale, wp_bind]
        refine wp_mono
          (record_close_tracked ⟨hstart.moves, hw, hrec⟩ hactive
            hnot (show Op.stale.Closes from trivial))
          ?_ (fun _ _ h => h.1) (fun _ h => h)
        rintro _ w' ⟨hserves, hengine, hbackend⟩
        refine hserves.dropLease ?_ ?_
        · rw [hengine]
          exact hactive
        · rw [hbackend]
          exact hnot
      · intro store script message _ hw hR
        exact ⟨hR, hw, hrec⟩
      · exact fun _ _ hw hR => falls_of_moves hR hw

/-- The ending that an expired lease meets. -/
def expiryEnding (dead : Bool) (env : CallEnv) : Ending :=
  if dead then .deadLettered (goString "max attempts exceeded") env.now
  else .requeued

theorem wp_expireCall
    {ok : Unit → Storage → Prop} {error : GoError → Storage → Prop}
    {crashed : Storage → Prop} {s : Storage} {dead : Bool} {lease : Lease}
    (h : wp (Storage.call (fun env store =>
        store.finish (expiryEnding dead env) lease.task.id lease.leaseID))
      ok error crashed s) :
    wp (expireCall dead lease) ok error crashed s := by
  cases dead with
  | true => exact h
  | false => exact h

theorem expireLease_tracked
    {now : Int} {lease : Lease}
    (hserves : Serves amb dur (.reap now) c issued w)
    (hactive : w.engine.leases.lookup lease.leaseID = some lease)
    (hdue : lease.expiresAt ≤ now) :
    wp (expireLease lease)
      (fun _ w' => Serves amb dur (.reap now) c issued w' ∧
        w'.engine = w.engine ∧
        ¬ w'.backend.store.queue.FencedBy lease.task.id lease.leaseID)
      (fun _ w' => Serves amb dur (.reap now) c issued w' ∧
        w'.engine = w.engine)
      (Falls amb dur (.reap now) c issued) w := by
  have hrec := hserves.recovered
  have hfinish : ∀ dead env,
      Moves amb dur (.reap now) c
        ⟨(w.backend.store.finish (expiryEnding dead env)
            lease.task.id lease.leaseID).2,
          w.journal.entries, .serving w.engine.leases, issued⟩ := by
    intro dead env
    refine hserves.moves.tail (Move.finish rfl hactive ⟨hdue, ?_⟩)
    cases dead <;> simp [expiryEnding]
  unfold expireLease
  rw [wp_bind, wp_read, wp_bind, wp_attempt]
  rw [wp_onBackend]
  refine wp_expireCall (Storage.wp_fenced (expiryEnding _)
    (R := fun store => Moves amb dur (.reap now) c
      ⟨store, w.journal.entries, .serving w.engine.leases, issued⟩)
    (fun _ _ => rfl) hserves.within hserves.moves (hfinish _) ?_ ?_ ?_ ?_)
  · intro env script hw
    have hcloses :
        (if w.engine.shouldDeadLetter lease then Op.deadLetter
          else Op.expire).Closes := by
      cases w.engine.shouldDeadLetter lease <;> trivial
    refine wp_mono
      (record_close_tracked ⟨hfinish _ env, hw, hrec⟩ hactive
        (Store.finish_not_fenced _ _ _ _) hcloses)
      ?_ (fun _ _ h => h) (fun _ h => h)
    rintro _ w' ⟨hs, hengine, hbackend⟩
    refine ⟨hs, hengine, ?_⟩
    rw [hbackend]
    exact Store.finish_not_fenced _ _ _ _
  · intro script err hw hnot hstale
    dsimp only
    rw [if_pos hstale]
    refine wp_mono
      (record_close_tracked ⟨hserves.moves, hw, hrec⟩ hactive hnot
        (show Op.stale.Closes from trivial))
      ?_ (fun _ _ h => h) (fun _ h => h)
    rintro _ w' ⟨hs, hengine, hbackend⟩
    refine ⟨hs, hengine, ?_⟩
    rw [hbackend]
    exact hnot
  · intro store script message _ hw hR
    exact ⟨⟨hR, hw, hrec⟩, rfl⟩
  · exact fun _ _ hw hR => falls_of_moves hR hw

/-- Only the lease map and the recovery result of the memory are tracked. -/
theorem Serves.reschedule
    {engine : Engine}
    (h : Serves amb dur e c issued w)
    (hleases : engine.leases = w.engine.leases)
    (hrec : engine.recoveryErr = w.engine.recoveryErr) :
    Serves amb dur e c issued { w with engine := engine } := by
  refine ⟨?_, h.within, hrec.trans h.recovered⟩
  rw [hleases]
  exact h.moves

theorem reapExpired_tracked
    {now : Int}
    (hrec : w.engine.recoveryErr = none)
    (hwithin : Storage.Within amb w.backend.script)
    (hkeyed : ∀ k lease, w.engine.leases.lookup k = some lease →
      lease.leaseID = k) :
    Tracked amb dur (.reap now)
      (w.custody (.serving w.engine.leases) issued) issued
      (reapExpired now) w := by
  have hstart : Serves amb dur (.reap now)
      (w.custody (.serving w.engine.leases) issued) issued w :=
    ⟨Relation.ReflTransGen.refl, hwithin, hrec⟩
  refine wp_mono (wp_reapExpired
    (I := fun _ w' => Serves amb dur (.reap now)
        (w.custody (.serving w.engine.leases) issued) issued w' ∧
      ∀ k lease, w'.engine.leases.lookup k = some lease → lease.leaseID = k)
    (F := fun _ _ => Serves amb dur (.reap now)
      (w.custody (.serving w.engine.leases) issued) issued)
    ?_ ?_ (fun _ _ => hstart) (fun _ => ⟨hstart, hkeyed⟩)) ?_
    (fun _ _ hfalse => hfalse.elim) (fun _ h => h)
  · rintro _ w' item ⟨hs, hk⟩ _ _ _
    exact ⟨hs.reschedule rfl rfl, hk⟩
  · rintro _ w' item lease ⟨hs, hk⟩ _ _ hactive hexpired
    have hpop : Serves amb dur (.reap now)
        (w.custody (.serving w.engine.leases) issued) issued
        { w' with engine := w'.engine.popExpiration } := hs.reschedule rfl rfl
    have hid : lease.leaseID = item.leaseID := hk _ lease hactive
    rw [← hid] at hactive ⊢
    refine wp_mono (expireLease_tracked hpop hactive hexpired) ?_ ?_ (fun _ h => h)
    · rintro _ w'' ⟨hs', hengine, hnot⟩
      have hdrop := hs'.dropLease (by rw [hengine]; exact hactive) hnot
      rw [hengine] at hdrop
      refine ⟨hdrop, ?_⟩
      intro k l hl
      simp only [Engine.dropLease, Map.lookup_erase_ite] at hl
      split_ifs at hl
      exact hk k l hl
    · rintro err w'' ⟨hs', hengine⟩
      exact hs'.reschedule (by rw [hengine]; rfl) (by rw [hengine]; rfl)
  · exact fun _ _ hr => hr.elim (fun _ _ hI => hI.1) (fun _ _ _ hF => hF)

end Operations

section Recovery

variable {amb dur : Prop} {e : Event LeaseLog} {c : Custody}
  {issued : List GoString} {w : World Storage LeaseLog}

theorem mem_openFences
    {order : List GoString} {records : List Record} {taskID leaseID : GoString} :
    (⟨taskID, leaseID⟩ : LeaseFence) ∈ openFences order (live records) ↔
      ∃ r, (live records).lookup leaseID = some r ∧ r.task.id = taskID := by
  unfold openFences
  rw [List.mem_map]
  constructor
  · rintro ⟨⟨k, r⟩, hb, heq⟩
    have hkey : r.leaseID = k := mem_range_live hb
    have hlookup := (Map.mem_range order _ _ _).mp hb
    injection heq with htask hlease
    subst hkey
    subst hlease
    exact ⟨r, hlookup, htask⟩
  · rintro ⟨r, hlookup, htask⟩
    refine ⟨(leaseID, r), (Map.mem_range order _ _ _).mpr hlookup, ?_⟩
    rw [← htask, ← live_lookup_leaseID hlookup]

/-- The fences that a reconciliation leaves. -/
theorem MemoryQueue.recover_fencedBy
    {q : MemoryQueue} {order : List GoString} {active : List LeaseFence}
    {taskID leaseID : GoString} :
    (q.recoverOrphanedProcessing order active).2.FencedBy taskID leaseID ↔
      q.FencedBy taskID leaseID ∧ ⟨taskID, leaseID⟩ ∈ active := by
  unfold MemoryQueue.FencedBy
  simp only [MemoryQueue.recoverOrphanedProcessing_lookup]
  constructor
  · rintro ⟨task, hl, hin⟩
    exact ⟨⟨task, hl⟩, hin⟩
  · rintro ⟨⟨task, hl⟩, hin⟩
    exact ⟨task, hl, hin⟩

/-- The matched leases are the open leases whose fence is in place. -/
theorem mem_matched_iff
    {q : MemoryQueue} {order order' : List GoString} {records : List Record}
    {result : RecoveryResult}
    (hresult :
      (q.recoverOrphanedProcessing order
        (openFences order' (live records))).1 = .ok result)
    (leaseID : GoString) :
    leaseID ∈ result.matchedLeaseIDs ↔
      ∃ r, (live records).lookup leaseID = some r ∧
        (q.recoverOrphanedProcessing order
          (openFences order' (live records))).2.FencedBy r.task.id leaseID := by
  rw [MemoryQueue.recoverOrphanedProcessing_matched order _ q hresult]
  constructor
  · rintro ⟨taskID, ⟨task, id⟩, hl, rfl, hin⟩
    obtain ⟨r, hr, rfl⟩ := mem_openFences.mp hin
    exact ⟨r, hr, MemoryQueue.recover_fencedBy.mpr ⟨⟨task, hl⟩, hin⟩⟩
  · rintro ⟨r, hr, hf⟩
    obtain ⟨⟨task, hl⟩, hin⟩ := MemoryQueue.recover_fencedBy.mp hf
    exact ⟨r.task.id, ⟨task, leaseID⟩, hl, rfl, hin⟩

/-- What a finished restore publishes. -/
theorem recovered_publishMatched
    {q : MemoryQueue} {order order' : List GoString} {records : List Record}
    {result : RecoveryResult}
    (hresult :
      (q.recoverOrphanedProcessing order
        (openFences order' (live records))).1 = .ok result)
    (restored : List GoString) (config : EngineConfig) :
    Recovered (live records)
      (q.recoverOrphanedProcessing order (openFences order' (live records))).2
      (publishMatched result.matchedLeaseIDs ((live records).range restored)
        (Engine.blank config)).leases where
  complete taskID leaseID hf :=
    mem_openFences.mp (MemoryQueue.recover_fencedBy.mp hf).2
  exact leaseID lease := by
    rw [publishMatched_lookup]
    constructor
    · intro h
      split_ifs at h with hin
      obtain ⟨r, hr, rfl⟩ := Option.map_eq_some_iff.mp h
      obtain ⟨r', hr', hf⟩ := (mem_matched_iff hresult leaseID).mp hin
      have hsame : r' = r := Option.some.inj (hr'.symm.trans hr)
      subst hsame
      exact ⟨r', hr, hf, rfl⟩
    · rintro ⟨r, hr, hf, rfl⟩
      rw [if_pos ((mem_matched_iff hresult leaseID).mpr ⟨r, hr, hf⟩), hr]
      rfl

/-- Moves from `c` lead to `w`, whose process is reading the journal. -/
structure Restores (amb dur : Prop) (e : Event LeaseLog) (c : Custody)
    (issued : List GoString) (opened : Map GoString Record)
    (w : World Storage LeaseLog) : Prop where
  moves : Moves amb dur e c (w.custody (.recovering opened) issued)
  within : Storage.Within amb w.backend.script

theorem recordStale_tracked
    {opened : Map GoString Record} {matchedIDs : Finset GoString}
    {leaseIDs : List GoString} {w : World Storage LeaseLog}
    (h : Restores amb dur e c issued opened w)
    (hstale : ∀ leaseID ∈ leaseIDs, leaseID ∉ matchedIDs →
      ∃ r : Record, r.leaseID = leaseID ∧ opened.lookup leaseID = some r ∧
        ¬ w.backend.store.queue.FencedBy r.task.id leaseID) :
    wp (recordStale matchedIDs leaseIDs)
      (fun _ w' => Restores amb dur e c issued opened w' ∧
        w'.engine = w.engine ∧ w'.backend = w.backend)
      (fun _ w' => Restores amb dur e c issued opened w' ∧
        w'.engine = w.engine)
      (Falls amb dur e c issued) w := by
  refine wp_recordStale
    (I := fun _ w' => Restores amb dur e c issued opened w' ∧
      w'.engine = w.engine ∧ w'.backend = w.backend) ?_ ⟨h, rfl, rfl⟩
  rintro _ leaseID w' hin hunmatched ⟨h', hengine, hbackend⟩
  obtain ⟨r, rfl, hopen, hnot⟩ := hstale leaseID hin hunmatched
  rw [← hbackend] at hnot
  refine wp_record_reach
    (R := fun entries => Moves amb dur e c
      ⟨w'.backend.store, entries, .recovering opened, issued⟩)
    h'.moves
    (fun acked => h'.moves.tail (Move.closeStale rfl hopen hnot acked))
    ?_ ?_ ?_
  · exact fun _ _ hR => ⟨⟨hR, h'.within⟩, hengine, hbackend⟩
  · exact fun _ _ _ hR => ⟨⟨hR, h'.within⟩, hengine⟩
  · exact fun _ _ hR => falls_of_moves hR h'.within

/-- The state after a construction, whether or not recovery succeeded. -/
structure Starts (amb dur : Prop) (e : Event LeaseLog) (c : Custody)
    (issued : List GoString) (w : World Storage LeaseLog) : Prop where
  moves : Moves amb dur e c (w.custody w.engine.phase issued)
  within : Storage.Within amb w.backend.script

theorem failRecovery_tracked
    {opened : Map GoString Record} {err : GoError}
    (h : Restores amb dur e c issued opened w) :
    wp (failRecovery err) (fun _ => Starts amb dur e c issued)
      (fun _ => Starts amb dur e c issued) (Falls amb dur e c issued) w :=
  ⟨h.moves.tail Move.stop, h.within⟩

theorem newEngine_tracked
    {config : EngineConfig} {orders : RestoreOrders} {recovered : List Record}
    (h : Restores amb dur e c issued (live recovered) w) :
    wp (newEngine config orders recovered) (fun _ => Starts amb dur e c issued)
      (fun _ => Starts amb dur e c issued) (Falls amb dur e c issued) w := by
  unfold newEngine restore onBackend
  rw [wp_bind, wp_onEngine, wp_bind, wp_attempt, wp_zoom]
  refine Storage.wp_call_reach
    (R := fun store => Moves amb dur e c
      ⟨store, w.journal.entries, .recovering (live recovered), issued⟩)
    h.within h.moves
    (fun env => h.moves.tail (Move.reconcile rfl env.order orders.fences))
    ?_ ?_ ?_ ?_
  · intro env script result hw hresult
    have hreconciled := h.moves.tail
      (Move.reconcile rfl env.order orders.fences)
    rw [wp_bind, wp_attempt]
    refine wp_mono (recordStale_tracked ⟨hreconciled, hw⟩ ?_) ?_ ?_ (fun _ h => h)
    · intro leaseID hmem hin
      obtain ⟨⟨k, r⟩, hb, rfl⟩ := List.mem_map.mp hmem
      have hlookup := (Map.mem_range orders.stale _ _ _).mp hb
      refine ⟨r, live_lookup_leaseID hlookup, hlookup, fun hf => hin ?_⟩
      exact (mem_matched_iff hresult k).mpr ⟨r, hlookup, hf⟩
    · rintro _ w' ⟨hs, hengine, hbackend⟩
      dsimp only
      rw [wp_onEngine, hengine]
      refine ⟨?_, hs.within⟩
      have hphase : (publishMatched result.matchedLeaseIDs
          ((live recovered).range orders.restored)
          (Engine.blank config)).phase =
          .serving (publishMatched result.matchedLeaseIDs
            ((live recovered).range orders.restored)
            (Engine.blank config)).leases := by
        unfold Engine.phase
        rw [(publishMatched_config _ _ _).2]
        rfl
      rw [hphase]
      refine hs.moves.tail (Move.recovered rfl ?_)
      have hq : w'.backend.store.queue =
          (w.backend.store.queue.recoverOrphanedProcessing env.order
            (openFences orders.fences (live recovered))).2 := by
        rw [hbackend]
        rfl
      show Recovered _ w'.backend.store.queue _
      rw [hq]
      exact recovered_publishMatched hresult orders.restored config
    · rintro err w' ⟨hs, _⟩
      exact failRecovery_tracked hs
  · intro env script err _ herr
    cases herr
  · intro store script message _ hw hR
    exact failRecovery_tracked ⟨hR, hw⟩
  · exact fun _ _ hw hR => falls_of_moves hR hw

end Recovery

section Events

variable {amb dur : Prop}

/-- The operation changes nothing and the process goes on. -/
def Idle {α : Type} (m : EngineM Storage LeaseLog α)
    (w : World Storage LeaseLog) : Prop :=
  wp m (fun _ w' => w' = w) (fun _ w' => w' = w) (fun _ => False) w

theorem idle_of_ensureRecovered
    {α : Type} {m : EngineM Storage LeaseLog α} {w : World Storage LeaseLog}
    (h : w.engine.recoveryErr ≠ none) :
    Idle (do ensureRecovered; m) w := by
  unfold Idle
  rw [wp_bind, wp_ensureRecovered]
  cases hrec : w.engine.recoveryErr with
  | none => exact absurd hrec h
  | some err => rfl

theorem enqueue_idle
    {w : World Storage LeaseLog} (newID : GoString) (payload : Bytes)
    (h : w.engine.recoveryErr ≠ none) :
    Idle (enqueue newID payload) w := by
  unfold enqueue
  exact idle_of_ensureRecovered h

theorem ack_idle
    {w : World Storage LeaseLog} (leaseID : GoString)
    (h : w.engine.recoveryErr ≠ none) :
    Idle (ack leaseID) w := by
  unfold ack
  exact idle_of_ensureRecovered h

theorem fetch_idle
    {w : World Storage LeaseLog} (leaseID : GoString) (now timeout : Int)
    (h : w.engine.recoveryErr ≠ none) :
    Idle (fetch leaseID now timeout) w := by
  unfold fetch
  split_ifs
  · exact rfl
  · exact idle_of_ensureRecovered h

theorem reapExpired_idle
    {w : World Storage LeaseLog} (now : Int)
    (h : w.engine.recoveryErr ≠ none) :
    Idle (reapExpired now) w := by
  unfold Idle reapExpired
  rw [wp_bind, wp_read]
  cases hrec : w.engine.recoveryErr with
  | none => exact absurd hrec h
  | some err => rfl

/-- What the simulation says about the result of an event. -/
def Simulated (amb dur : Prop) (e : Event LeaseLog) (c : Custody)
    (s : System Storage LeaseLog) : Prop :=
  Moves amb dur e c s.custody ∧ Storage.Within amb s.backend.script

/-- A running process: the operation is tracked, or it is refused. -/
theorem exec_simulated
    {α : Type} {s : System Storage LeaseLog} {e : Event LeaseLog}
    {engine : Engine} {m : EngineM Storage LeaseLog α} {reply : α → Reply}
    (hprocess : s.process = some engine)
    (hwithin : Storage.Within amb s.backend.script)
    (hwaste : Moves amb dur e s.custody
      { s with issued := e.newIDs ++ s.issued }.custody)
    (hidle : engine.recoveryErr ≠ none →
      Idle m ⟨engine, s.backend, s.journal⟩)
    (htracked : engine.recoveryErr = none →
      Tracked amb dur e
        (World.custody ⟨engine, s.backend, s.journal⟩ (.serving engine.leases)
          s.issued)
        (e.newIDs ++ s.issued) m ⟨engine, s.backend, s.journal⟩) :
    Simulated amb dur e s.custody
      (System.exec { s with issued := e.newIDs ++ s.issued } engine m reply).2 := by
  refine System.exec_cases
    (P := fun r => Simulated amb dur e s.custody r.2) ?_
  by_cases hrec : engine.recoveryErr = none
  · have hstart : s.custody =
        World.custody ⟨engine, s.backend, s.journal⟩ (.serving engine.leases)
          s.issued := by
      simp [System.custody, World.custody, hprocess, Engine.phase, hrec]
    have hphase : ∀ w : World Storage LeaseLog,
        w.engine.recoveryErr = none →
        w.engine.phase = .serving w.engine.leases := by
      intro w hw
      simp [Engine.phase, hw]
    rw [hstart]
    refine wp_mono (htracked hrec) ?_ ?_ ?_
    · intro a w' h
      refine ⟨?_, h.within⟩
      have hmoves := h.moves
      rw [← hphase w' h.recovered] at hmoves
      exact hmoves
    · intro err w' h
      refine ⟨?_, h.within⟩
      have hmoves := h.moves
      rw [← hphase w' h.recovered] at hmoves
      exact hmoves
    · exact fun w' h => ⟨h.moves, h.within⟩
  · have hsame :
        System.resume { s with issued := e.newIDs ++ s.issued }
          ⟨engine, s.backend, s.journal⟩ =
        { s with issued := e.newIDs ++ s.issued } := by
      simp [System.resume, hprocess]
    refine wp_mono (hidle hrec) ?_ ?_ (fun _ h => h.elim)
    · rintro a w' rfl
      rw [hsame]
      exact ⟨hwaste, hwithin⟩
    · rintro err w' rfl
      rw [hsame]
      exact ⟨hwaste, hwithin⟩

/-- A start reads the journal and moves on from there. -/
theorem restart_simulated
    {s : System Storage LeaseLog} {config : EngineConfig}
    {orders : RestoreOrders} {journal : LeaseLog} {recovered : List Record}
    (hwithin : Storage.Within amb s.backend.script)
    (hdur : dur → s.Reopens (.restart config orders journal recovered)) :
    Simulated amb dur (.restart config orders journal recovered) s.custody
      (s.step (.restart config orders journal recovered)).2 := by
  have hreopen :
      Restores amb dur (.restart config orders journal recovered)
        s.custody s.issued (live recovered)
        ⟨Engine.blank config, s.backend, journal⟩ :=
    ⟨Relation.ReflTransGen.single
      (Move.reopen rfl (fun h => (hdur h).2)), hwithin⟩
  refine System.exec_cases
    (P := fun r => Simulated amb dur _ s.custody r.2) ?_
  exact wp_mono (newEngine_tracked hreopen)
    (fun _ _ h => ⟨h.moves, h.within⟩) (fun _ _ h => ⟨h.moves, h.within⟩)
    (fun _ h => ⟨h.moves, h.within⟩)

/-- An event that does nothing may still use up a UUID. -/
theorem moves_issue
    (s : System Storage LeaseLog) (e : Event LeaseLog) :
    Moves amb dur e s.custody
      { s with issued := e.newIDs ++ s.issued }.custody := by
  have hrefl : Moves amb dur e s.custody s.custody := Relation.ReflTransGen.refl
  cases e with
  | enqueue newID payload =>
      exact hrefl.tail (Move.waste (by simp [Event.newIDs]))
  | fetch leaseID now timeout =>
      exact hrefl.tail (Move.waste (by simp [Event.newIDs]))
  | ack | reap | restart => exact hrefl

/-- Every event is a sequence of moves. -/
theorem System.step_moves
    {s : System Storage LeaseLog} {e : Event LeaseLog}
    (hcovered : s.Holds (fun w => w.engine.Covered))
    (hwithin : Storage.Within amb s.backend.script)
    (hfresh : s.Fresh e)
    (hdur : dur → s.Reopens e) :
    Simulated amb dur e s.custody (s.step e).2 := by
  have hissue : Moves amb dur e s.custody
      { s with issued := e.newIDs ++ s.issued }.custody := moves_issue s e
  cases hp : s.process with
  | none =>
      have hdown := hissue
      rw [hp] at hdown
      cases e with
      | restart config orders journal recovered =>
          exact restart_simulated hwithin hdur
      | enqueue | fetch | ack | reap =>
          simp only [System.step, hp]
          exact ⟨hdown, hwithin⟩
  | some engine =>
      have hkeyed := (hcovered engine hp).keyed
      cases e with
      | restart config orders journal recovered =>
          exact restart_simulated hwithin hdur
      | enqueue newID payload =>
          have hnew : newID ∉ s.issued := hfresh newID (by simp [Event.newIDs])
          simp only [System.step, hp]
          rw [← hp]
          exact exec_simulated hp hwithin hissue
            (fun h => enqueue_idle newID payload h)
            (fun hrec => enqueue_tracked hrec hwithin hnew)
      | fetch leaseID now timeout =>
          have hnew : leaseID ∉ s.issued :=
            hfresh leaseID (by simp [Event.newIDs])
          simp only [System.step, hp]
          rw [← hp]
          exact exec_simulated hp hwithin hissue
            (fun h => fetch_idle leaseID now timeout h)
            (fun hrec => fetch_tracked hrec hwithin hnew)
      | ack leaseID =>
          simp only [System.step, hp]
          rw [← hp]
          exact exec_simulated hp hwithin hissue
            (fun h => ack_idle leaseID h)
            (fun hrec => ack_tracked hrec hwithin hkeyed)
      | reap now =>
          simp only [System.step, hp]
          rw [← hp]
          exact exec_simulated hp hwithin hissue
            (fun h => reapExpired_idle now h)
            (fun hrec => reapExpired_tracked hrec hwithin hkeyed)

/-- What is known about a concrete state besides its custody. -/
structure System.Regular (amb : Prop) (s : System Storage LeaseLog) : Prop where
  covered : s.Holds (fun w => w.engine.Covered)
  within : Storage.Within amb s.backend.script

theorem System.regular_empty
    {calls : List CallEnv} {appends : List AppendFate}
    (h : Storage.Within amb calls) :
    (System.empty calls appends).Regular amb where
  covered _ hp := by cases hp
  within := h

theorem System.Regular.step
    {s : System Storage LeaseLog} {e : Event LeaseLog}
    (h : s.Regular amb)
    (hfresh : s.Fresh e) :
    (s.step e).2.Regular amb where
  covered engine hengine :=
    (step_covered (fun _ _ => True) e
      (fun engine hengine => ⟨h.covered engine hengine, trivial⟩)
      (fun _ _ _ _ _ _ => trivial) engine hengine).1
  within := (System.step_moves h.covered h.within hfresh False.elim).2

/-- What every move keeps, a run with arbitrary restarts keeps. -/
theorem anyRestart_keeps
    {P : Custody → Prop} {K : Event LeaseLog → Prop}
    {s t : System Storage LeaseLog} {es : List (Event LeaseLog × Reply)}
    (hrun : anyRestart.Run s es t)
    (hkind : ∀ er ∈ es, K er.1)
    (hmove : ∀ e c c', K e → Move amb False e c c' → P c → P c')
    (hregular : s.Regular amb)
    (hs : P s.custody) :
    t.Regular amb ∧ P t.custody := by
  refine hrun.keeps (P := fun u => u.Regular amb ∧ P u.custody) (K := K)
    ?_ hkind ⟨hregular, hs⟩
  rintro u e ⟨hu, hP⟩ hK hguard
  show (u.step e).2.Regular amb ∧ P (u.step e).2.custody
  have hmoves : Moves amb False e u.custody (u.step e).2.custody :=
    (System.step_moves hu.covered hu.within hguard False.elim).1
  exact ⟨hu.step hguard, hmoves.keeps (hmove e · · hK) hP⟩

/-- What every move keeps, a run with faithful restarts keeps. -/
theorem durable_keeps
    {P : Custody → Prop} {K : Event LeaseLog → Prop}
    {s t : System Storage LeaseLog} {es : List (Event LeaseLog × Reply)}
    (hrun : durable.Run s es t)
    (hkind : ∀ er ∈ es, K er.1)
    (hmove : ∀ e c c', K e → Move amb True e c c' → P c → P c')
    (hregular : s.Regular amb)
    (hs : P s.custody) :
    t.Regular amb ∧ P t.custody := by
  refine hrun.keeps (P := fun u => u.Regular amb ∧ P u.custody) (K := K)
    ?_ hkind ⟨hregular, hs⟩
  rintro u e ⟨hu, hP⟩ hK hguard
  show (u.step e).2.Regular amb ∧ P (u.step e).2.custody
  have hg : u.Fresh e ∧ u.Reopens e := hguard
  have hmoves : Moves amb True e u.custody (u.step e).2.custody :=
    (System.step_moves hu.covered hu.within hg.1 (fun _ => hg.2)).1
  exact ⟨hu.step hg.1, hmoves.keeps (hmove e · · hK) hP⟩

end Events

end Moxy
