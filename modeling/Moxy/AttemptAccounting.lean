import Moxy.AttemptLedger
import Moxy.FetchOutcome
import Moxy.VisibilityExclusion

/-!
# Moxy: attempts count expiries

The cap on attempts is decided from the task that a lease carries, and that lease
may have been rebuilt from the journal; the attempt is charged to the copy of the
task that the store keeps.  The two agree in every reachable state, so every
operation has one of the effects of the ledger (`System.step_effect`), and the
ledger stays balanced over whole runs.

The runs are those in which no fetch hands its task back: `System.AppendRefused`
says that a fetch gets as far as its append and that the append returns an error.
-/

namespace Moxy

open Lib Lib.CrashM

/-- The event is a fetch whose append returns an error. -/
def System.AppendRefused (s : System Storage LeaseLog) (e : Event LeaseLog) : Prop :=
  match e with
  | .fetch _ _ timeout =>
      ∃ engine ∈ s.process, World.FetchRefused timeout ⟨engine, s.backend, s.journal⟩
  | _ => False

instance (s : System Storage LeaseLog) (e : Event LeaseLog) :
    Decidable (s.AppendRefused e) :=
  match e with
  | .fetch _ _ timeout =>
      inferInstanceAs (Decidable (∃ engine ∈ s.process,
        World.FetchRefused timeout ⟨engine, s.backend, s.journal⟩))
  | .enqueue _ _ | .ack _ | .reap _ | .restart _ _ _ _ =>
      inferInstanceAs (Decidable False)

/-- The active leases of the process, if there is one. -/
def System.leases (s : System Storage LeaseLog) : Map GoString Lease :=
  match s.process with
  | none => ∅
  | some engine => engine.leases

/-- A start sets the cap `m` on attempts. -/
def Event.Caps (m : Int) : Event LeaseLog → Prop
  | .restart config _ _ _ => config.maxAttempts = m
  | _ => True

/-- Journalled systems with cap `m` in which no append of a fetch is refused. -/
def counting (m : Int) : Machine (System Storage LeaseLog) (Event LeaseLog) Reply where
  step := System.step
  guard s e := durable.guard s e ∧ e.Caps m ∧ ¬ s.AppendRefused e

instance (m : Int) (e : Event LeaseLog) : Decidable (e.Caps m) :=
  match e with
  | .restart config _ _ _ => inferInstanceAs (Decidable (config.maxAttempts = m))
  | .enqueue _ _ | .fetch _ _ _ | .ack _ | .reap _ =>
      inferInstanceAs (Decidable True)

instance (m : Int) (s : System Storage LeaseLog) (e : Event LeaseLog) :
    Decidable ((counting m).guard s e) :=
  inferInstanceAs (Decidable (durable.guard s e ∧ e.Caps m ∧ ¬ s.AppendRefused e))

section Operations

variable {m : Int} {leases : Map GoString Lease} {w : World Storage LeaseLog}

/-- Wherever the operation ends, `R` holds of the store that it leaves. -/
def StoreAfter {α : Type} (R : Store → Prop) (op : EngineM Storage LeaseLog α)
    (w : World Storage LeaseLog) : Prop :=
  wp op (fun _ w' => R w'.backend.store) (fun _ w' => R w'.backend.store)
    (fun w' => R w'.backend.store) w

theorem storeAfter_record
    {R : Store → Prop} (entry : Record)
    (h : R w.backend.store) :
    StoreAfter R (record entry) w :=
  wp_record_any (fun _ => h) (fun _ _ => h) (fun _ => h)

theorem storeAfter_recovered
    {α : Type} {R : Store → Prop} {op : EngineM Storage LeaseLog α}
    (hidle : R w.backend.store)
    (h : StoreAfter R op w) :
    StoreAfter R (do ensureRecovered; op) w := by
  rw [StoreAfter, wp_bind, wp_ensureRecovered]
  cases w.engine.recoveryErr with
  | some err => exact hidle
  | none => exact h

theorem enqueue_effect
    (newID : GoString) (payload : Bytes) :
    StoreAfter (Effect m leases (.enqueue newID payload) w.backend.store)
      (enqueue newID payload) w := by
  refine storeAfter_recovered Effect.idle ?_
  rw [StoreAfter, wp_bind, wp_onBackend]
  exact Storage.wp_call_reach
    (R := Effect m leases (.enqueue newID payload) w.backend.store)
    (Storage.within_true _) Effect.idle (fun _ => Effect.enqueue)
    (fun _ _ _ _ _ => Effect.enqueue) (fun _ _ _ _ _ => Effect.enqueue)
    (fun _ _ _ _ _ h => h) (fun _ _ _ h => h)

/-- A fetch whose append is not refused hands no task back. -/
theorem fetch_effect
    {leaseID : GoString} {now timeout : Int}
    (hnot : ¬ w.FetchRefused timeout) :
    StoreAfter (Effect m leases (.fetch leaseID now timeout) w.backend.store)
      (fetch leaseID now timeout) w := by
  refine wp_mono (wp_fetch_outcome leaseID now timeout w) ?_ ?_ ?_
  · intro _ w' hstore
    rw [hstore]
    exact Effect.acquire
  · rintro _ w' ⟨_, hfailure⟩
    generalize w'.backend.store = store at hfailure ⊢
    cases hfailure with
    | kept => exact Effect.idle
    | lost => exact Effect.acquire
    | returned hrefused => exact absurd hrefused hnot
    | stranded hrefused => exact absurd hrefused hnot
  · rintro w' (hstore | hstore | hrefused)
    · rw [hstore]
      exact Effect.idle
    · rw [hstore]
      exact Effect.acquire
    · exact absurd hrefused hnot

theorem ack_effect
    (leaseID : GoString)
    (hkeyed : ∀ k lease, w.engine.leases.lookup k = some lease →
      lease.leaseID = k) :
    StoreAfter (Effect m leases (.ack leaseID) w.backend.store) (ack leaseID) w := by
  refine storeAfter_recovered Effect.idle ?_
  rw [StoreAfter, wp_bind, wp_read]
  cases hactive : w.engine.leases.lookup leaseID with
  | none => exact Effect.idle
  | some lease =>
      have hid : lease.leaseID = leaseID := hkeyed leaseID lease hactive
      subst hid
      dsimp only
      rw [wp_bind, wp_attempt, wp_onBackend]
      refine Storage.wp_fenced (fun _ => .completed)
        (R := Effect m leases (.ack lease.leaseID) w.backend.store)
        (fun _ _ => rfl) (Storage.within_true _) Effect.idle
        (fun _ => Effect.complete) ?_ ?_ (fun _ _ _ _ _ h => h) (fun _ _ _ h => h)
      · intro _ script _
        dsimp only
        rw [wp_bind]
        exact wp_mono (storeAfter_record _ Effect.complete) (fun _ _ h => h)
          (fun _ _ h => h) (fun _ h => h)
      · intro script err _ _ hstale
        dsimp only
        rw [if_pos hstale, wp_bind]
        exact wp_mono (storeAfter_record _ Effect.idle) (fun _ _ h => h)
          (fun _ _ h => h) (fun _ h => h)

/-- The ending that the engine chooses suits the task of the lease. -/
theorem Engine.suits_expiryEnding
    (engine : Engine) (lease : Lease) (env : CallEnv) :
    (expiryEnding (engine.shouldDeadLetter lease) env).Suits
      engine.config.maxAttempts lease.task := by
  cases hdead : engine.shouldDeadLetter lease with
  | true =>
      rw [Engine.shouldDeadLetter, Bool.and_eq_true, decide_eq_true_eq,
        decide_eq_true_eq] at hdead
      exact hdead
  | false =>
      rw [Engine.shouldDeadLetter, Bool.and_eq_false_iff, decide_eq_false_iff_not,
        decide_eq_false_iff_not] at hdead
      intro hm
      rcases hdead with hzero | hbelow
      · exact absurd hm hzero
      · exact not_le.mp hbelow

/-- What holds between two expiries of one reap. -/
structure Reaping (m now : Int) (leases : Map GoString Lease) (s : Store)
    (w : World Storage LeaseLog) : Prop where
  ends : Relation.ReflTransGen (Expiry m now leases) s w.backend.store
  capped : w.engine.config.maxAttempts = m
  active : ∀ leaseID lease, w.engine.leases.lookup leaseID = some lease →
    leases.lookup leaseID = some lease
  keyed : ∀ leaseID lease, w.engine.leases.lookup leaseID = some lease →
    lease.leaseID = leaseID
  agrees : ∀ leaseID lease, w.engine.leases.lookup leaseID = some lease →
    ∀ taskID stored,
      w.backend.store.queue.processing.lookup taskID = some ⟨stored, leaseID⟩ →
      stored = lease.task

section Reaps

variable {now : Int} {s : Store}

/-- The end of an active lease, whatever its call reports. -/
theorem Reaping.finish
    {lease : Lease}
    (h : Reaping m now leases s w)
    (hactive : w.engine.leases.lookup lease.leaseID = some lease)
    (hdue : lease.expiresAt ≤ now)
    (env : CallEnv) (script : List CallEnv) (journal : LeaseLog) :
    Reaping m now leases s ⟨w.engine,
      ⟨(w.backend.store.finish
        (expiryEnding (w.engine.shouldDeadLetter lease) env)
        lease.task.id lease.leaseID).2, script⟩, journal⟩ where
  ends := by
    refine h.ends.tail (Expiry.finish (h.active _ lease hactive) hdue ?_)
    intro task hlookup
    rw [h.agrees _ lease hactive _ task hlookup, ← h.capped]
    exact w.engine.suits_expiryEnding lease env
  capped := h.capped
  active := h.active
  keyed := h.keyed
  agrees leaseID other hother taskID stored hlookup :=
    h.agrees leaseID other hother taskID stored (Store.finish_lookup hlookup)

theorem Reaping.engine
    {engine : Engine}
    (h : Reaping m now leases s w)
    (hconfig : engine.config = w.engine.config)
    (hleases : ∀ leaseID lease, engine.leases.lookup leaseID = some lease →
      w.engine.leases.lookup leaseID = some lease) :
    Reaping m now leases s { w with engine := engine } where
  ends := h.ends
  capped := by
    rw [hconfig]
    exact h.capped
  active leaseID lease hlookup := h.active leaseID lease (hleases _ _ hlookup)
  keyed leaseID lease hlookup := h.keyed leaseID lease (hleases _ _ hlookup)
  agrees leaseID lease hlookup := h.agrees leaseID lease (hleases _ _ hlookup)

theorem expireLease_reaping
    {lease : Lease}
    (h : Reaping m now leases s w)
    (hactive : w.engine.leases.lookup lease.leaseID = some lease)
    (hdue : lease.expiresAt ≤ now) :
    wp (expireLease lease) (fun _ => Reaping m now leases s) (fun _ => Reaping m now leases s)
      (Reaping m now leases s) w := by
  have hrecord : ∀ entry (store : Store) script,
      Reaping m now leases s ⟨w.engine, ⟨store, script⟩, w.journal⟩ →
      wp (record entry) (fun _ => Reaping m now leases s) (fun _ => Reaping m now leases s)
        (Reaping m now leases s) ⟨w.engine, ⟨store, script⟩, w.journal⟩ := by
    intro entry store script hR
    have hany : ∀ journal : LeaseLog,
        Reaping m now leases s ⟨w.engine, ⟨store, script⟩, journal⟩ :=
      fun journal => ⟨hR.ends, hR.capped, hR.active, hR.keyed, hR.agrees⟩
    exact wp_record_any hany (fun _ => hany) hany
  rw [expireLease, wp_bind, wp_read, wp_bind, wp_attempt, wp_onBackend]
  refine wp_expireCall (Storage.wp_fenced (expiryEnding _)
    (R := fun store => ∀ script, Reaping m now leases s ⟨w.engine, ⟨store, script⟩, w.journal⟩)
    (fun _ _ => rfl) (Storage.within_true _) ?_ ?_ ?_ ?_ ?_ ?_)
  · exact fun script => ⟨h.ends, h.capped, h.active, h.keyed, h.agrees⟩
  · exact fun env script => h.finish hactive hdue env script w.journal
  · exact fun env script _ =>
      hrecord _ _ script (h.finish hactive hdue env script w.journal)
  · intro script err _ _ hstale
    dsimp only
    rw [if_pos hstale]
    exact hrecord _ _ script ⟨h.ends, h.capped, h.active, h.keyed, h.agrees⟩
  · exact fun store script _ _ _ hR => hR script
  · exact fun store script _ hR => hR script

theorem reapExpired_effect
    (h : Reaping m now leases w.backend.store w) :
    StoreAfter (Effect m leases (.reap now) w.backend.store) (reapExpired now) w := by
  have hends : ∀ w' : World Storage LeaseLog, Reaping m now leases w.backend.store w' →
      Effect m leases (.reap now) w.backend.store w'.backend.store :=
    fun _ hw => Effect.reap hw.ends
  refine wp_mono (wp_reapExpired
    (I := fun _ => Reaping m now leases w.backend.store)
    (F := fun _ _ => Reaping m now leases w.backend.store)
    ?_ ?_ (fun _ _ => h) (fun _ => h)) ?_ (fun _ _ hfalse => hfalse.elim) hends
  · intro _ w' item hI _ _ _
    exact hI.engine rfl (fun _ _ hl => hl)
  · intro _ w' item lease hI _ _ hactive hexpired
    have hid : lease.leaseID = item.leaseID := hI.keyed _ lease hactive
    rw [← hid] at hactive ⊢
    refine wp_mono (wp_and (expireLease_reaping (hI.engine rfl (fun _ _ hl => hl))
      hactive hexpired) (wp_expireLease_engine lease _)) ?_ ?_ (fun _ h => h.1)
    · rintro _ w'' ⟨hs, hengine⟩
      refine hs.engine (by rw [hengine]; rfl) ?_
      intro leaseID other hl
      rw [hengine]
      rw [Engine.dropLease, Map.lookup_erase_ite] at hl
      split_ifs at hl
      exact hl
    · rintro err w'' ⟨hs, hengine⟩
      exact hs.engine (by rw [hengine]; rfl) (fun _ _ hl => by rw [hengine]; exact hl)
  · exact fun _ _ hr => hr.elim (fun _ => hends) (fun _ _ => hends)

end Reaps

theorem storeAfter_recordStale
    {R : Store → Prop} (matchedIDs : Finset GoString) (leaseIDs : List GoString)
    {w : World Storage LeaseLog} (h : R w.backend.store) :
    StoreAfter R (recordStale matchedIDs leaseIDs) w :=
  wp_recordStale (I := fun _ (w' : World Storage LeaseLog) => R w'.backend.store)
    (fun _ _ _ _ _ hR => storeAfter_record _ hR) h

theorem newEngine_effect
    (config : EngineConfig) (orders : RestoreOrders) (journal : LeaseLog)
    (recovered : List Record) :
    StoreAfter (Effect m leases (.restart config orders journal recovered) w.backend.store)
      (newEngine config orders recovered) w := by
  rw [StoreAfter, newEngine, wp_bind, wp_onEngine, restore, wp_bind, wp_attempt,
    wp_onBackend]
  refine Storage.wp_call_reach
    (R := Effect m leases (.restart config orders journal recovered) w.backend.store)
    (Storage.within_true _) Effect.idle (fun _ => Effect.reconcile) ?_
    (fun _ _ _ _ _ => Effect.reconcile) (fun _ _ _ _ _ h => h) (fun _ _ _ h => h)
  intro env script result _ _
  rw [wp_bind, wp_attempt]
  exact wp_mono (storeAfter_recordStale _ _ Effect.reconcile) (fun _ _ h => h)
    (fun _ _ h => h) (fun _ h => h)

end Operations

section Systems

variable {m : Int} {s : System Storage LeaseLog} {e : Event LeaseLog}

theorem System.exec_effect
    {α : Type} {R : Store → Prop} {engine : Engine}
    {op : EngineM Storage LeaseLog α} {reply : α → Reply}
    (h : StoreAfter R op ⟨engine, s.backend, s.journal⟩) :
    R (s.exec engine op reply).2.backend.store :=
  System.exec_cases
    (P := fun r : Reply × System Storage LeaseLog => R r.2.backend.store) h

/-- The state of a system whose ledger is balanced. -/
structure System.Accounted (m : Int) (s : System Storage LeaseLog) : Prop where
  regular : s.Regular True
  consistent : s.custody.Consistent
  settings : s.Holds (fun w =>
    w.engine.config.journal = true ∧ w.engine.config.maxAttempts = m)
  tallied : s.backend.store.Tallied m s.issued

/-- A reap starts with leases that agree with the store. -/
theorem System.Accounted.reaping
    {engine : Engine}
    (h : s.Accounted m)
    (now : Int)
    (hprocess : s.process = some engine) :
    Reaping m now engine.leases s.backend.store
      ⟨engine, s.backend, s.journal⟩ where
  ends := Relation.ReflTransGen.refl
  active _ _ hlookup := hlookup
  capped := (h.settings engine hprocess).2
  keyed := (h.regular.covered engine hprocess).keyed
  agrees := by
    intro leaseID lease hlookup taskID stored hstored
    cases hrec : engine.recoveryErr with
    | none =>
        have hknows := h.consistent.phase
        rw [System.custody_serving hprocess hrec] at hknows
        exact (hknows leaseID lease hlookup).2.2 taskID stored hstored
    | some err =>
        have hnone := (h.regular.covered engine hprocess).failed_empty
          (by rw [hrec]; exact Option.some_ne_none err) leaseID
        rw [hlookup] at hnone
        cases hnone

/-- Every event has one of the effects of the ledger. -/
theorem System.step_effect
    (h : s.Accounted m)
    (hnot : ¬ s.AppendRefused e) :
    Effect m s.leases e s.backend.store (s.step e).2.backend.store := by
  unfold System.leases
  cases hp : s.process with
  | none =>
      cases e with
      | restart config orders journal recovered =>
          exact System.exec_effect (newEngine_effect config orders journal recovered)
      | enqueue | fetch | ack | reap =>
          simp only [System.step, hp]
          exact Effect.idle
  | some engine =>
      cases e with
      | restart config orders journal recovered =>
          exact System.exec_effect (newEngine_effect config orders journal recovered)
      | enqueue newID payload =>
          simp only [System.step, hp]
          exact System.exec_effect (enqueue_effect newID payload)
      | fetch leaseID now timeout =>
          simp only [System.step, hp]
          exact System.exec_effect
            (fetch_effect (fun hrefused => hnot ⟨engine, hp, hrefused⟩))
      | ack leaseID =>
          simp only [System.step, hp]
          exact System.exec_effect
            (ack_effect leaseID (h.regular.covered engine hp).keyed)
      | reap now =>
          simp only [System.step, hp]
          exact System.exec_effect (reapExpired_effect (h.reaping now hp))

theorem System.accounted_empty
    {calls : List CallEnv} {appends : List AppendFate} :
    (System.empty calls appends).Accounted m where
  regular := System.regular_true
  consistent := System.consistent_empty
  settings _ hp := by cases hp
  tallied := Store.Tallied.new

/-- One event keeps the accounts. -/
theorem System.Accounted.step
    (h : s.Accounted m)
    (hguard : (counting m).guard s e) :
    (s.step e).2.Accounted m := by
  obtain ⟨⟨hfresh, hreopens⟩, hcaps, hnot⟩ := hguard
  have hmoves := (System.step_moves h.regular.covered h.regular.within hfresh
    (fun _ : True => hreopens)).1
  refine ⟨h.regular.step hfresh, ?_, ?_, ?_⟩
  · exact hmoves.keeps (fun _ _ hmove => hmove.consistent) h.consistent
  · have hsettings := step_covered
      (fun config _ => config.journal = true ∧ config.maxAttempts = m) e
      (fun engine hp => ⟨h.regular.covered engine hp, h.settings engine hp⟩) ?_
    · exact fun engine hp => (hsettings engine hp).2
    · rintro config orders journal recovered rfl _
      exact ⟨hreopens.1, hcaps⟩
  · rw [System.step_issued]
    exact (System.step_effect h hnot).tallied hfresh h.consistent.sound h.tallied

theorem counting_accounted
    {calls : List CallEnv} {appends : List AppendFate}
    {es : List (Event LeaseLog × Reply)} {t : System Storage LeaseLog}
    (hrun : (counting m).Run (System.empty calls appends) es t) :
    t.Accounted m :=
  hrun.invariant (fun _ _ hu hguard => hu.step hguard) System.accounted_empty

end Systems

section Deliveries

variable {m : Int}

/-- The lease IDs under which the fetches of a run returned a task. -/
def fetchedLeases (taskID : GoString) (es : List (Event LeaseLog × Reply)) :
    List GoString :=
  es.filterMap fun er =>
    match er with
    | (.fetch _ _ _, .fetched lease) =>
        if lease.task.id = taskID then some lease.leaseID else none
    | _ => none

/-- A returned lease is still held, or the history says how it ended. -/
def Settled (lease : Lease) (c : Custody) : Prop :=
  Held lease c ∨
    ∃ ending : Ending, ending.transition lease.task.id lease.leaseID ∈ c.store.log

theorem Move.settled
    {amb : Prop} {e : Event LeaseLog} {c c' : Custody} {lease : Lease}
    (hmove : Move amb True e c c')
    (h : Settled lease c) :
    Settled lease c' := by
  rcases h with hheld | ⟨ending, hmem⟩
  · by_cases hended : ∃ ending : Ending,
        ending.transition lease.task.id lease.leaseID ∈ c'.store.log
    · exact Or.inr hended
    · refine Or.inl (hmove.held_unless ?_ hheld)
      exact fun ending _ hmem => hended ⟨ending, hmem⟩
  · exact Or.inr ⟨ending, hmove.log.subset hmem⟩

/-- A settled lease is one of the deliveries of its task. -/
theorem Settled.mem_deliveries
    {lease : Lease} {c : Custody}
    (h : Settled lease c) :
    lease.leaseID ∈ c.store.deliveries lease.task.id := by
  unfold Store.deliveries
  rcases h with hheld | ⟨ending, hmem⟩
  · exact List.mem_append_right _
      (List.mem_append_right _ (Store.mem_holder.mpr hheld.fencedBy))
  · cases ending with
    | completed =>
        exact List.mem_append_right _
          (List.mem_append_left _ (Store.mem_completions.mpr hmem))
    | requeued => exact List.mem_append_left _ (Store.mem_charges.mpr (Or.inl hmem))
    | deadLettered reason now =>
        exact List.mem_append_left _ (Store.mem_charges.mpr (Or.inr hmem))

/-- What a run has delivered so far: every lease once, and none is forgotten. -/
structure Delivered (es : List (Event LeaseLog × Reply))
    (t : System Storage LeaseLog) : Prop where
  settled : ∀ leaseID now timeout lease,
    (.fetch leaseID now timeout, .fetched lease) ∈ es → Settled lease t.custody
  issued : ∀ taskID, ∀ leaseID ∈ fetchedLeases taskID es, leaseID ∈ t.issued
  nodup : ∀ taskID, (fetchedLeases taskID es).Nodup

theorem mem_fetchedLeases
    {taskID leaseID : GoString} {es : List (Event LeaseLog × Reply)}
    (h : leaseID ∈ fetchedLeases taskID es) :
    ∃ id now timeout lease,
      (.fetch id now timeout, .fetched lease) ∈ es ∧
      lease.task.id = taskID ∧ lease.leaseID = leaseID := by
  obtain ⟨⟨e, reply⟩, hmem, heq⟩ := List.mem_filterMap.mp h
  cases e with
  | fetch id now timeout =>
      cases reply with
      | fetched lease =>
          simp only [Option.ite_none_right_eq_some, Option.some.injEq] at heq
          exact ⟨id, now, timeout, lease, hmem, heq⟩
      | enqueued | acked | reaped | started | failed | crashed | down => cases heq
  | enqueue | ack | reap | restart => cases heq

/-- The lease of the last event, if it is a fetch that returned the task. -/
theorem fetchedLeases_append
    (taskID : GoString) (es : List (Event LeaseLog × Reply))
    (er : Event LeaseLog × Reply) :
    fetchedLeases taskID (es ++ [er]) =
      fetchedLeases taskID es ++ fetchedLeases taskID [er] :=
  List.filterMap_append

/-- The lease that a fetch returns has the ID that the fetch generated. -/
theorem newID_of_fetched
    {taskID leaseID : GoString} {e : Event LeaseLog} {t : System Storage LeaseLog}
    (h : leaseID ∈ fetchedLeases taskID [(e, (t.step e).1)]) :
    leaseID ∈ e.newIDs := by
  obtain ⟨id, now, timeout, lease, hmem, _, rfl⟩ := mem_fetchedLeases h
  obtain ⟨rfl, hreply⟩ := Prod.mk.inj (List.mem_singleton.mp hmem)
  rw [(fetch_reply hreply.symm).lease_eq]
  exact List.mem_singleton.mpr rfl

theorem counting_delivered
    {calls : List CallEnv} {appends : List AppendFate}
    {es : List (Event LeaseLog × Reply)} {t : System Storage LeaseLog}
    (hrun : (counting m).Run (System.empty calls appends) es t) :
    Delivered es t := by
  induction hrun with
  | refl => exact ⟨nofun, nofun, fun _ => List.nodup_nil⟩
  | @next t es e hrun hguard ih =>
      have haccounted := counting_accounted hrun
      have hafter : (t.step e).2.Accounted m := haccounted.step hguard
      obtain ⟨⟨hfresh, hreopens⟩, _, _⟩ := hguard
      have hmoves : Moves True True e t.custody (t.step e).2.custody :=
        (System.step_moves haccounted.regular.covered haccounted.regular.within
          hfresh (fun _ => hreopens)).1
      show Delivered (es ++ [(e, (t.step e).1)]) (t.step e).2
      refine ⟨?_, ?_, ?_⟩
      · intro leaseID now timeout lease hmem
        rcases List.mem_append.mp hmem with hold | hlast
        · exact hmoves.keeps (fun _ _ hmove => hmove.settled)
            (ih.settled leaseID now timeout lease hold)
        · obtain ⟨rfl, hreply⟩ := Prod.mk.inj (List.mem_singleton.mp hlast)
          exact Or.inl (held_of_fetched haccounted.consistent
            (fun engine hp => (haccounted.settings engine hp).1)
            (hfresh leaseID (List.mem_singleton.mpr rfl)) hreply.symm
            hafter.consistent).2
      · intro taskID leaseID hmem
        rw [fetchedLeases_append] at hmem
        rw [System.step_issued]
        rcases List.mem_append.mp hmem with hold | hlast
        · exact List.mem_append_right _ (ih.issued taskID leaseID hold)
        · exact List.mem_append_left _ (newID_of_fetched hlast)
      · intro taskID
        rw [fetchedLeases_append, List.nodup_append]
        refine ⟨ih.nodup taskID, ?_, ?_⟩
        · rw [fetchedLeases, List.filterMap_cons, List.filterMap_nil]
          split
          · exact List.nodup_nil
          · exact List.nodup_singleton _
        · rintro leaseID hold _ hlast rfl
          exact hfresh leaseID (newID_of_fetched hlast)
            (ih.issued taskID leaseID hold)

/--
Attempts count expiries exactly and bound deliveries.  In every journalled run with
the cap `m` in which no append of a fetch returns an error, wherever the process
stopped and whatever the backend reported: a task carries as many attempts as it has
leases that a requeue or a dead-letter move used up, each of these leases was
charged by a reap after its deadline, and the cap bounds the attempts in each place
and the number of times that `Fetch` returns a task.
-/
theorem attempts_count_expiries
    {calls : List CallEnv} {appends : List AppendFate}
    {es : List (Event LeaseLog × Reply)} {t : System Storage LeaseLog}
    (hrun : (counting m).Run (System.empty calls appends) es t) :
    (∀ task ∈ t.backend.store.queue.tasks,
      task.attempts = (t.backend.store.charges task.id).length) ∧
    (∀ taskID, (t.backend.store.charges taskID).Nodup) ∧
    (∀ e, (counting m).guard t e → ∀ taskID leaseID,
      leaseID ∈ (t.step e).2.backend.store.charges taskID →
      leaseID ∈ t.backend.store.charges taskID ∨
        ∃ now, e = .reap now ∧ ChargedNow now t.leases taskID leaseID) ∧
    (0 < m →
      (∀ task ∈ t.backend.store.queue.ready, task.attempts < m) ∧
      (∀ taskID entry,
        t.backend.store.queue.processing.lookup taskID = some entry →
        entry.task.attempts < m) ∧
      (∀ dead ∈ t.backend.store.queue.dead, dead.task.attempts = m) ∧
      ∀ taskID, ((fetchedLeases taskID es).length : Int) ≤ m) ∧
    (m ≤ 0 → t.backend.store.queue.dead = []) := by
  have haccounted := counting_accounted hrun
  have htallied := haccounted.tallied
  have hsound : t.backend.store.Sound t.issued := haccounted.consistent.sound
  refine ⟨?_, ?_, ?_, ?_, ?_⟩
  · intro task hmem
    rcases List.mem_append.mp hmem with hready | hmem
    · exact (htallied.ready task hready).1
    rcases List.mem_append.mp hmem with hprocessing | hdead
    · obtain ⟨⟨taskID, entry⟩, hrange, rfl⟩ := List.mem_map.mp hprocessing
      have hlookup := (Map.mem_range [] _ _ _).mp hrange
      rw [hsound.keyed taskID entry hlookup]
      exact (htallied.processing taskID entry hlookup).1
    · obtain ⟨dead, hin, rfl⟩ := List.mem_map.mp hdead
      exact (htallied.dead dead hin).1
  · intro taskID
    exact (List.nodup_append.mp hsound.fences_nodup).1.sublist
      (Store.charges_sublist_consumed taskID _)
  · intro e hguard taskID leaseID hmem
    exact (System.step_effect haccounted hguard.2.2).mem_charges hmem
  · intro hm
    refine ⟨fun task hready => (htallied.ready task hready).2 hm,
      fun taskID entry hlookup => (htallied.processing taskID entry hlookup).2 hm,
      fun dead hdead => (htallied.dead dead hdead).2.2, ?_⟩
    intro taskID
    have hdelivered := counting_delivered hrun
    have hsub : fetchedLeases taskID es ⊆ t.backend.store.deliveries taskID := by
      intro leaseID hmem
      obtain ⟨id, now, timeout, lease, hin, rfl, rfl⟩ := mem_fetchedLeases hmem
      exact (hdelivered.settled id now timeout lease hin).mem_deliveries
    have hlength := ((hdelivered.nodup taskID).subperm hsub).length_le
    have hbounded := htallied.bounded hm taskID
    omega
  · intro hm
    rw [List.eq_nil_iff_forall_not_mem]
    intro dead hdead
    have hpos := (htallied.dead dead hdead).2.1
    omega

/--
With the cap 2, the first expiry is charged although the process stops right after
it; the second one moves the task to dead storage.
-/
theorem attempts_count_expiries_two :
    ∃ es t, (counting 2).Run
        (System.empty
          [CallEnv.calm, CallEnv.calm, CallEnv.calm, ⟨.crashAfter, 15, []⟩] []) es t ∧
      es.map Prod.snd =
        [.started, .enqueued ⟨[84], [1], 0⟩,
          .fetched ⟨[76], ⟨[84], [1], 0⟩, 5, 15⟩, .crashed, .started,
          .fetched ⟨[77], ⟨[84], [1], 1⟩, 20, 30⟩, .reaped 1 none] ∧
      (∀ dead ∈ t.backend.store.queue.dead, dead.task.attempts = 2) ∧
      t.backend.store.queue.dead ≠ [] := by
  have hrun := (counting 2).run_of_admits
    [.restart ⟨2, 0, true⟩ ⟨[], [], []⟩ ⟨[], []⟩ [], .enqueue [84] [1],
      .fetch [76] 5 10, .reap 15,
      .restart ⟨2, 0, true⟩ ⟨[], [], []⟩
        ⟨[⟨⟨.fetch, [76], ⟨[84], [1], 0⟩, 5, 15⟩, true⟩], []⟩
        [⟨.fetch, [76], ⟨[84], [1], 0⟩, 5, 15⟩],
      .fetch [77] 20 10, .reap 30]
    (System.empty
      [CallEnv.calm, CallEnv.calm, CallEnv.calm, ⟨.crashAfter, 15, []⟩] [])
    (by decide +kernel)
  exact ⟨_, _, hrun, by decide +kernel,
    ((attempts_count_expiries hrun).2.2.2.1 (by decide)).2.2.1, by decide +kernel⟩

end Deliveries

end Moxy
