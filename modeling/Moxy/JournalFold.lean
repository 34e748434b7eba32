import Moxy.EngineSystem
import Moxy.ReapRule
import Moxy.Restore

/-!
# Moxy: the journal folds to the lease map

The journal of this module adds exactly its record and returns nil, or adds
nothing and returns an error.  The backend is arbitrary: nothing is known about
the effect or the result of any call.

`Folds` says that the leases which the record stream leaves open are the active
leases, with the same task and the same times.  Every operation closes a lease in
the journal first and in memory directly afterwards, so `Folds` holds whenever an
operation has ended, on every branch.
-/

namespace Moxy

open Lib Lib.CrashM

/-- A journal that either adds its record or reports an error. -/
structure ExactLog where
  records : List Record
  script : List (Option GoString)
deriving DecidableEq

/-- One append: `none` in the script lets it succeed. -/
def ExactLog.append (record : Record) : CrashM GoError ExactLog Unit :=
  fun j =>
    match j.script.headD none with
    | none => .ok () ⟨j.records ++ [record], j.script.tail⟩
    | some message => .error (.text message) ⟨j.records, j.script.tail⟩

instance : Journal ExactLog where
  append := ExactLog.append

/-- The open leases of the records are the leases of the map. -/
def Folds (records : List Record) (leases : Map GoString Lease) : Prop :=
  ∀ leaseID,
    ((live records).lookup leaseID).map Record.lease = leases.lookup leaseID

theorem Folds.publish
    {records : List Record} {leases : Map GoString Lease}
    (h : Folds records leases) (lease : Lease) :
    Folds (records ++ [lease.fetchRecord])
      (leases.insert lease.leaseID lease) := by
  intro leaseID
  rw [live_append_fetch, Map.lookup_insert_ite]
  split_ifs
  · rfl
  · exact h leaseID

theorem Folds.close
    {records : List Record} {leases : Map GoString Lease} {op : Op}
    (h : Folds records leases)
    (hop : op.Closes)
    (closed : GoString) :
    Folds (records ++ [closeRecord op closed]) (leases.erase closed) := by
  intro leaseID
  rw [live_append_close hop, Map.lookup_erase_ite]
  split_ifs
  · rfl
  · exact h leaseID

/-- The map that a restore builds matches the records that it leaves. -/
theorem folds_restored
    (records : List Record) (matchedIDs : Finset GoString)
    (stale restored : List GoString) (config : EngineConfig) :
    Folds
      (records ++ ((((live records).range stale).map Prod.fst).filter
        (fun leaseID => leaseID ∉ matchedIDs)).map (closeRecord .stale))
      (publishMatched matchedIDs ((live records).range restored)
        (Engine.blank config)).leases := by
  intro leaseID
  rw [publishMatched_lookup, live_append_stale]
  by_cases hin : leaseID ∈ matchedIDs
  · simp [hin]
  · cases hl : (live records).lookup leaseID with
    | none => simp [hin]
    | some r =>
        have hmem : (leaseID, r) ∈ (live records).range stale :=
          (Map.mem_range stale _ _ _).mpr hl
        rw [if_neg hin, if_pos]
        · rfl
        · rw [List.mem_filter]
          exact ⟨List.mem_map_of_mem hmem, by simpa using hin⟩

section AnyBackend

variable {β : Type}

/-- The condition between operations. -/
structure Folded (w : World β ExactLog) : Prop where
  journalled : w.engine.config.journal = true
  folds : w.engine.recoveryErr = none → Folds w.journal.records w.engine.leases

/-- An append that adds exactly its record, or nothing. -/
theorem wp_record_exact
    {entry : Record} {w : World β ExactLog}
    {ok : Unit → World β ExactLog → Prop}
    {error : GoError → World β ExactLog → Prop}
    {crashed : World β ExactLog → Prop}
    (hj : w.engine.config.journal = true)
    (hok : ∀ script,
      ok () { w with journal := ⟨w.journal.records ++ [entry], script⟩ })
    (herror : ∀ err script,
      error err { w with journal := ⟨w.journal.records, script⟩ }) :
    wp (record entry) ok error crashed w := by
  rw [wp_record, if_pos hj]
  show wp (ExactLog.append entry) _ _ _ _
  unfold wp ExactLog.append
  cases w.journal.script.headD none with
  | none => exact hok _
  | some message => exact herror _ _

theorem Folded.backend
    {w : World β ExactLog} (h : Folded w) (b : β) :
    Folded { w with backend := b } :=
  ⟨h.journalled, h.folds⟩

theorem Folded.refused
    {w : World β ExactLog} (h : Folded w) (script : List (Option GoString)) :
    Folded { w with journal := ⟨w.journal.records, script⟩ } :=
  ⟨h.journalled, h.folds⟩

theorem Folded.closed
    {w : World β ExactLog} {op : Op}
    (h : Folded w)
    (hop : op.Closes)
    (script : List (Option GoString)) (leaseID : GoString) :
    Folded
      { w with
        journal := ⟨w.journal.records ++ [closeRecord op leaseID], script⟩
        engine := w.engine.dropLease leaseID } :=
  ⟨h.journalled, fun hrec => (h.folds hrec).close hop leaseID⟩

/-- A whole pass appends one stale record for each unmatched lease ID. -/
theorem wp_recordStale_exact
    (matchedIDs : Finset GoString) (leaseIDs : List GoString) {w : World β ExactLog}
    (hjournal : w.engine.config.journal = true) :
    wp (recordStale matchedIDs leaseIDs)
      (fun _ w' => w'.engine = w.engine ∧
        w'.journal.records = w.journal.records ++
          (leaseIDs.filter (fun leaseID => leaseID ∉ matchedIDs)).map
            (closeRecord .stale))
      (fun _ w' => w'.engine = w.engine)
      (fun _ => True) w := by
  refine wp_recordStale
    (I := fun closed w' => w'.engine = w.engine ∧
      w'.journal.records = w.journal.records ++ closed.map (closeRecord .stale))
    ?_ ⟨rfl, (List.append_nil _).symm⟩
  rintro closed leaseID w' _ _ ⟨hengine, hrecords⟩
  have hjournal' : w'.engine.config.journal = true := by
    rw [hengine]
    exact hjournal
  refine wp_record_exact hjournal' ?_ (fun _ _ => hengine)
  intro script
  refine ⟨hengine, ?_⟩
  rw [hrecords, List.map_append, List.append_assoc]
  rfl

variable [Backend β]

theorem enqueue_folded
    {w : World β ExactLog} (newID : GoString) (payload : Bytes)
    (h : Folded w) :
    System.Ends Folded (enqueue newID payload) w := by
  unfold System.Ends enqueue
  rw [wp_bind, wp_ensureRecovered]
  cases w.engine.recoveryErr with
  | some err => exact h
  | none =>
      simp only [wp_bind, wp_pure]
      exact wp_onBackend_any (fun _ b => h.backend b) (fun _ b => h.backend b)
        (fun _ => trivial)

theorem fetch_folded
    {w : World β ExactLog} (leaseID : GoString) (now timeout : Int)
    (h : Folded w) :
    System.Ends Folded (fetch leaseID now timeout) w := by
  unfold System.Ends fetch
  split_ifs
  · exact h
  rw [wp_bind, wp_ensureRecovered]
  cases hrec : w.engine.recoveryErr with
  | some err => exact h
  | none =>
      rw [wp_bind, wp_attempt]
      refine wp_onBackend_any ?_ ?_ (fun _ => trivial)
      · intro task b
        rw [wp_bind, wp_attempt]
        refine wp_record_exact h.journalled ?_ ?_
        · intro script
          rw [wp_bind, wp_onEngine]
          exact ⟨h.journalled, fun _ => (h.folds hrec).publish _⟩
        · intro err script
          rw [wp_bind, wp_attempt]
          exact wp_onBackend_any
            (fun _ _ => (h.refused script).backend _)
            (fun _ _ => (h.refused script).backend _)
            (fun _ => trivial)
      · intro err b
        dsimp only
        split_ifs <;> exact h.backend b

theorem ack_folded
    {w : World β ExactLog} (leaseID : GoString)
    (h : Folded w) :
    System.Ends Folded (ack leaseID) w := by
  unfold System.Ends ack
  rw [wp_bind, wp_ensureRecovered]
  cases w.engine.recoveryErr with
  | some err => exact h
  | none =>
      rw [wp_bind, wp_read]
      cases w.engine.leases.lookup leaseID with
      | none => exact h
      | some lease =>
          rw [wp_bind, wp_attempt]
          refine wp_onBackend_any ?_ ?_ (fun _ => trivial)
          · intro _ b
            rw [wp_bind]
            exact wp_record_exact h.journalled
              (fun script => (h.backend b).closed (by trivial) script leaseID)
              (fun _ script => (h.backend b).refused script)
          · intro err b
            dsimp only
            split_ifs
            · rw [wp_bind]
              exact wp_record_exact h.journalled
                (fun script => (h.backend b).closed (by trivial) script leaseID)
                (fun _ script => (h.backend b).refused script)
            · exact h.backend b

/--
Expiring a lease either adds one close record for it, or reports an error and
leaves the records alone.
-/
theorem wp_expireLease_exact
    {w : World β ExactLog} {lease : Lease}
    (hj : w.engine.config.journal = true) :
    wp (expireLease lease)
      (fun _ w' => ∃ op : Op, op.Closes ∧ w'.engine = w.engine ∧
        w'.journal.records =
          w.journal.records ++ [closeRecord op lease.leaseID])
      (fun _ w' => w'.engine = w.engine ∧
        w'.journal.records = w.journal.records)
      (fun _ => True) w := by
  unfold expireLease
  rw [wp_bind, wp_read, wp_bind, wp_attempt]
  refine wp_onBackend_any ?_ ?_ (fun _ => trivial)
  · intro _ b
    refine wp_record_exact hj ?_ (fun _ _ => ⟨rfl, rfl⟩)
    intro script
    refine ⟨_, ?_, rfl, rfl⟩
    cases w.engine.shouldDeadLetter lease <;> trivial
  · intro err b
    dsimp only
    split_ifs
    · exact wp_record_exact hj
        (fun _ => ⟨.stale, trivial, rfl, rfl⟩) (fun _ _ => ⟨rfl, rfl⟩)
    · exact ⟨rfl, rfl⟩

theorem reapExpired_folded
    {w : World β ExactLog} (now : Int)
    (h : Folded w) :
    System.Ends Folded (reapExpired now) w := by
  refine wp_mono (wp_reapExpired
    (I := fun _ w' => Folded w' ∧ w'.engine.recoveryErr = none)
    (F := fun _ _ => Folded) (C := fun _ => True) ?_ ?_ (fun _ _ => h)
    (fun hrec => ⟨h, hrec⟩)) ?_ (fun _ _ hfalse => hfalse.elim) (fun _ _ => trivial)
  · rintro _ w' item ⟨hf, hrec⟩ _ _ _
    exact ⟨⟨hf.journalled, hf.folds⟩, hrec⟩
  · rintro _ w' item lease ⟨hf, hrec⟩ _ _ hactive _
    -- The close record names the lease, the deletion its map key.
    have hid : lease.leaseID = item.leaseID := by
      have hl := hf.folds hrec item.leaseID
      rw [hactive] at hl
      obtain ⟨r, hr, rfl⟩ := Option.map_eq_some_iff.mp hl
      exact live_lookup_leaseID hr
    refine wp_mono (wp_expireLease_exact hf.journalled) ?_ ?_ (fun _ _ => trivial)
    · rintro _ w'' ⟨op, hop, _, hrecords⟩
      refine ⟨⟨hf.journalled, ?_⟩, hrec⟩
      intro _
      rw [hrecords, hid]
      exact (hf.folds hrec).close hop item.leaseID
    · rintro err w'' ⟨_, hrecords⟩
      refine ⟨hf.journalled, ?_⟩
      intro _
      rw [hrecords]
      exact hf.folds hrec
  · exact fun _ _ hr => hr.elim (fun _ _ hI => hI.1) (fun _ _ _ hF => hF)

theorem newEngine_folded
    {w : World β ExactLog} (config : EngineConfig) (orders : RestoreOrders)
    (hj : config.journal = true) :
    System.Ends Folded (newEngine config orders w.journal.records) w := by
  have hblank : (Engine.blank config).config.journal = true := hj
  unfold System.Ends newEngine
  rw [wp_bind, wp_onEngine]
  unfold restore
  rw [wp_bind, wp_attempt]
  refine wp_onBackend_any ?_ ?_ (fun _ => trivial)
  · intro result b
    rw [wp_bind, wp_attempt]
    refine wp_mono (wp_recordStale_exact _ _ hblank)
      ?_ ?_ (fun _ _ => trivial)
    · rintro _ w' ⟨hengine, hrecords⟩
      rw [wp_onEngine]
      dsimp only at hengine hrecords
      refine ⟨?_, fun _ => ?_⟩
      · rw [hengine, (publishMatched_config _ _ _).1]
        exact hj
      · rw [hrecords, hengine]
        exact folds_restored _ _ _ _ _
    · intro err w' hengine
      dsimp only at hengine
      refine ⟨?_, ?_⟩
      · show w'.engine.config.journal = true
        rw [hengine]
        exact hj
      · intro hrec
        cases hrec
  · intro err b
    exact ⟨hj, fun hrec => by cases hrec⟩

theorem folded_kept :
    System.Kept (Folded : World β ExactLog → Prop) where
  enqueue _ newID payload h := enqueue_folded newID payload h
  fetch _ leaseID now timeout h := fetch_folded leaseID now timeout h
  ack _ leaseID h := ack_folded leaseID h
  reapExpired _ now h := reapExpired_folded now h

/-- Systems over `β` that are restarted from the records of their own journal. -/
def exactJournal (β : Type) [Backend β] :
    Machine (System β ExactLog) (Event ExactLog) Reply where
  step := System.step
  guard s e :=
    match e with
    | .restart config _ journal recovered =>
        config.journal = true ∧ journal.records = s.journal.records ∧
          recovered = journal.records
    | _ => True

theorem exactJournal_folded
    {s t : System β ExactLog} {es : List (Event ExactLog × Reply)}
    (hrun : (exactJournal β).Run s es t)
    (hs : s.Holds Folded) :
    t.Holds Folded := by
  refine hrun.invariant (P := System.Holds Folded) ?_ hs
  intro u e hu hguard
  show System.Holds Folded (u.step e).2
  refine folded_kept.step hu ?_
  rintro config orders journal recovered rfl
  obtain ⟨hj, _, rfl⟩ :
      config.journal = true ∧ journal.records = u.journal.records ∧
        recovered = journal.records := hguard
  exact newEngine_folded (w := ⟨Engine.blank config, u.backend, journal⟩)
    config orders hj

/--
The journal always folds to the lease state in memory: over any backend, in every
state between operations whose recovery succeeded, the open leases of the journal
are the active leases, with the same task and the same times.
-/
theorem live_eq_active_leases
    (b : β) (j : ExactLog) {s : System β ExactLog}
    {es : List (Event ExactLog × Reply)} {engine : Engine}
    (hrun : (exactJournal β).Run ⟨none, b, j, []⟩ es s)
    (hprocess : s.process = some engine)
    (hrecovered : engine.recoveryErr = none) :
    (∀ leaseID, leaseID ∈ live s.journal.records ↔ leaseID ∈ engine.leases) ∧
    (∀ leaseID record lease,
      (live s.journal.records).lookup leaseID = some record →
      engine.leases.lookup leaseID = some lease →
      record.task = lease.task ∧
      record.createdAt = lease.createdAt ∧
      record.expiresAt = lease.expiresAt) := by
  have hfolds : Folds s.journal.records engine.leases :=
    (exactJournal_folded hrun (by rintro _ ⟨⟩) engine hprocess).folds hrecovered
  constructor
  · intro leaseID
    rw [← AList.lookup_isSome, ← AList.lookup_isSome, ← hfolds leaseID]
    simp
  · intro leaseID record lease hrecord hlease
    have heq := hfolds leaseID
    rw [hrecord, hlease] at heq
    cases heq
    exact ⟨rfl, rfl, rfl⟩

end AnyBackend

/-- One task is enqueued and leased over a memory queue. -/
theorem live_eq_active_leases_fetched :
    ∃ (s : System Storage ExactLog) (es : List (Event ExactLog × Reply))
      (engine : Engine),
      (exactJournal Storage).Run
        ⟨none, ⟨⟨MemoryQueue.new, []⟩, []⟩, ⟨[], []⟩, []⟩ es s ∧
      s.process = some engine ∧
      engine.leases.lookup [76] = some ⟨[76], ⟨[84], [1, 2], 0⟩, 5, 15⟩ ∧
      (∀ leaseID, leaseID ∈ live s.journal.records ↔ leaseID ∈ engine.leases) :=
  have hrun := (exactJournal Storage).run_of_admits
    [.restart ⟨3, 0, true⟩ ⟨[], [], []⟩ ⟨[], []⟩ [], .enqueue [84] [1, 2],
      .fetch [76] 5 10]
    ⟨none, ⟨⟨MemoryQueue.new, []⟩, []⟩, ⟨[], []⟩, []⟩
    ⟨⟨rfl, rfl, rfl⟩, trivial, trivial, trivial⟩
  ⟨_, _, _, hrun, rfl, by decide,
    (live_eq_active_leases _ _ hrun rfl rfl).1⟩

end Moxy
