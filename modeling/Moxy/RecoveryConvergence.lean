import Moxy.CalmStorage
import Moxy.CustodySimulation

/-!
# Moxy: recovery is exact, idempotent and crash-convergent

`Recovers` is the result that a recovery is meant to have, in terms of the queue
and the records it starts from; it does not mention iteration orders.  The first
part shows that `newEngine` has this result whenever its storage answers.

`Interrupted` is what a recovery can leave behind when it ends early, in whatever
way.  The rest is algebra: `Recovers` from an interrupted state is `Recovers` from
the original state.
-/

namespace Moxy

open Lib Lib.CrashM

/-- An open lease of the records names the task. -/
def backed (rs : List Record) (taskID leaseID : GoString) : Bool :=
  match (live rs).lookup leaseID with
  | some r => decide (r.task.id = taskID)
  | none => false

theorem backed_iff
    {rs : List Record} {taskID leaseID : GoString} :
    backed rs taskID leaseID = true ↔
      ∃ r, (live rs).lookup leaseID = some r ∧ r.task.id = taskID := by
  unfold backed
  cases (live rs).lookup leaseID with
  | none => simp
  | some r => simp

/-- The tasks in processing that no open lease names. -/
def unbackedTasks (q : MemoryQueue) (rs : List Record) : List Task :=
  ((q.processing.range []).filter
    (fun v => !backed rs v.1 v.2.leaseID)).map (·.2.task)

/-- The exact result of a recovery of `q` from the records `rs`. -/
structure Recovers (q : MemoryQueue) (rs : List Record)
    (engine : Engine) (q' : MemoryQueue) (rs' : List Record) : Prop where
  recovered : engine.recoveryErr = none
  leases : ∀ leaseID lease, engine.leases.lookup leaseID = some lease ↔
    ∃ r, (live rs).lookup leaseID = some r ∧
      q.FencedBy r.task.id leaseID ∧ lease = r.lease
  heap : engine.expirations.toList.Perm
    ((engine.leases.range []).map (fun b => ⟨b.1, b.2.expiresAt⟩))
  processing : ∀ taskID entry,
    q'.processing.lookup taskID = some entry ↔
      q.processing.lookup taskID = some entry ∧
        backed rs taskID entry.leaseID = true
  ready : ∃ moved, q'.ready = q.ready ++ moved ∧
    moved.Perm (unbackedTasks q rs)
  dead : q'.dead = q.dead
  unchanged : unbackedTasks q rs = [] → q' = q
  journal : ∃ closed : List GoString,
    rs' = rs ++ closed.map (closeRecord .stale) ∧
    closed.Nodup ∧
    ∀ leaseID, leaseID ∈ closed ↔
      ∃ r, (live rs).lookup leaseID = some r ∧
        ¬ q.FencedBy r.task.id leaseID

/-- Storage on which every call takes effect and reports its result. -/
structure World.Reliable (w : World Storage LeaseLog) : Prop where
  calls : ∀ env ∈ w.backend.script, env.fate = .reports
  appends : ∀ fate ∈ w.journal.script, fate = .stored

section Exactness

variable {q : MemoryQueue} {rs : List Record}

/-- Reconciliation keeps exactly the backed entries. -/
theorem recover_lookup_backed
    {order order' : List GoString} {taskID : GoString} {entry : ProcessingEntry} :
    (q.recoverOrphanedProcessing order
        (openFences order' (live rs))).2.processing.lookup taskID = some entry ↔
      q.processing.lookup taskID = some entry ∧
        backed rs taskID entry.leaseID = true := by
  rw [MemoryQueue.recoverOrphanedProcessing_lookup, mem_openFences, backed_iff]

/-- Reconciliation returns the unbacked tasks, in the order of its visit. -/
theorem recover_ready_unbacked
    (order order' : List GoString) :
    ∃ moved,
      (q.recoverOrphanedProcessing order
        (openFences order' (live rs))).2.ready = q.ready ++ moved ∧
      moved.Perm (unbackedTasks q rs) := by
  refine ⟨_, MemoryQueue.recoverOrphanedProcessing_ready _ _ _, ?_⟩
  unfold MemoryQueue.orphans unbackedTasks
  have hcongr :
      (q.processing.range order).filter
          (fun v => (⟨v.1, v.2.leaseID⟩ : LeaseFence) ∉
            openFences order' (live rs)) =
        (q.processing.range order).filter
          (fun v => !backed rs v.1 v.2.leaseID) := by
    refine List.filter_congr ?_
    intro v _
    have hiff : backed rs v.1 v.2.leaseID = true ↔
        (⟨v.1, v.2.leaseID⟩ : LeaseFence) ∈ openFences order' (live rs) := by
      rw [backed_iff, mem_openFences]
    cases hb : backed rs v.1 v.2.leaseID with
    | true => simp [hiff.mp hb]
    | false => simpa [hb] using hiff
  rw [hcongr]
  exact ((Map.range_perm order [] (fun _ => rfl)).filter _).map _

/-- Without unbacked tasks there is nothing to reconcile. -/
theorem recover_eq_of_unbacked
    (order order' : List GoString)
    (h : unbackedTasks q rs = []) :
    (q.recoverOrphanedProcessing order (openFences order' (live rs))).2 = q := by
  have horphans : q.orphans order (openFences order' (live rs)) = [] := by
    obtain ⟨moved, hready, hperm⟩ := recover_ready_unbacked order order'
      (q := q)
    rw [h] at hperm
    rw [hperm.eq_nil, MemoryQueue.recoverOrphanedProcessing_ready] at hready
    exact List.map_eq_nil_iff.mp (List.append_cancel_left hready)
  have hready := MemoryQueue.recoverOrphanedProcessing_ready order
    (openFences order' (live rs)) q
  have hprocessing := MemoryQueue.recoverOrphanedProcessing_processing order
    (openFences order' (live rs)) q
  have hdead := MemoryQueue.recoverOrphanedProcessing_dead order
    (openFences order' (live rs)) q
  rw [horphans] at hready hprocessing
  rw [List.map_nil, List.append_nil] at hready
  rw [List.map_nil, List.foldl_nil] at hprocessing
  cases q
  cases hq : (MemoryQueue.recoverOrphanedProcessing order
    (openFences order' (live rs)) _).2
  rw [hq] at hready hprocessing hdead
  cases hready
  cases hprocessing
  cases hdead
  rfl

/-- The heap entries that a visit of the open leases adds. -/
theorem publishMatched_heap
    (matchedIDs : Finset GoString) :
    ∀ (opened : List (GoString × Record)) (e : Engine),
      (publishMatched matchedIDs opened e).expirations.toList.Perm
        (((opened.filter (fun b => b.1 ∈ matchedIDs)).map
          (fun b => ⟨b.2.leaseID, b.2.expiresAt⟩)) ++ e.expirations.toList) := by
  intro opened
  induction opened with
  | nil =>
      intro e
      exact List.Perm.refl _
  | cons b opened ih =>
      intro e
      unfold publishMatched at ih ⊢
      rw [List.foldl_cons]
      by_cases h : b.1 ∈ matchedIDs
      · rw [if_pos h, List.filter_cons_of_pos (by simpa using h), List.map_cons]
        have hpush := BinaryHeap.push_perm ExpirationItem.less e.expirations
          ⟨b.2.leaseID, b.2.expiresAt⟩
        refine (ih (e.publish b.2.lease)).trans ?_
        exact (List.Perm.append_left _ hpush).trans List.perm_middle
      · rw [if_neg h, List.filter_cons_of_neg (by simpa using h)]
        exact ih e

/-- The matched leases, in terms of the queue before reconciliation. -/
theorem mem_matched_live
    {order order' : List GoString} {result : RecoveryResult}
    (hresult : (q.recoverOrphanedProcessing order
      (openFences order' (live rs))).1 = .ok result)
    (leaseID : GoString) :
    leaseID ∈ result.matchedLeaseIDs ↔
      ∃ r, (live rs).lookup leaseID = some r ∧ q.FencedBy r.task.id leaseID := by
  rw [mem_matched_iff hresult]
  constructor
  · rintro ⟨r, hr, hf⟩
    exact ⟨r, hr, (MemoryQueue.recover_fencedBy.mp hf).1⟩
  · rintro ⟨r, hr, hf⟩
    refine ⟨r, hr, MemoryQueue.recover_fencedBy.mpr ⟨hf, ?_⟩⟩
    exact mem_openFences.mpr ⟨r, hr, rfl⟩

/-- The lease IDs for which a pass over the open leases adds a stale record. -/
def staleIDs (rs : List Record) (order : List GoString)
    (matchedIDs : Finset GoString) : List GoString :=
  (((live rs).range order).map Prod.fst).filter
    (fun leaseID => leaseID ∉ matchedIDs)

theorem mem_staleIDs
    {order : List GoString} {matchedIDs : Finset GoString} {leaseID : GoString} :
    leaseID ∈ staleIDs rs order matchedIDs ↔
      (∃ r, (live rs).lookup leaseID = some r) ∧ leaseID ∉ matchedIDs := by
  simp [staleIDs]

theorem staleIDs_nodup
    (order : List GoString) (matchedIDs : Finset GoString) :
    (staleIDs rs order matchedIDs).Nodup :=
  (Map.range_keys_nodup order _).filter _

/-- The heap of a finished recovery holds one entry for each active lease. -/
theorem publishMatched_heap_leases
    (matchedIDs : Finset GoString) (order : List GoString)
    (config : EngineConfig) :
    (publishMatched matchedIDs ((live rs).range order)
        (Engine.blank config)).expirations.toList.Perm
      (((publishMatched matchedIDs ((live rs).range order)
        (Engine.blank config)).leases.range []).map
          (fun b => ⟨b.1, b.2.expiresAt⟩)) := by
  have hheap := publishMatched_heap matchedIDs ((live rs).range order)
    (Engine.blank config)
  have hleases :
      ((publishMatched matchedIDs ((live rs).range order)
        (Engine.blank config)).leases.range []).Perm
      ((((live rs).range order).filter (fun b => b.1 ∈ matchedIDs)).map
        (fun b => (b.1, b.2.lease))) := by
    refine (List.perm_ext_iff_of_nodup (Map.range_nodup _ _) ?_).mpr ?_
    · refine List.Nodup.of_map Prod.fst ?_
      rw [List.map_map]
      exact (Map.range_keys_nodup order (live rs)).sublist
        ((List.filter_sublist).map Prod.fst)
    · rintro ⟨leaseID, lease⟩
      rw [Map.mem_range, publishMatched_lookup, List.mem_map]
      constructor
      · intro h
        split_ifs at h with hin
        obtain ⟨r, hr, rfl⟩ := Option.map_eq_some_iff.mp h
        exact ⟨(leaseID, r), List.mem_filter.mpr
          ⟨(Map.mem_range order _ _ _).mpr hr, by simpa using hin⟩, rfl⟩
      · rintro ⟨⟨k, r⟩, hb, heq⟩
        obtain ⟨hmem, hin⟩ := List.mem_filter.mp hb
        cases heq
        rw [if_pos (by simpa using hin), (Map.mem_range order _ _ _).mp hmem]
        rfl
  rw [show (Engine.blank config).expirations.toList = [] from rfl,
    List.append_nil] at hheap
  refine hheap.trans (List.Perm.trans ?_ (hleases.map _).symm)
  rw [List.map_map]
  refine List.Perm.of_eq (List.map_congr_left ?_)
  intro b hb
  have hkey : b.2.leaseID = b.1 := mem_range_live (List.mem_filter.mp hb).1
  simp [hkey, Record.lease]

/-- A pass over lease IDs, on a journal that stores everything. -/
theorem wp_recordStale_reliable
    (matchedIDs : Finset GoString) (leaseIDs : List GoString)
    {w : World Storage LeaseLog}
    (hjournal : w.engine.config.journal = true)
    (hreliable : w.Reliable) :
    wp (recordStale matchedIDs leaseIDs)
      (fun _ w' => w'.engine = w.engine ∧ w'.backend = w.backend ∧
        w'.journal.entries = w.journal.entries ++
          (leaseIDs.filter (fun leaseID => leaseID ∉ matchedIDs)).map
            (fun leaseID => ⟨closeRecord .stale leaseID, true⟩))
      (fun _ _ => False) (fun _ => False) w := by
  refine wp_mono (wp_recordStale
    (I := fun closed w' => (∀ fate ∈ w'.journal.script, fate = .stored) ∧
      w'.engine = w.engine ∧ w'.backend = w.backend ∧
      w'.journal.entries = w.journal.entries ++
        closed.map (fun leaseID => ⟨closeRecord .stale leaseID, true⟩))
    ?_ ⟨hreliable.appends, rfl, rfl, (List.append_nil _).symm⟩)
    (fun _ _ h => h.2) (fun _ _ h => h) (fun _ h => h)
  rintro closed leaseID w' _ _ ⟨happends, hengine, hbackend, hentries⟩
  have hjournal' : w'.engine.config.journal = true := by
    rw [hengine]
    exact hjournal
  have hstored : w'.journal.script.headD .stored = .stored :=
    headD_of_all (P := (· = AppendFate.stored)) happends rfl
  refine wp_record_calm hjournal' hstored
    ⟨fun fate hf => happends fate (List.mem_of_mem_tail hf), hengine, hbackend, ?_⟩
  rw [hentries, List.map_append, List.append_assoc]
  rfl

/-- A recovery on reliable storage has exactly its intended result. -/
theorem newEngine_recovers
    {config : EngineConfig} {w : World Storage LeaseLog}
    (orders : RestoreOrders)
    (hjournal : config.journal = true)
    (hreliable : w.Reliable) :
    ∃ w', newEngine config orders w.journal.records w = .ok () w' ∧
      Recovers w.backend.store.queue w.journal.records w'.engine
        w'.backend.store.queue w'.journal.records := by
  have hcalm : (w.backend.script.headD CallEnv.calm).fate = .reports := by
    cases hs : w.backend.script with
    | nil => rfl
    | cons env others => exact hreliable.calls env (by simp [hs])
  have hends : wp (newEngine config orders w.journal.records)
      (fun _ w' => Recovers w.backend.store.queue w.journal.records w'.engine
        w'.backend.store.queue w'.journal.records)
      (fun _ _ => False) (fun _ => False) w := by
    unfold newEngine restore onBackend
    rw [wp_bind, wp_onEngine, wp_bind, wp_attempt, wp_zoom]
    refine Storage.wp_call_calm hcalm ?_ (fun _ _ herr => by cases herr)
    intro env result hresult
    have hmatched : ∀ leaseID, leaseID ∈ result.matchedLeaseIDs ↔
        ∃ r, (live w.journal.records).lookup leaseID = some r ∧
          w.backend.store.queue.FencedBy r.task.id leaseID :=
      mem_matched_live hresult
    rw [wp_bind, wp_attempt]
    refine wp_mono (wp_recordStale_reliable result.matchedLeaseIDs _ hjournal
      ⟨fun env henv => hreliable.calls env (List.mem_of_mem_tail henv),
        hreliable.appends⟩)
      ?_ (fun _ _ h => h.elim) (fun _ h => h)
    rintro _ w' ⟨hengine, hbackend, hentries⟩
    dsimp only
    rw [wp_onEngine, hengine, hbackend]
    refine ⟨(publishMatched_config _ _ _).2, ?_,
      publishMatched_heap_leases _ _ _, fun _ _ => recover_lookup_backed,
      recover_ready_unbacked _ _,
      MemoryQueue.recoverOrphanedProcessing_dead _ _ _,
      recover_eq_of_unbacked _ _, ?_⟩
    · intro leaseID lease
      rw [publishMatched_lookup]
      constructor
      · intro h
        split_ifs at h with hin
        obtain ⟨r, hr, rfl⟩ := Option.map_eq_some_iff.mp h
        obtain ⟨r', hr', hf⟩ := (hmatched leaseID).mp hin
        have hsame : r' = r := Option.some.inj (hr'.symm.trans hr)
        subst hsame
        exact ⟨r', hr, hf, rfl⟩
      · rintro ⟨r, hr, hf, rfl⟩
        rw [if_pos ((hmatched leaseID).mpr ⟨r, hr, hf⟩), hr]
        rfl
    · refine ⟨staleIDs w.journal.records orders.stale result.matchedLeaseIDs,
        ?_, staleIDs_nodup _ _, ?_⟩
      · show w'.journal.entries.map JournalEntry.record = _
        rw [hentries]
        simp [LeaseLog.records, staleIDs]
      · intro leaseID
        rw [mem_staleIDs, hmatched leaseID]
        constructor
        · rintro ⟨⟨r, hr⟩, hnot⟩
          exact ⟨r, hr, fun hf => hnot ⟨r, hr, hf⟩⟩
        · rintro ⟨r, hr, hnot⟩
          refine ⟨⟨r, hr⟩, ?_⟩
          rintro ⟨r', hr', hf⟩
          have hsame : r' = r := Option.some.inj (hr'.symm.trans hr)
          subst hsame
          exact hnot hf
  obtain ⟨⟨⟩, w', hw', hrecovers⟩ := wp_returns hends
  exact ⟨w', hw', hrecovers⟩

end Exactness

/-- The tasks that are ready or in processing. -/
def MemoryQueue.openTasks (q : MemoryQueue) : List Task :=
  q.ready ++ (q.processing.range []).map (·.2.task)

/--
What an early end of a recovery of `q` from `rs` can leave behind: some unmatched
leases are closed in the records, and some unbacked entries are back in ready.
-/
structure Interrupted (q : MemoryQueue) (rs : List Record)
    (q₁ : MemoryQueue) (rs₁ : List Record) : Prop where
  journal : ∃ closed : List GoString,
    rs₁ = rs ++ closed.map (closeRecord .stale) ∧
    ∀ leaseID ∈ closed, ∃ r, (live rs).lookup leaseID = some r ∧
      ¬ q.FencedBy r.task.id leaseID
  shrinks : ∀ taskID entry,
    q₁.processing.lookup taskID = some entry →
    q.processing.lookup taskID = some entry
  keeps : ∀ taskID entry,
    q.processing.lookup taskID = some entry →
    backed rs taskID entry.leaseID = true →
    q₁.processing.lookup taskID = some entry
  dead : q₁.dead = q.dead
  tasks : q₁.openTasks.Perm q.openTasks

section Algebra

variable {q q₁ q' : MemoryQueue} {rs rs₁ rs' : List Record} {engine : Engine}

theorem Interrupted.refl
    (q : MemoryQueue) (rs : List Record) :
    Interrupted q rs q rs where
  journal := ⟨[], by simp, by simp⟩
  shrinks _ _ h := h
  keeps _ _ h _ := h
  dead := rfl
  tasks := List.Perm.refl _

/-- Records of closed leases do not open others. -/
theorem Interrupted.live_iff
    (h : Interrupted q rs q₁ rs₁) {leaseID : GoString} {r : Record}
    (hf : q.FencedBy r.task.id leaseID) :
    (live rs₁).lookup leaseID = some r ↔ (live rs).lookup leaseID = some r := by
  obtain ⟨closed, rfl, hclosed⟩ := h.journal
  rw [live_append_stale]
  constructor
  · intro hl
    split_ifs at hl
    exact hl
  · intro hl
    rw [if_neg]
    · exact hl
    · intro hin
      obtain ⟨r', hr', hnot⟩ := hclosed leaseID hin
      have hsame : r' = r := Option.some.inj (hr'.symm.trans hl)
      subst hsame
      exact hnot hf

/-- An open lease whose task it fences is the same before and after. -/
theorem Interrupted.open_iff
    (h : Interrupted q rs q₁ rs₁) (leaseID : GoString) (r : Record) :
    ((live rs₁).lookup leaseID = some r ∧ q₁.FencedBy r.task.id leaseID) ↔
      ((live rs).lookup leaseID = some r ∧ q.FencedBy r.task.id leaseID) := by
  constructor
  · rintro ⟨hr, task, hl⟩
    have hf : q.FencedBy r.task.id leaseID := ⟨task, h.shrinks _ _ hl⟩
    exact ⟨(h.live_iff hf).mp hr, hf⟩
  · rintro ⟨hr, hf⟩
    obtain ⟨task, hl⟩ := hf
    refine ⟨(h.live_iff ⟨task, hl⟩).mpr hr, task, h.keeps _ _ hl ?_⟩
    exact backed_iff.mpr ⟨r, hr, rfl⟩

/-- A processing entry is backed by the same records before and after. -/
theorem Interrupted.backed_eq
    (h : Interrupted q rs q₁ rs₁) {taskID : GoString} {entry : ProcessingEntry}
    (hl : q.processing.lookup taskID = some entry) :
    backed rs₁ taskID entry.leaseID = true ↔
      backed rs taskID entry.leaseID = true := by
  rw [backed_iff, backed_iff]
  constructor
  · rintro ⟨r, hr, rfl⟩
    exact ⟨r, (h.live_iff ⟨entry.task, hl⟩).mp hr, rfl⟩
  · rintro ⟨r, hr, rfl⟩
    exact ⟨r, (h.live_iff ⟨entry.task, hl⟩).mpr hr, rfl⟩

/-- The tasks of a queue split into those kept in processing and those moved. -/
theorem openTasks_perm
    (hready : ∃ moved, q'.ready = q.ready ++ moved ∧
      moved.Perm (unbackedTasks q rs))
    (hprocessing : ∀ taskID entry,
      q'.processing.lookup taskID = some entry ↔
        q.processing.lookup taskID = some entry ∧
          backed rs taskID entry.leaseID = true) :
    q'.openTasks.Perm q.openTasks := by
  obtain ⟨moved, hready, hmoved⟩ := hready
  have hkept : (q'.processing.range []).Perm
      ((q.processing.range []).filter (fun v => backed rs v.1 v.2.leaseID)) := by
    refine (List.perm_ext_iff_of_nodup (Map.range_nodup _ _)
      ((Map.range_nodup _ _).filter _)).mpr ?_
    rintro ⟨taskID, entry⟩
    rw [Map.mem_range, List.mem_filter, Map.mem_range]
    exact hprocessing taskID entry
  have hsplit := List.filter_append_perm
    (fun v : GoString × ProcessingEntry => !backed rs v.1 v.2.leaseID)
    (q.processing.range [])
  simp only [Bool.not_not] at hsplit
  have hall := hsplit.map (fun v : GoString × ProcessingEntry => v.2.task)
  rw [List.map_append] at hall
  unfold MemoryQueue.openTasks
  rw [hready, List.append_assoc]
  refine List.Perm.append_left _ (List.Perm.trans ?_ hall)
  exact List.Perm.append hmoved (hkept.map _)

theorem Recovers.openTasks
    (h : Recovers q rs engine q' rs') :
    q'.openTasks.Perm q.openTasks :=
  openTasks_perm h.ready h.processing

/-- A finished recovery is one way to end. -/
theorem Recovers.interrupted
    (h : Recovers q rs engine q' rs') :
    Interrupted q rs q' rs' where
  journal := by
    obtain ⟨closed, hrs, _, hclosed⟩ := h.journal
    exact ⟨closed, hrs, fun leaseID hin => (hclosed leaseID).mp hin⟩
  shrinks taskID entry hl := ((h.processing taskID entry).mp hl).1
  keeps taskID entry hl hb := (h.processing taskID entry).mpr ⟨hl, hb⟩
  dead := h.dead
  tasks := h.openTasks

/-- The leases that a finished recovery leaves open in the records. -/
theorem Recovers.live_iff
    (h : Recovers q rs engine q' rs') (leaseID : GoString) (r : Record) :
    (live rs').lookup leaseID = some r ↔
      (live rs).lookup leaseID = some r ∧ q.FencedBy r.task.id leaseID := by
  obtain ⟨closed, rfl, _, hclosed⟩ := h.journal
  rw [live_append_stale]
  constructor
  · intro hl
    split_ifs at hl with hin
    refine ⟨hl, ?_⟩
    by_contra hnot
    exact hin ((hclosed leaseID).mpr ⟨r, hl, hnot⟩)
  · rintro ⟨hl, hf⟩
    rw [if_neg]
    · exact hl
    · intro hin
      obtain ⟨r', hr', hnot⟩ := (hclosed leaseID).mp hin
      have hsame : r' = r := Option.some.inj (hr'.symm.trans hl)
      subst hsame
      exact hnot hf

end Algebra

/-- Two recoveries that cannot be told apart. -/
structure SameRecovery (engine₁ engine₂ : Engine) (q₁ q₂ : MemoryQueue)
    (rs₁ rs₂ : List Record) : Prop where
  leases : ∀ leaseID,
    engine₁.leases.lookup leaseID = engine₂.leases.lookup leaseID
  processing : ∀ taskID,
    q₁.processing.lookup taskID = q₂.processing.lookup taskID
  dead : q₁.dead = q₂.dead
  ready : q₁.ready.Perm q₂.ready
  live : ∀ leaseID, (live rs₁).lookup leaseID = (live rs₂).lookup leaseID

/-- Recovering an interrupted state is recovering the original one. -/
theorem Recovers.converges
    {q q₁ q₂ q₃ : MemoryQueue} {rs rs₁ rs₂ rs₃ : List Record}
    {engine₂ engine₃ : Engine}
    (hfirst : Interrupted q rs q₁ rs₁)
    (hagain : Recovers q₁ rs₁ engine₂ q₂ rs₂)
    (honce : Recovers q rs engine₃ q₃ rs₃) :
    SameRecovery engine₂ engine₃ q₂ q₃ rs₂ rs₃ := by
  have hprocessing : ∀ taskID,
      q₂.processing.lookup taskID = q₃.processing.lookup taskID := by
    intro taskID
    refine Option.ext ?_
    intro entry
    rw [hagain.processing, honce.processing]
    constructor
    · rintro ⟨hl, hb⟩
      have hold := hfirst.shrinks _ _ hl
      exact ⟨hold, (hfirst.backed_eq hold).mp hb⟩
    · rintro ⟨hl, hb⟩
      exact ⟨hfirst.keeps _ _ hl hb, (hfirst.backed_eq hl).mpr hb⟩
  refine ⟨?_, hprocessing, ?_, ?_, ?_⟩
  · intro leaseID
    refine Option.ext ?_
    intro lease
    rw [hagain.leases, honce.leases]
    constructor
    · rintro ⟨r, hr, hf, rfl⟩
      obtain ⟨hr', hf'⟩ := (hfirst.open_iff leaseID r).mp ⟨hr, hf⟩
      exact ⟨r, hr', hf', rfl⟩
    · rintro ⟨r, hr, hf, rfl⟩
      obtain ⟨hr', hf'⟩ := (hfirst.open_iff leaseID r).mpr ⟨hr, hf⟩
      exact ⟨r, hr', hf', rfl⟩
  · rw [hagain.dead, honce.dead, hfirst.dead]
  · have hopen : q₂.openTasks.Perm q₃.openTasks :=
      (hagain.openTasks.trans hfirst.tasks).trans honce.openTasks.symm
    have hrange : ((q₂.processing.range []).map (·.2.task)).Perm
        ((q₃.processing.range []).map (·.2.task)) :=
      (Map.range_perm [] [] hprocessing).map _
    refine (List.perm_append_right_iff
      ((q₃.processing.range []).map (·.2.task))).mp ?_
    exact (List.Perm.append_left _ hrange.symm).trans hopen
  · intro leaseID
    refine Option.ext ?_
    intro r
    rw [hagain.live_iff, honce.live_iff]
    exact hfirst.open_iff leaseID r

/-- Recovering a recovered state changes nothing. -/
theorem Recovers.idempotent
    {q q₁ q₂ : MemoryQueue} {rs rs₁ rs₂ : List Record} {engine₁ engine₂ : Engine}
    (honce : Recovers q rs engine₁ q₁ rs₁)
    (hagain : Recovers q₁ rs₁ engine₂ q₂ rs₂) :
    q₂ = q₁ ∧ rs₂ = rs₁ ∧
      ∀ leaseID, engine₂.leases.lookup leaseID = engine₁.leases.lookup leaseID := by
  refine ⟨hagain.unchanged ?_, ?_,
    (Recovers.converges honce.interrupted hagain honce).leases⟩
  · unfold unbackedTasks
    rw [List.map_eq_nil_iff, List.filter_eq_nil_iff]
    rintro ⟨taskID, entry⟩ hmem
    obtain ⟨hl, hb⟩ := (honce.processing taskID entry).mp
      ((Map.mem_range [] _ _ _).mp hmem)
    have hb' := (honce.interrupted.backed_eq hl).mpr hb
    simp [hb']
  · obtain ⟨closed, hrs, _, hclosed⟩ := hagain.journal
    have hnone : closed = [] := by
      rw [List.eq_nil_iff_forall_not_mem]
      intro leaseID hin
      obtain ⟨r, hr, hnot⟩ := (hclosed leaseID).mp hin
      have hopen := (honce.live_iff leaseID r).mp hr
      exact hnot ((honce.interrupted.open_iff leaseID r).mpr hopen).2
    rw [hrs, hnone]
    simp

section EarlyEnds

/-- The entries are followed by stale records of the given lease IDs. -/
def StaleTail (ids : GoString → Prop) (before after : List JournalEntry) : Prop :=
  ∃ extra, after = before ++ extra ∧
    ∀ x ∈ extra, ∃ leaseID, ids leaseID ∧ x.record = closeRecord .stale leaseID

theorem StaleTail.refl
    (ids : GoString → Prop) (entries : List JournalEntry) :
    StaleTail ids entries entries :=
  ⟨[], by simp, by simp⟩

theorem StaleTail.append
    {ids : GoString → Prop} {before after : List JournalEntry}
    {leaseID : GoString} (h : StaleTail ids before after)
    (hid : ids leaseID) (acked : Bool) :
    StaleTail ids before (after ++ [⟨closeRecord .stale leaseID, acked⟩]) := by
  obtain ⟨extra, rfl, hextra⟩ := h
  refine ⟨extra ++ [⟨closeRecord .stale leaseID, acked⟩], by simp, ?_⟩
  intro x hx
  rcases List.mem_append.mp hx with hold | hlast
  · exact hextra x hold
  · rw [List.mem_singleton.mp hlast]
    exact ⟨leaseID, hid, rfl⟩

/-- However a pass ends, it leaves the store and a tail of stale records. -/
theorem recordStale_tail
    {ids : GoString → Prop} {entries : List JournalEntry} {store : Store}
    {matchedIDs : Finset GoString} {leaseIDs : List GoString}
    {w : World Storage LeaseLog}
    (hids : ∀ leaseID ∈ leaseIDs, leaseID ∉ matchedIDs → ids leaseID)
    (hstore : w.backend.store = store)
    (htail : StaleTail ids entries w.journal.entries) :
    wp (recordStale matchedIDs leaseIDs)
      (fun _ w' => w'.backend.store = store ∧
        StaleTail ids entries w'.journal.entries)
      (fun _ w' => w'.backend.store = store ∧
        StaleTail ids entries w'.journal.entries)
      (fun w' => w'.backend.store = store ∧
        StaleTail ids entries w'.journal.entries) w := by
  refine wp_recordStale
    (I := fun _ (w' : World Storage LeaseLog) => w'.backend.store = store ∧
      StaleTail ids entries w'.journal.entries) ?_ ⟨hstore, htail⟩
  rintro _ leaseID w' hin hunmatched ⟨hstore', htail'⟩
  refine wp_record_reach (R := StaleTail ids entries) htail'
    (fun acked => htail'.append (hids leaseID hin hunmatched) acked) ?_ ?_ ?_
  · exact fun _ _ hR => ⟨hstore', hR⟩
  · exact fun _ _ _ hR => ⟨hstore', hR⟩
  · exact fun _ _ hR => ⟨hstore', hR⟩

/-- What an end of `newEngine`, of any kind, can leave in storage. -/
structure PartlyRecovered (w w₁ : World Storage LeaseLog) : Prop where
  queue : w₁.backend.store.queue = w.backend.store.queue ∨
    ∃ order order', w₁.backend.store.queue =
      (w.backend.store.queue.recoverOrphanedProcessing order
        (openFences order' (live w.journal.records))).2
  entries : StaleTail
    (fun leaseID => ∃ r, (live w.journal.records).lookup leaseID = some r ∧
      ¬ w.backend.store.queue.FencedBy r.task.id leaseID)
    w.journal.entries w₁.journal.entries

theorem newEngine_partlyRecovered
    (config : EngineConfig) (orders : RestoreOrders)
    (w : World Storage LeaseLog) :
    PartlyRecovered w (newEngine config orders w.journal.records w).state := by
  refine wp_state (P := PartlyRecovered w) ?_
  unfold newEngine restore onBackend
  rw [wp_bind, wp_onEngine, wp_bind, wp_attempt, wp_zoom]
  refine Storage.wp_call_reach
    (R := fun store => store.queue = w.backend.store.queue ∨
      ∃ order order', store.queue =
        (w.backend.store.queue.recoverOrphanedProcessing order
          (openFences order' (live w.journal.records))).2)
    (Storage.within_true _) (Or.inl rfl)
    (fun env => Or.inr ⟨env.order, orders.fences, rfl⟩) ?_ ?_ ?_ ?_
  · intro env script result _ hresult
    rw [wp_bind, wp_attempt]
    have hunmatched : ∀ leaseID ∈ ((live w.journal.records).range
        orders.stale).map Prod.fst, leaseID ∉ result.matchedLeaseIDs →
        ∃ r, (live w.journal.records).lookup leaseID = some r ∧
          ¬ w.backend.store.queue.FencedBy r.task.id leaseID := by
      intro leaseID hmem hin
      obtain ⟨⟨k, r⟩, hb, rfl⟩ := List.mem_map.mp hmem
      have hr := (Map.mem_range orders.stale _ _ _).mp hb
      exact ⟨r, hr, fun hf => hin ((mem_matched_live hresult k).mpr ⟨r, hr, hf⟩)⟩
    have hqueue : ∀ w' : World Storage LeaseLog, w'.backend.store =
        (w.backend.store.recoverOrphanedProcessing env.order
          (openFences orders.fences (live w.journal.records))).2 →
        w'.backend.store.queue = w.backend.store.queue ∨
          ∃ order order', w'.backend.store.queue =
            (w.backend.store.queue.recoverOrphanedProcessing order
              (openFences order' (live w.journal.records))).2 := by
      intro w' hstore
      right
      refine ⟨env.order, orders.fences, ?_⟩
      rw [hstore]
      rfl
    refine wp_mono
      (recordStale_tail hunmatched rfl
        (StaleTail.refl _ _)) ?_ ?_ ?_
    · rintro _ w' ⟨hstore, htail⟩
      exact ⟨hqueue w' hstore, htail⟩
    · rintro err w' ⟨hstore, htail⟩
      exact ⟨hqueue w' hstore, htail⟩
    · rintro w' ⟨hstore, htail⟩
      exact ⟨hqueue w' hstore, htail⟩
  · intro env script err _ herr
    cases herr
  · exact fun _ _ _ _ _ hR => ⟨hR, StaleTail.refl _ _⟩
  · exact fun _ _ _ hR => ⟨hR, StaleTail.refl _ _⟩

/-- Acknowledged entries survive as a whole, and are followed by what else does. -/
theorem survives_append
    {before extra after : List JournalEntry}
    (hacked : ∀ entry ∈ before, entry.acked = true)
    (h : LeaseLog.Survives (before ++ extra) after) :
    ∃ rest, after = before ++ rest ∧ rest.Sublist extra := by
  obtain ⟨kept, rest, rfl, hkept, hrest⟩ := List.sublist_append_iff.mp h.1
  have hfilter := h.2
  rw [List.filter_append, List.filter_append,
    List.filter_eq_self.mpr hacked,
    List.filter_eq_self.mpr (fun x hx => hacked x (hkept.subset hx))] at hfilter
  have hlength := congrArg List.length hfilter
  rw [List.length_append, List.length_append] at hlength
  have hk := hkept.length_le
  have hr := (hrest.filter JournalEntry.acked).length_le
  have heq : kept = before := hkept.eq_of_length (by omega)
  subst heq
  exact ⟨rest, rfl, hrest⟩

/-- A queue that was partly recovered is an interrupted one. -/
theorem PartlyRecovered.interrupted
    {w w₁ : World Storage LeaseLog} {journal : LeaseLog}
    (h : PartlyRecovered w w₁)
    (hacked : ∀ entry ∈ w.journal.entries, entry.acked = true)
    (hsurvives : LeaseLog.Survives w₁.journal.entries journal.entries) :
    Interrupted w.backend.store.queue w.journal.records
      w₁.backend.store.queue journal.records := by
  obtain ⟨extra, hentries, hextra⟩ := h.entries
  rw [hentries] at hsurvives
  obtain ⟨rest, hjournal, hrest⟩ := survives_append hacked hsurvives
  have hjournal' : ∃ closed : List GoString,
      journal.records = w.journal.records ++ closed.map (closeRecord .stale) ∧
      ∀ leaseID ∈ closed, ∃ r,
        (live w.journal.records).lookup leaseID = some r ∧
          ¬ w.backend.store.queue.FencedBy r.task.id leaseID := by
    refine ⟨rest.map (fun x => x.record.leaseID), ?_, ?_⟩
    · unfold LeaseLog.records
      rw [hjournal, List.map_append, List.map_map]
      congr 1
      refine List.map_congr_left ?_
      intro x hx
      obtain ⟨leaseID, _, hrecord⟩ := hextra x (hrest.subset hx)
      simp [hrecord, closeRecord]
    · intro leaseID hmem
      obtain ⟨x, hx, rfl⟩ := List.mem_map.mp hmem
      obtain ⟨leaseID, hid, hrecord⟩ := hextra x (hrest.subset hx)
      rw [hrecord]
      exact hid
  rcases h.queue with hsame | ⟨order, order', hqueue⟩
  · rw [hsame]
    exact ⟨hjournal', fun _ _ hl => hl, fun _ _ hl _ => hl, rfl,
      List.Perm.refl _⟩
  · rw [hqueue]
    refine ⟨hjournal', ?_, ?_,
      MemoryQueue.recoverOrphanedProcessing_dead _ _ _, ?_⟩
    · exact fun _ _ hl => (recover_lookup_backed.mp hl).1
    · exact fun _ _ hl hb => recover_lookup_backed.mpr ⟨hl, hb⟩
    · exact openTasks_perm (recover_ready_unbacked _ _)
        (fun _ _ => recover_lookup_backed)

end EarlyEnds

/--
Recovery is exact, idempotent and crash-convergent, for every queue, every list of
records and every iteration order.  A recovery on reliable storage has the result
`Recovers`; recovering that result again changes nothing; and if a first recovery
ends early in any way whatsoever, a second one from what survived ends in the same
leases, the same processing and dead tasks, the same ready tasks up to order and
the same open leases in the journal.
-/
theorem recovery_exact_idempotent_convergent
    (config : EngineConfig) (orders : RestoreOrders)
    (w : World Storage LeaseLog)
    (hjournal : config.journal = true)
    (hreliable : w.Reliable) :
    ∃ w',
      newEngine config orders w.journal.records w = .ok () w' ∧
      Recovers w.backend.store.queue w.journal.records w'.engine
        w'.backend.store.queue w'.journal.records ∧
      (∀ (orders₂ : RestoreOrders) (v : World Storage LeaseLog),
        v.Reliable →
        v.backend.store.queue = w'.backend.store.queue →
        v.journal.records = w'.journal.records →
        ∃ v', newEngine config orders₂ v.journal.records v = .ok () v' ∧
          v'.backend.store.queue = v.backend.store.queue ∧
          v'.journal.records = v.journal.records ∧
          ∀ leaseID, v'.engine.leases.lookup leaseID =
            w'.engine.leases.lookup leaseID) ∧
      (∀ (orders₁ orders₂ : RestoreOrders) (first second : World Storage LeaseLog),
        first.backend.store.queue = w.backend.store.queue →
        first.journal.records = w.journal.records →
        (∀ entry ∈ first.journal.entries, entry.acked = true) →
        second.Reliable →
        second.backend.store.queue =
          (newEngine config orders₁ first.journal.records
            first).state.backend.store.queue →
        LeaseLog.Survives
          (newEngine config orders₁ first.journal.records
            first).state.journal.entries
          second.journal.entries →
        ∃ v', newEngine config orders₂ second.journal.records second = .ok () v' ∧
          SameRecovery v'.engine w'.engine v'.backend.store.queue
            w'.backend.store.queue v'.journal.records w'.journal.records) := by
  obtain ⟨w', hw', honce⟩ := newEngine_recovers orders hjournal hreliable
  refine ⟨w', hw', honce, ?_, ?_⟩
  · intro orders₂ v hv hqueue hrecords
    obtain ⟨v', hv', hagain⟩ := newEngine_recovers orders₂ hjournal hv
    rw [hqueue, hrecords] at hagain ⊢
    rw [hrecords] at hv'
    exact ⟨v', hv', honce.idempotent hagain⟩
  · intro orders₁ orders₂ first second hqueue hrecords hacked hsecond hleft
      hsurvives
    obtain ⟨v', hv', hagain⟩ :=
      newEngine_recovers orders₂ hjournal hsecond
    have hfirst := (newEngine_partlyRecovered config orders₁ first).interrupted
      hacked hsurvives
    rw [hqueue, ← hleft, hrecords] at hfirst
    exact ⟨v', hv', Recovers.converges hfirst hagain honce⟩

/--
Two tasks in processing, of which only the first is under the fence of its open
lease, on a backend with the given script.
-/
def halfFenced (calls : List CallEnv) : World Storage LeaseLog where
  engine := Engine.blank ⟨3, 0, true⟩
  backend :=
    ⟨⟨⟨[], (∅ : Map GoString ProcessingEntry).insert [84] ⟨⟨[84], [1], 0⟩, [76]⟩
      |>.insert [85] ⟨⟨[85], [2], 0⟩, [90]⟩, []⟩, []⟩, calls⟩
  journal :=
    ⟨[⟨⟨.fetch, [76], ⟨[84], [1], 0⟩, 5, 15⟩, true⟩,
      ⟨⟨.fetch, [77], ⟨[85], [2], 0⟩, 6, 16⟩, true⟩], []⟩

/-- The process stops right after the reconciliation of the backend. -/
theorem recovery_exact_idempotent_convergent_crashed :
    ∃ first w' v' : World Storage LeaseLog,
      newEngine ⟨3, 0, true⟩ ⟨[], [], []⟩ (halfFenced []).journal.records
        (halfFenced [⟨.crashAfter, 0, []⟩]) = .crashed first ∧
      newEngine ⟨3, 0, true⟩ ⟨[], [], []⟩ first.journal.records first =
        .ok () v' ∧
      newEngine ⟨3, 0, true⟩ ⟨[], [], []⟩ (halfFenced []).journal.records
        (halfFenced []) = .ok () w' ∧
      SameRecovery v'.engine w'.engine v'.backend.store.queue
        w'.backend.store.queue v'.journal.records w'.journal.records := by
  obtain ⟨w', hw', _, _, hconverges⟩ :=
    recovery_exact_idempotent_convergent ⟨3, 0, true⟩ ⟨[], [], []⟩
      (halfFenced []) rfl ⟨fun _ h => (by cases h), fun _ h => (by cases h)⟩
  obtain ⟨v', hv', hsame⟩ :=
    hconverges ⟨[], [], []⟩ ⟨[], [], []⟩ (halfFenced [⟨.crashAfter, 0, []⟩])
      (newEngine ⟨3, 0, true⟩ ⟨[], [], []⟩ (halfFenced []).journal.records
        (halfFenced [⟨.crashAfter, 0, []⟩])).state
      rfl rfl (by decide) ⟨fun _ h => (by cases h), fun _ h => (by cases h)⟩ rfl
      ⟨List.Sublist.refl _, rfl⟩
  exact ⟨_, w', v', rfl, hv', hw', hsame⟩

end Moxy
