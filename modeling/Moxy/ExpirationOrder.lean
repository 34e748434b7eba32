import Moxy.ExpirationCoverage
import Moxy.Lib.HeapOrder
import Moxy.TaskConservation

/-!
# Moxy: the heap of deadlines is a timetable

Every operation keeps the expiration heap in heap order, and no lease ID has two
entries: a fetch adds an entry under a new ID, and a failed expiry puts back an entry
that has just been removed.  So the root is an entry with the earliest instant, and
an active lease has exactly one entry.

The runs are those of `grounded`: UUIDs do not repeat, and a start makes only such
leases active whose IDs have been generated.  It holds for every backend and every
journal.  A memory queue cannot break the second condition.
-/

namespace Moxy

open Lib Lib.CrashM

theorem ExpirationItem.less_strictWeak :
    BinaryHeap.StrictWeak ExpirationItem.less where
  asymm h := by
    simp only [ExpirationItem.less, decide_eq_true_eq, decide_eq_false_iff_not] at h ⊢
    omega
  not_trans h₁ h₂ := by
    simp only [ExpirationItem.less, decide_eq_false_iff_not] at h₁ h₂ ⊢
    omega

/-- The lease IDs of the entries. -/
def scheduledIDs (h : Array ExpirationItem) : List GoString :=
  h.toList.map ExpirationItem.leaseID

/-- A heap of deadlines with at most one entry for each lease ID, all of them known. -/
structure Timetable (issued : List GoString) (h : Array ExpirationItem) : Prop where
  heap : BinaryHeap.IsHeap ExpirationItem.less h
  nodup : (scheduledIDs h).Nodup
  known : ∀ leaseID ∈ scheduledIDs h, leaseID ∈ issued

namespace Timetable

variable {issued : List GoString} {h : Array ExpirationItem} {item : ExpirationItem}

theorem empty
    (issued : List GoString) :
    Timetable issued #[] :=
  ⟨BinaryHeap.IsHeap.empty, List.nodup_nil, nofun⟩

theorem mono
    {issued' : List GoString}
    (ht : Timetable issued h)
    (hsub : ∀ id ∈ issued, id ∈ issued') :
    Timetable issued' h :=
  ⟨ht.heap, ht.nodup, fun leaseID hid => hsub leaseID (ht.known leaseID hid)⟩

theorem self
    (ht : Timetable issued h) :
    Timetable (scheduledIDs h) h :=
  ⟨ht.heap, ht.nodup, fun _ hid => hid⟩

theorem push
    (ht : Timetable issued h)
    (hnew : item.leaseID ∉ scheduledIDs h)
    (hknown : item.leaseID ∈ issued) :
    Timetable issued (BinaryHeap.push ExpirationItem.less h item) := by
  have hids : (scheduledIDs (BinaryHeap.push ExpirationItem.less h item)).Perm
      (item.leaseID :: scheduledIDs h) :=
    (BinaryHeap.push_perm ExpirationItem.less h item).map ExpirationItem.leaseID
  refine ⟨BinaryHeap.push_isHeap ExpirationItem.less_strictWeak ht.heap item, ?_, ?_⟩
  · exact hids.nodup_iff.mpr (List.nodup_cons.mpr ⟨hnew, ht.nodup⟩)
  · intro leaseID hid
    rcases List.mem_cons.mp (hids.mem_iff.mp hid) with rfl | hold
    · exact hknown
    · exact ht.known leaseID hold

/-- The lease ID of the root, and the others. -/
theorem ids_pop
    (hpeek : BinaryHeap.peek h = some item) :
    (scheduledIDs h).Perm
      (item.leaseID :: scheduledIDs (BinaryHeap.pop ExpirationItem.less h)) :=
  (BinaryHeap.pop_perm ExpirationItem.less hpeek).map ExpirationItem.leaseID

theorem pop
    (ht : Timetable issued h)
    (hpeek : BinaryHeap.peek h = some item) :
    Timetable issued (BinaryHeap.pop ExpirationItem.less h) := by
  have hids := ids_pop hpeek
  have hnodup := hids.nodup_iff.mp ht.nodup
  refine ⟨BinaryHeap.pop_isHeap ExpirationItem.less_strictWeak ht.heap,
    (List.nodup_cons.mp hnodup).2, ?_⟩
  intro leaseID hid
  exact ht.known leaseID (hids.mem_iff.mpr (List.mem_cons_of_mem _ hid))

/-- The lease ID of a removed root has no entry any more. -/
theorem pop_not_mem
    (ht : Timetable issued h)
    (hpeek : BinaryHeap.peek h = some item) :
    item.leaseID ∉ scheduledIDs (BinaryHeap.pop ExpirationItem.less h) :=
  (List.nodup_cons.mp ((ids_pop hpeek).nodup_iff.mp ht.nodup)).1

theorem root_known
    (ht : Timetable issued h)
    (hpeek : BinaryHeap.peek h = some item) :
    item.leaseID ∈ issued :=
  ht.known _ ((ids_pop hpeek).mem_iff.mpr List.mem_cons_self)

/-- The root is an earliest entry. -/
theorem root_first
    (ht : Timetable issued h)
    (hpeek : BinaryHeap.peek h = some item)
    {other : ExpirationItem} (hother : other ∈ h.toList) :
    item.expiresAt ≤ other.expiresAt := by
  have hless := ht.heap.peek_le ExpirationItem.less_strictWeak hpeek hother
  rw [ExpirationItem.less, decide_eq_false_iff_not] at hless
  omega

/-- Two entries with one lease ID are the same. -/
theorem entry_unique
    (ht : Timetable issued h) {x y : ExpirationItem}
    (hx : x ∈ h.toList)
    (hy : y ∈ h.toList)
    (hid : x.leaseID = y.leaseID) :
    x = y :=
  List.inj_on_of_nodup_map ht.nodup hx hy hid

end Timetable

section Operations

variable {β : Type} [Backend β] {issued : List GoString}

/-- The memory of the process has a timetable. -/
abbrev Engine.Timed (issued : List GoString) (e : Engine) : Prop :=
  Timetable issued e.expirations

/-- A reap removes entries, and puts one back under the ID of a removed one. -/
theorem Engine.timed_reapKeeps
    (now : Int) (issued : List GoString) :
    ReapKeeps now (Engine.Timed issued) where
  skip _ _ h hpeek _ _ := h.pop hpeek
  close _ _ _ h hpeek _ _ _ := h.pop hpeek
  retry := by
    intro e item _ h hpeek _ _ _
    have hgone := h.pop_not_mem hpeek
    have hknown := h.root_known hpeek
    exact (h.pop hpeek).push hgone hknown

/-- In a timetable the entry of an active lease is not before its deadline. -/
theorem Engine.Covered.le_entry
    {issued : List GoString} {e : Engine} {item : ExpirationItem} {lease : Lease}
    (hcovered : e.Covered)
    (htimed : e.Timed issued)
    (hitem : item ∈ e.expirations.toList)
    (hactive : e.leases.lookup item.leaseID = some lease) :
    lease.expiresAt ≤ item.expiresAt := by
  obtain ⟨found, hfound, hid, hle⟩ :=
    hcovered.entry item.leaseID lease hactive (by simp)
  have hsame := htimed.entry_unique hfound hitem hid
  rw [← hsame]
  exact hle

/-- What the reaper keeps of a memory: coverage and the timetable. -/
theorem Engine.scheduled_reapKeeps
    (now : Int) (e₀ : Engine) (issued : List GoString) :
    ReapKeeps now (fun e => e₀.Steady e ∧ e.Timed issued) :=
  (Engine.steady_reapKeeps now e₀).and (Engine.timed_reapKeeps now issued)

/-- A restore adds one entry for each matched lease. -/
theorem publishMatched_timed
    (matchedIDs : Finset GoString) :
    ∀ (opened : List (GoString × Record)) {e : Engine},
      e.Timed issued →
      (∀ binding ∈ opened, binding.2.leaseID = binding.1) →
      (∀ binding ∈ opened, binding.1 ∉ scheduledIDs e.expirations) →
      (∀ binding ∈ opened, binding.1 ∈ matchedIDs → binding.1 ∈ issued) →
      (opened.map Prod.fst).Nodup →
      (publishMatched matchedIDs opened e).Timed issued := by
  intro opened
  induction opened with
  | nil =>
      intro e h _ _ _ _
      exact h
  | cons binding opened ih =>
      intro e h hkey hnew hknown hnodup
      have hrest : ∀ b ∈ opened, b ∈ binding :: opened :=
        fun b hb => List.mem_cons_of_mem _ hb
      have hself := List.mem_cons_self (a := binding) (l := opened)
      rw [List.map_cons, List.nodup_cons] at hnodup
      have hid : binding.2.lease.leaseID = binding.1 := hkey binding hself
      rw [publishMatched, List.foldl_cons]
      split_ifs with hmatched
      · have hpush : (e.publish binding.2.lease).Timed issued := by
          refine h.push ?_ ?_
          · rw [hid]
            exact hnew binding hself
          · rw [hid]
            exact hknown binding hself hmatched
        refine ih hpush (fun b hb => hkey b (hrest b hb)) ?_
          (fun b hb => hknown b (hrest b hb)) hnodup.2
        intro b hb hin
        have hids := (BinaryHeap.push_perm ExpirationItem.less e.expirations
          ⟨binding.2.lease.leaseID, binding.2.lease.expiresAt⟩).map
            ExpirationItem.leaseID
        rcases List.mem_cons.mp (hids.mem_iff.mp hin) with hsame | hold
        · have hkeys : b.1 = binding.1 := hsame.trans hid
          exact hnodup.1 (hkeys ▸ List.mem_map_of_mem hb)
        · exact hnew b (hrest b hb) hold
      · exact ih h (fun b hb => hkey b (hrest b hb)) (fun b hb => hnew b (hrest b hb))
          (fun b hb => hknown b (hrest b hb)) hnodup.2

/-- Every lease that a start makes active has an ID that has been generated. -/
def KnownMatches (issued : List GoString) (orders : RestoreOrders)
    (recovered : List Record) (backend : β) : Prop :=
  match Backend.recoverOrphanedProcessing (openFences orders.fences (live recovered)) backend with
  | .ok result _ =>
      ∀ r ∈ recovered, r.leaseID ∈ result.matchedLeaseIDs → r.leaseID ∈ issued
  | .error _ _ | .crashed _ => True

instance (orders : RestoreOrders) (recovered : List Record) (backend : β) :
    Decidable (KnownMatches issued orders recovered backend) :=
  match h : Backend.recoverOrphanedProcessing
      (openFences orders.fences (live recovered)) backend with
  | .ok result _ =>
      decidable_of_iff
        (recovered.all (fun r =>
          !decide (r.leaseID ∈ result.matchedLeaseIDs) || issued.contains r.leaseID) = true)
        (by rw [KnownMatches, h]; simp [imp_iff_not_or])
  | .error _ _ => isTrue (by rw [KnownMatches, h]; trivial)
  | .crashed _ => isTrue (by rw [KnownMatches, h]; trivial)

/-- A start fills an empty heap with the matched leases. -/
theorem Restored.timed
    {config : EngineConfig} {orders : RestoreOrders} {recovered : List Record}
    {backend : β} {e : Engine}
    (h : Restored config orders recovered backend e)
    (hknown : KnownMatches issued orders recovered backend) :
    e.Timed issued := by
  have hblank : (Engine.blank config).Timed issued := Timetable.empty issued
  rcases h with ⟨result, _, hcall, rfl⟩ | ⟨err, rfl⟩
  · rw [KnownMatches, hcall] at hknown
    refine publishMatched_timed _ _ hblank ?_ ?_ ?_ (Map.range_keys_nodup _ _)
    · exact fun binding hb => mem_range_live hb
    · exact fun _ _ => List.not_mem_nil
    · rintro ⟨leaseID, r⟩ hb hmatched
      obtain ⟨hmem, hid, _⟩ := live_lookup_some ((Map.mem_range _ _ _ _).mp hb)
      dsimp only at hmatched ⊢
      rw [← hid] at hmatched ⊢
      exact hknown r hmem hmatched
  · exact hblank

end Operations

section Systems

variable {β γ : Type}

/-- Storage as it is found, with the UUIDs in use, and no process yet. -/
def System.cold (backend : β) (journal : γ) (issued : List GoString) : System β γ :=
  ⟨none, backend, journal, issued⟩

variable [Backend β] [Journal γ]

/-- A start makes only such leases active whose IDs have been generated. -/
def System.Grounded (s : System β γ) (e : Event γ) : Prop :=
  match e with
  | .restart _ orders _ recovered =>
      KnownMatches s.issued orders recovered s.backend
  | _ => True

instance (s : System β γ) (e : Event γ) : Decidable (s.Grounded e) :=
  match e with
  | .restart _ orders _ recovered =>
      inferInstanceAs (Decidable (KnownMatches s.issued orders recovered s.backend))
  | .enqueue _ _ | .fetch _ _ _ | .ack _ | .reap _ =>
      inferInstanceAs (Decidable True)

/-- Systems with fresh UUIDs over any storage, whose starts are grounded. -/
def grounded (β γ : Type) [Backend β] [Journal γ] :
    Machine (System β γ) (Event γ) Reply where
  step := System.step
  guard s e := s.Fresh e ∧ s.Grounded e

instance (s : System β γ) (e : Event γ) : Decidable ((grounded β γ).guard s e) :=
  inferInstanceAs (Decidable (s.Fresh e ∧ s.Grounded e))

/-- The memory of the process is covered and has a timetable. -/
def System.Scheduled (s : System β γ) : Prop :=
  s.Holds (fun w => w.engine.Covered ∧ w.engine.Timed s.issued)

theorem System.step_timed
    {s : System β γ} {e : Event γ}
    (h : s.Scheduled)
    (hguard : (grounded β γ).guard s e) :
    ∀ engine, (s.step e).2.process = some engine →
      engine.Timed (s.step e).2.issued := by
  obtain ⟨hfresh, hgrounded⟩ := hguard
  intro engine hengine
  rw [System.step_issued]
  cases System.step_memory hengine with
  | started hrestored => exact hrestored.timed hgrounded
  | same hp => exact (h _ hp).2.mono (fun _ hid => List.mem_append_right _ hid)
  | published hp _ task =>
      have ht := (h _ hp).2
      have hnew := hfresh _ (List.mem_singleton.mpr rfl)
      exact (ht.mono (fun _ hid => List.mem_cons_of_mem _ hid)).push
        (fun hid => hnew (ht.known _ hid)) List.mem_cons_self
  | dropped hp => exact (h _ hp).2
  | reaped hp hpath =>
      exact (Engine.timed_reapKeeps _ s.issued).path (h _ hp).2 hpath

/-- In every reachable state the memory of the process is covered and timed. -/
theorem grounded_scheduled
    {backend : β} {journal : γ} {issued : List GoString}
    {es : List (Event γ × Reply)} {s : System β γ}
    (hrun : (grounded β γ).Run (System.cold backend journal issued) es s) :
    s.Scheduled := by
  refine hrun.invariant (P := System.Scheduled) ?_ ?_
  · intro u e hu hguard engine hengine
    have hcovered := step_covered (fun _ _ => True) e
      (fun engine hp => ⟨(hu engine hp).1, trivial⟩)
      (fun _ _ _ _ _ _ => trivial) engine hengine
    exact ⟨hcovered.1, System.step_timed hu hguard engine hengine⟩
  · intro engine hengine
    cases hengine

end Systems

/-- A memory queue matches no lease but those that fence one of its tasks. -/
theorem knownMatches_of_sound
    {issued : List GoString} {backend : Storage}
    (hsound : backend.store.Sound issued)
    (orders : RestoreOrders) (recovered : List Record) :
    KnownMatches issued orders recovered backend := by
  have hcall : wp (Backend.recoverOrphanedProcessing (openFences orders.fences (live recovered)))
      (fun result _ => ∀ leaseID ∈ result.matchedLeaseIDs, leaseID ∈ issued)
      (fun _ _ => True) (fun _ => True) backend := by
    refine Storage.wp_call (Storage.within_true _) ?_ (fun _ _ _ _ _ => trivial)
      (fun _ _ _ _ => trivial) (fun _ _ _ _ _ => trivial) (fun _ _ => trivial)
      (fun _ _ _ => trivial)
    intro env _ result _ hresult leaseID hmatched
    have hq : (backend.store.queue.recoverOrphanedProcessing env.order
        (openFences orders.fences (live recovered))).1 = .ok result := hresult
    obtain ⟨taskID, entry, hlookup, rfl, _⟩ :=
      (MemoryQueue.recoverOrphanedProcessing_matched _ _ _ hq leaseID).mp hmatched
    exact hsound.fences_issued _ (List.mem_append_right _
      (MemoryQueue.mem_fences.mpr ⟨taskID, entry.task, hlookup⟩))
  rw [KnownMatches]
  cases hend : Backend.recoverOrphanedProcessing (openFences orders.fences (live recovered))
      backend with
  | ok result _ => exact fun r _ => wp_of_ok hcall hend r.leaseID
  | error => trivial
  | crashed => trivial

/-- Over a memory queue every run is grounded, whatever records are read. -/
theorem grounded_of_anyRestart
    {calls : List CallEnv} {appends : List AppendFate}
    {es : List (Event LeaseLog × Reply)} {t : System Storage LeaseLog}
    (hrun : anyRestart.Run (System.empty calls appends) es t) :
    (grounded Storage LeaseLog).Run (System.empty calls appends) es t := by
  induction hrun with
  | refl => exact Machine.Run.refl _
  | @next t es e hrun hfresh ih =>
      refine Machine.Run.next (M := grounded Storage LeaseLog) e ih ⟨hfresh, ?_⟩
      have hsound :=
        (anyRestart_sound hrun System.regular_true System.sound_empty).2
      cases e with
      | restart config orders journal recovered =>
          exact knownMatches_of_sound hsound orders recovered
      | enqueue | fetch | ack | reap => trivial

end Moxy
