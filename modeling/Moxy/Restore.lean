import Moxy.Engine

/-!
# Moxy: what a restore leaves in memory and in the journal

`publishMatched` visits the open leases in any order and makes the matched ones
active; `publishMatched_lookup` reads the resulting lease map.  `recordStale`
appends one close record for each unmatched lease; `wp_recordStale` is its proof rule,
and `live_append_stale` reads the open leases after that.
-/

namespace Moxy

open Lib Lib.CrashM

/-- The bindings of `live` carry their own key. -/
theorem mem_range_live
    {records : List Record} {order : List GoString}
    {binding : GoString × Record}
    (h : binding ∈ (live records).range order) :
    binding.2.leaseID = binding.1 :=
  live_lookup_leaseID ((Map.mem_range order _ _ _).mp h)

/-- The fences that a restore passes to the backend. -/
def openFences (order : List GoString) (opened : Map GoString Record) :
    List LeaseFence :=
  (opened.range order).map
    (fun binding => (⟨binding.2.task.id, binding.2.leaseID⟩ : LeaseFence))

/-- A visit changes the lease map and the heap only. -/
theorem publishMatched_config
    (matchedIDs : Finset GoString) :
    ∀ (opened : List (GoString × Record)) (e : Engine),
      (publishMatched matchedIDs opened e).config = e.config ∧
      (publishMatched matchedIDs opened e).recoveryErr = e.recoveryErr := by
  intro opened
  induction opened with
  | nil =>
      intro e
      exact ⟨rfl, rfl⟩
  | cons binding opened ih =>
      intro e
      unfold publishMatched at ih ⊢
      rw [List.foldl_cons]
      split_ifs
      · exact ih (e.publish binding.2.lease)
      · exact ih e

/-- A lease that the visit does not publish keeps its old binding. -/
theorem publishMatched_lookup_of_notMem
    (matchedIDs : Finset GoString) (leaseID : GoString) :
    ∀ (opened : List (GoString × Record)) (e : Engine),
      (∀ binding ∈ opened, binding.2.leaseID = binding.1) →
      (leaseID ∈ matchedIDs → leaseID ∉ opened.map Prod.fst) →
      (publishMatched matchedIDs opened e).leases.lookup leaseID =
        e.leases.lookup leaseID := by
  intro opened
  induction opened with
  | nil =>
      intro e _ _
      rfl
  | cons binding opened ih =>
      intro e hkey hnot
      have hkey' : ∀ b ∈ opened, b.2.leaseID = b.1 :=
        fun b hb => hkey b (List.mem_cons_of_mem _ hb)
      have hnot' : leaseID ∈ matchedIDs → leaseID ∉ opened.map Prod.fst :=
        fun hin hmem => hnot hin (List.mem_cons_of_mem _ hmem)
      have ih := fun e' =>
        ih e' hkey' hnot'
      unfold publishMatched at ih ⊢
      rw [List.foldl_cons, ih]
      split_ifs with hin
      · have hne : leaseID ≠ binding.2.leaseID := by
          rintro rfl
          have hb := hkey binding List.mem_cons_self
          rw [hb] at hnot
          exact hnot hin List.mem_cons_self
        exact AList.lookup_insert_ne hne
      · rfl

/-- A matched lease that is visited becomes active. -/
theorem publishMatched_lookup_of_mem
    {matchedIDs : Finset GoString} {leaseID : GoString}
    (hin : leaseID ∈ matchedIDs) :
    ∀ (opened : List (GoString × Record)) (e : Engine),
      (∀ binding ∈ opened, binding.2.leaseID = binding.1) →
      (opened.map Prod.fst).Nodup →
      ∀ record, (leaseID, record) ∈ opened →
      (publishMatched matchedIDs opened e).leases.lookup leaseID =
        some record.lease := by
  intro opened
  induction opened with
  | nil =>
      intro e _ _ record hmem
      cases hmem
  | cons binding opened ih =>
      intro e hkey hnodup record hmem
      have hkey' : ∀ b ∈ opened, b.2.leaseID = b.1 :=
        fun b hb => hkey b (List.mem_cons_of_mem _ hb)
      rw [List.map_cons, List.nodup_cons] at hnodup
      rcases List.mem_cons.mp hmem with rfl | hrest
      · have hid : record.leaseID = leaseID := hkey _ List.mem_cons_self
        have hlast :=
          publishMatched_lookup_of_notMem matchedIDs leaseID opened
            (e.publish record.lease) hkey' (fun _ => hnodup.1)
        unfold publishMatched at hlast ⊢
        rw [List.foldl_cons, if_pos hin, hlast]
        subst hid
        exact AList.lookup_insert _
      · have ih := fun e' =>
          ih e' hkey' hnodup.2 record hrest
        unfold publishMatched at ih ⊢
        rw [List.foldl_cons, ih]

/-- The lease map after a visit of all open leases. -/
theorem publishMatched_lookup
    (matchedIDs : Finset GoString) (records : List Record)
    (order : List GoString) (config : EngineConfig) (leaseID : GoString) :
    (publishMatched matchedIDs ((live records).range order)
        (Engine.blank config)).leases.lookup leaseID =
      if leaseID ∈ matchedIDs then
        ((live records).lookup leaseID).map Record.lease
      else none := by
  have hkey :
      ∀ b ∈ (live records).range order, b.2.leaseID = b.1 :=
    fun b hb => mem_range_live hb
  split_ifs with hin
  · cases hl : (live records).lookup leaseID with
    | none =>
        rw [publishMatched_lookup_of_notMem matchedIDs leaseID _ _ hkey]
        · rfl
        · intro _ hmem
          obtain ⟨⟨k, r⟩, hb, rfl⟩ := List.mem_map.mp hmem
          rw [Map.mem_range, hl] at hb
          cases hb
    | some r =>
        exact publishMatched_lookup_of_mem hin _ _ hkey
          (Map.range_keys_nodup order _) r ((Map.mem_range order _ _ _).mpr hl)
  · rw [publishMatched_lookup_of_notMem matchedIDs leaseID _ _ hkey
      (fun h => absurd h hin)]
    rfl

/-- The operations that close a lease. -/
def Op.Closes : Op → Prop
  | .ack | .expire | .deadLetter | .stale => True
  | _ => False

/-- Reading `live` after one close record. -/
theorem live_append_close
    {op : Op} (hop : op.Closes) (records : List Record)
    (closed leaseID : GoString) :
    (live (records ++ [closeRecord op closed])).lookup leaseID =
      if leaseID = closed then none else (live records).lookup leaseID := by
  rw [live_append]
  cases op with
  | fetch => exact absurd hop id
  | unknown name => exact absurd hop id
  | ack | expire | deadLetter | stale =>
      exact Map.lookup_erase_ite _ _ _

/-- Reading `live` after one fetch record. -/
theorem live_append_fetch
    (records : List Record) (lease : Lease) (leaseID : GoString) :
    (live (records ++ [lease.fetchRecord])).lookup leaseID =
      if leaseID = lease.leaseID then some lease.fetchRecord
      else (live records).lookup leaseID := by
  rw [live_append]
  exact Map.lookup_insert_ite _ _ _ _

/-- Reading `live` after a list of stale records. -/
theorem live_append_stale
    (leaseID : GoString) :
    ∀ (closed : List GoString) (records : List Record),
      (live (records ++ closed.map (closeRecord .stale))).lookup leaseID =
        if leaseID ∈ closed then none else (live records).lookup leaseID := by
  intro closed
  induction closed with
  | nil =>
      intro records
      simp
  | cons c closed ih =>
      intro records
      have hrest := ih (records ++ [closeRecord .stale c])
      rw [List.append_assoc, List.singleton_append] at hrest
      rw [List.map_cons, hrest, live_append_close (show Op.stale.Closes from trivial)]
      by_cases h : leaseID ∈ closed
      · simp [h]
      · simp [h]

section StaleRecords

variable {β γ : Type} [Journal γ] {matchedIDs : Finset GoString}
  {I : List GoString → World β γ → Prop} {F : GoError → World β γ → Prop}
  {C : World β γ → Prop}

/-- One stale record: `I` is about the lease IDs closed so far. -/
def ClosesStale (matchedIDs : Finset GoString) (leaseIDs : List GoString)
    (I : List GoString → World β γ → Prop) (F : GoError → World β γ → Prop)
    (C : World β γ → Prop) : Prop :=
  ∀ closed leaseID w, leaseID ∈ leaseIDs → leaseID ∉ matchedIDs → I closed w →
    wp (record (closeRecord .stale leaseID)) (fun _ => I (closed ++ [leaseID])) F C w

theorem wp_recordStale_from :
    ∀ (leaseIDs closed : List GoString) {w : World β γ},
      ClosesStale matchedIDs leaseIDs I F C → I closed w →
      wp (recordStale matchedIDs leaseIDs)
        (fun _ => I (closed ++ leaseIDs.filter (fun leaseID => leaseID ∉ matchedIDs)))
        F C w := by
  intro leaseIDs
  induction leaseIDs with
  | nil =>
      intro closed w _ hI
      rw [List.filter_nil, List.append_nil]
      exact hI
  | cons leaseID rest ih =>
      intro closed w hstep hI
      have hrest : ClosesStale matchedIDs rest I F C :=
        fun closed' id w' hid => hstep closed' id w' (List.mem_cons_of_mem _ hid)
      rw [recordStale]
      split_ifs with hin
      · rw [List.filter_cons_of_neg (by simpa using hin)]
        exact ih closed hrest hI
      · rw [List.filter_cons_of_pos (by simpa using hin), wp_bind]
        refine wp_mono (hstep closed leaseID w List.mem_cons_self hin hI) ?_
          (fun _ _ hF => hF) (fun _ hC => hC)
        intro _ w' hI'
        have hnext := ih (closed ++ [leaseID]) hrest hI'
        rw [List.append_assoc] at hnext
        exact hnext

/-- The rule for the stale records of a restore. -/
theorem wp_recordStale
    {leaseIDs : List GoString} {w : World β γ}
    (hstep : ClosesStale matchedIDs leaseIDs I F C)
    (hI : I [] w) :
    wp (recordStale matchedIDs leaseIDs)
      (fun _ => I (leaseIDs.filter (fun leaseID => leaseID ∉ matchedIDs))) F C w :=
  wp_recordStale_from leaseIDs [] hstep hI

end StaleRecords

end Moxy
