import Moxy.EngineSystem
import Moxy.ReapRule
import Moxy.Restore

/-!
# Moxy: every active lease has a heap entry

The reaper walks the expiration heap only, so a lease without a heap entry never
expires.  `Engine.Covered` says that every active lease has an entry whose time
is not before the deadline of the lease, and that an engine whose recovery failed
has no lease at all.  It is kept by every operation, over any backend and any
journal.

Inside an iteration of `reapLoop` the entry of the treated lease is missing for a
while; `Engine.CoveredBut` is what holds then.
-/

namespace Moxy

open Lib Lib.CrashM

namespace Engine

/-- Every active lease other than `x` has a heap entry at or after its deadline. -/
structure CoveredBut (x : Option GoString) (e : Engine) : Prop where
  keyed : ∀ leaseID lease,
    e.leases.lookup leaseID = some lease → lease.leaseID = leaseID
  delay_pos : 0 < e.config.requeueRetryDelay
  entry : ∀ leaseID lease,
    e.leases.lookup leaseID = some lease → some leaseID ≠ x →
    ∃ item ∈ e.expirations.toList,
      item.leaseID = leaseID ∧ lease.expiresAt ≤ item.expiresAt
  failed_empty : e.recoveryErr ≠ none → ∀ leaseID, e.leases.lookup leaseID = none

/-- Every active lease has a heap entry at or after its deadline. -/
def Covered (e : Engine) : Prop :=
  CoveredBut none e

/-- A covered engine with the settings and the recovery result of `e₀`. -/
def Steady (e₀ e : Engine) : Prop :=
  e.Covered ∧ e.config = e₀.config ∧ e.recoveryErr = e₀.recoveryErr

theorem covered_blank
    (config : EngineConfig) :
    Covered (blank config) where
  keyed := by
    intro leaseID lease h
    simp [blank] at h
  delay_pos := by
    simp only [blank]
    split_ifs with h
    · simp [requeueRetryDelay]
    · omega
  entry := by
    intro leaseID lease h
    simp [blank] at h
  failed_empty h := absurd rfl h

theorem mem_push_expirations
    (h : Array ExpirationItem) (new item : ExpirationItem) :
    item ∈ (BinaryHeap.push ExpirationItem.less h new).toList ↔
      item = new ∨ item ∈ h.toList := by
  rw [(BinaryHeap.push_perm ExpirationItem.less h new).mem_iff,
    List.mem_cons]

theorem Covered.publish
    {e : Engine}
    (h : Covered e)
    (hrec : e.recoveryErr = none)
    (lease : Lease) :
    Covered (e.publish lease) where
  keyed := by
    intro leaseID l hl
    simp only [Engine.publish, Map.lookup_insert_ite] at hl
    split_ifs at hl with he
    · cases hl
      exact he.symm
    · exact h.keyed leaseID l hl
  delay_pos := h.delay_pos
  entry := by
    intro leaseID l hl hx
    simp only [Engine.publish, Map.lookup_insert_ite] at hl
    simp only [Engine.publish, mem_push_expirations]
    split_ifs at hl with he
    · cases hl
      exact ⟨_, Or.inl rfl, he.symm, le_refl _⟩
    · obtain ⟨item, hmem, hid, hle⟩ := h.entry leaseID l hl hx
      exact ⟨item, Or.inr hmem, hid, hle⟩
  failed_empty hfailed := absurd hrec hfailed

theorem CoveredBut.dropLease
    {x : Option GoString} {e : Engine} {leaseID : GoString}
    (h : CoveredBut x e)
    (hx : ∀ y, x = some y → y = leaseID) :
    Covered (e.dropLease leaseID) where
  keyed := by
    intro k l hl
    simp only [Engine.dropLease, Map.lookup_erase_ite] at hl
    split_ifs at hl
    exact h.keyed k l hl
  delay_pos := h.delay_pos
  entry := by
    intro k l hl _
    simp only [Engine.dropLease, Map.lookup_erase_ite] at hl
    split_ifs at hl with hk
    refine h.entry k l hl ?_
    rintro rfl
    exact hk (hx k rfl)
  failed_empty := by
    intro hfailed k
    simp only [Engine.dropLease, Map.lookup_erase_ite]
    split_ifs
    · rfl
    · exact h.failed_empty hfailed k

/-- Removing the root uncovers at most the lease that the root belongs to. -/
theorem Covered.popExpiration
    {e : Engine} {item : ExpirationItem}
    (h : Covered e)
    (hpeek : BinaryHeap.peek e.expirations = some item) :
    CoveredBut (some item.leaseID) e.popExpiration where
  keyed := h.keyed
  delay_pos := h.delay_pos
  entry := by
    intro leaseID lease hl hx
    obtain ⟨found, hmem, hid, hle⟩ := h.entry leaseID lease hl (by simp)
    refine ⟨found, ?_, hid, hle⟩
    have hperm := BinaryHeap.pop_perm ExpirationItem.less hpeek
    rcases List.mem_cons.mp (hperm.mem_iff.mp hmem) with rfl | hrest
    · exact absurd (congrArg some hid.symm) hx
    · exact hrest
  failed_empty := h.failed_empty

/-- An entry before the deadline was not the one that covered the lease. -/
theorem Covered.popExpiration_early
    {e : Engine} {item : ExpirationItem} {lease : Lease}
    (h : Covered e)
    (hpeek : BinaryHeap.peek e.expirations = some item)
    (hlease : e.leases.lookup item.leaseID = some lease)
    (hearly : item.expiresAt < lease.expiresAt) :
    Covered e.popExpiration where
  keyed := h.keyed
  delay_pos := h.delay_pos
  entry := by
    intro leaseID l hl _
    by_cases hk : leaseID = item.leaseID
    · subst hk
      obtain ⟨found, hmem, hid, hle⟩ := h.entry _ l hl (by simp)
      have hsame : l = lease := Option.some.inj (hl.symm.trans hlease)
      subst hsame
      refine ⟨found, ?_, hid, hle⟩
      have hperm := BinaryHeap.pop_perm ExpirationItem.less hpeek
      rcases List.mem_cons.mp (hperm.mem_iff.mp hmem) with rfl | hrest
      · omega
      · exact hrest
    · exact (h.popExpiration hpeek).entry leaseID l hl (by simpa using hk)
  failed_empty := h.failed_empty

theorem CoveredBut.of_closed
    {e : Engine} {x : GoString}
    (h : CoveredBut (some x) e)
    (hx : e.leases.lookup x = none) :
    Covered e where
  keyed := h.keyed
  delay_pos := h.delay_pos
  entry := by
    intro leaseID lease hl _
    refine h.entry leaseID lease hl ?_
    rintro hk
    cases hk
    rw [hx] at hl
    cases hl
  failed_empty := h.failed_empty

theorem CoveredBut.pushExpiration
    {e : Engine} {item : ExpirationItem}
    (h : CoveredBut (some item.leaseID) e)
    (hdue : ∀ lease, e.leases.lookup item.leaseID = some lease →
      lease.expiresAt ≤ item.expiresAt) :
    Covered (e.pushExpiration item) where
  keyed := h.keyed
  delay_pos := h.delay_pos
  entry := by
    intro leaseID lease hl _
    simp only [Engine.pushExpiration, mem_push_expirations]
    by_cases hk : leaseID = item.leaseID
    · subst hk
      exact ⟨item, Or.inl rfl, rfl, hdue lease hl⟩
    · obtain ⟨found, hmem, hid, hle⟩ := h.entry leaseID lease hl (by simpa using hk)
      exact ⟨found, Or.inr hmem, hid, hle⟩
  failed_empty := h.failed_empty

theorem Covered.publishMatched
    (matchedIDs : Finset GoString) :
    ∀ (opened : List (GoString × Record)) {e : Engine},
      Covered e → e.recoveryErr = none →
      Covered (publishMatched matchedIDs opened e) := by
  intro opened
  induction opened with
  | nil =>
      intro e h _
      exact h
  | cons binding opened ih =>
      intro e h hrec
      unfold Moxy.publishMatched
      rw [List.foldl_cons]
      split_ifs
      · exact ih (h.publish hrec _) hrec
      · exact ih h hrec

theorem covered_blank_failed
    (config : EngineConfig) (err : GoError) :
    Covered { blank config with recoveryErr := some err } :=
  ⟨(covered_blank config).keyed, (covered_blank config).delay_pos,
    (covered_blank config).entry, fun _ _ => rfl⟩

/-- An iteration of the reaper keeps the coverage. -/
theorem steady_reapKeeps
    (now : Int) (e₀ : Engine) :
    ReapKeeps now (Steady e₀) where
  skip := by
    rintro e item ⟨hcovered, hconfig⟩ hpeek hdue hidle
    cases hlease : e.leases.lookup item.leaseID with
    | none => exact ⟨(hcovered.popExpiration hpeek).of_closed hlease, hconfig⟩
    | some lease =>
        have hearly := hidle lease hlease
        exact ⟨hcovered.popExpiration_early hpeek hlease (by omega), hconfig⟩
  close := by
    rintro e item lease ⟨hcovered, hconfig⟩ hpeek _ _ _
    exact ⟨(hcovered.popExpiration hpeek).dropLease (by simp), hconfig⟩
  retry := by
    rintro e item lease ⟨hcovered, hconfig⟩ hpeek _ hactive hexpired
    have hbut := hcovered.popExpiration hpeek
    refine ⟨CoveredBut.pushExpiration hbut ?_, hconfig⟩
    intro other hother
    cases hactive.symm.trans hother
    have hdelay := hcovered.delay_pos
    dsimp only
    omega

end Engine

section AnyStorage

variable {β γ : Type} {e₀ : Engine}

variable [Backend β] [Journal γ]

/-- If the process is still running after `m`, its memory satisfies `I`. -/
abbrev Leaves {α : Type} (I : Engine → Prop) (m : EngineM β γ α)
    (w : World β γ) : Prop :=
  System.Ends (fun w' => I w'.engine) m w

omit [Backend β] [Journal γ] in
theorem Leaves.mono
    {α : Type} {I J : Engine → Prop} {m : EngineM β γ α} {w : World β γ}
    (h : Leaves I m w)
    (himp : ∀ e, I e → J e) :
    Leaves J m w :=
  wp_mono h (fun _ _ => himp _) (fun _ _ => himp _) (fun _ h => h)

omit [Backend β] [Journal γ] in
/-- An operation that is refused after a failed recovery. -/
theorem leaves_recovered
    {α : Type} {I : Engine → Prop} {m : EngineM β γ α} {w : World β γ}
    (hidle : I w.engine)
    (h : w.engine.recoveryErr = none → Leaves I m w) :
    Leaves I (do ensureRecovered; m) w := by
  unfold Leaves System.Ends
  rw [wp_bind, wp_ensureRecovered]
  cases hrec : w.engine.recoveryErr with
  | some err => exact hidle
  | none => exact h hrec

omit [Journal γ] in
/-- An enqueue does not change the memory of the engine. -/
theorem enqueue_memory
    (newID : GoString) (payload : Bytes) (w : World β γ) :
    Leaves (· = w.engine) (enqueue newID payload) w := by
  refine leaves_recovered rfl (fun _ => ?_)
  unfold Leaves System.Ends
  rw [wp_bind]
  exact wp_onBackend_any (fun _ _ => rfl) (fun _ _ => rfl) (fun _ => trivial)

/-- A fetch publishes one lease under the ID that it generated, or nothing. -/
theorem fetch_memory
    (leaseID : GoString) (now timeout : Int) (w : World β γ) :
    Leaves
      (fun e => e = w.engine ∨
        (w.engine.recoveryErr = none ∧
          ∃ task, e = w.engine.publish ⟨leaseID, task, now, now + timeout⟩))
      (fetch leaseID now timeout) w := by
  rw [fetch]
  split_ifs
  · exact Or.inl rfl
  refine leaves_recovered (Or.inl rfl) (fun hrec => ?_)
  unfold Leaves System.Ends
  rw [wp_bind, wp_attempt]
  refine wp_onBackend_any ?_ ?_ (fun _ => trivial)
  · intro task b
    rw [wp_bind, wp_attempt]
    refine wp_record_any ?_ ?_ (fun _ => trivial)
    · intro j
      rw [wp_bind, wp_onEngine]
      exact Or.inr ⟨hrec, task, rfl⟩
    · intro err j
      rw [wp_bind, wp_attempt]
      exact wp_onBackend_any (fun _ _ => Or.inl rfl) (fun _ _ => Or.inl rfl)
        (fun _ => trivial)
  · intro err b
    dsimp only
    split_ifs <;> exact Or.inl rfl

/-- An acknowledgement removes its lease, or nothing. -/
theorem ack_memory
    (leaseID : GoString) (w : World β γ) :
    Leaves (fun e => e = w.engine ∨ e = w.engine.dropLease leaseID)
      (ack leaseID) w := by
  refine leaves_recovered (Or.inl rfl) (fun _ => ?_)
  unfold Leaves System.Ends
  rw [wp_bind, wp_read]
  cases w.engine.leases.lookup leaseID with
  | none => exact Or.inl rfl
  | some lease =>
      dsimp only
      rw [wp_bind, wp_attempt]
      refine wp_onBackend_any ?_ ?_ (fun _ => trivial)
      · intro _ b
        rw [wp_bind]
        exact wp_record_any (fun _ => Or.inr rfl) (fun _ _ => Or.inl rfl)
          (fun _ => trivial)
      · intro err b
        dsimp only
        split_ifs
        · rw [wp_bind]
          exact wp_record_any (fun _ => Or.inr rfl) (fun _ _ => Or.inl rfl)
            (fun _ => trivial)
        · exact Or.inl rfl

/-- The memory during a reap: the rule for conditions that read nothing else. -/
theorem reapExpired_memory
    {M : Engine → Prop} {w : World β γ} {now : Int}
    (hkeeps : ReapKeeps now M)
    (h : M w.engine) :
    Leaves M (reapExpired now) w := by
  refine wp_mono (wp_reapExpired (I := fun _ w' => M w'.engine)
    (F := fun _ _ w' => M w'.engine) (C := fun _ => True) ?_ ?_
    (fun _ _ => h) (fun _ => h)) ?_ (fun _ _ hfalse => hfalse.elim) (fun _ _ => trivial)
  · intro _ w' item hM hpeek hdue hidle
    exact hkeeps.skip w'.engine item hM hpeek hdue hidle
  · intro _ w' item lease hM hpeek hdue hactive hexpired
    have hclose := hkeeps.close w'.engine item lease hM hpeek hdue hactive hexpired
    have hretry := hkeeps.retry w'.engine item lease hM hpeek hdue hactive hexpired
    exact wp_mono (wp_expireLease_engine lease _) (fun _ _ _ => hclose)
      (fun _ _ _ => hretry) (fun _ _ => trivial)
  · exact fun r w' hr => hr.elim (fun _ _ hM => hM) (fun _ _ _ hM => hM)

omit [Journal γ] in
theorem enqueue_steady
    {w : World β γ} (newID : GoString) (payload : Bytes)
    (h : e₀.Steady w.engine) :
    Leaves (Engine.Steady e₀) (enqueue newID payload) w :=
  (enqueue_memory newID payload w).mono (fun _ he => he ▸ h)

theorem fetch_steady
    {w : World β γ} (leaseID : GoString) (now : Int) (timeout : Int)
    (h : e₀.Steady w.engine) :
    Leaves (Engine.Steady e₀) (fetch leaseID now timeout) w := by
  refine (fetch_memory leaseID now timeout w).mono ?_
  rintro e (rfl | ⟨hrec, task, rfl⟩)
  · exact h
  · exact ⟨h.1.publish hrec _, h.2⟩

theorem ack_steady
    {w : World β γ} (leaseID : GoString)
    (h : e₀.Steady w.engine) :
    Leaves (Engine.Steady e₀) (ack leaseID) w := by
  refine (ack_memory leaseID w).mono ?_
  rintro e (rfl | rfl)
  · exact h
  · exact ⟨Engine.CoveredBut.dropLease h.1 (by simp), h.2⟩

theorem reapExpired_steady
    {w : World β γ} (now : Int)
    (h : e₀.Steady w.engine) :
    Leaves (Engine.Steady e₀) (reapExpired now) w :=
  reapExpired_memory (Engine.steady_reapKeeps now e₀) h

omit [Backend β] in
/-- Appending close records does not change the memory of the engine. -/
theorem recordStale_engine
    {M : Engine → Prop} (matchedIDs : Finset GoString) (leaseIDs : List GoString)
    {w : World β γ} (h : M w.engine) :
    Leaves M (recordStale matchedIDs leaseIDs) w :=
  wp_recordStale (I := fun _ w' => M w'.engine)
    (fun _ _ _ _ _ hM => wp_record_any (fun _ => hM) (fun _ _ => hM) (fun _ => trivial)) h

/-- What a new engine has in memory: the matched leases, or a recovery error. -/
def Restored (config : EngineConfig) (orders : RestoreOrders)
    (recovered : List Record) (backend : β) (e : Engine) : Prop :=
  (∃ result backend', Backend.recoverOrphanedProcessing
      (openFences orders.fences (live recovered)) backend = .ok result backend' ∧
    e = publishMatched result.matchedLeaseIDs
      ((live recovered).range orders.restored) (Engine.blank config)) ∨
  ∃ err, e = { Engine.blank config with recoveryErr := some err }

theorem newEngine_memory
    (config : EngineConfig) (orders : RestoreOrders) (recovered : List Record)
    (w : World β γ) :
    Leaves (Restored config orders recovered w.backend)
      (newEngine config orders recovered) w := by
  unfold Leaves System.Ends
  rw [newEngine, wp_bind, wp_onEngine, restore, wp_bind, wp_attempt, wp_onBackend]
  refine wp_mono wp_exact ?_ ?_ (fun _ _ => trivial)
  · intro result b hcall
    rw [wp_bind, wp_attempt]
    refine wp_mono
      (recordStale_engine (M := (· = Engine.blank config)) _ _ rfl)
      ?_ ?_ (fun _ _ => trivial)
    · intro _ w' hw
      have hw' : w'.engine = Engine.blank config := hw
      dsimp only
      rw [wp_onEngine, hw']
      exact Or.inl ⟨result, b, hcall, rfl⟩
    · intro err w' hw
      have hw' : w'.engine = Engine.blank config := hw
      dsimp only
      rw [failRecovery, wp_onEngine, hw']
      exact Or.inr ⟨_, rfl⟩
  · exact fun err b _ => Or.inr ⟨_, rfl⟩

/-- What one event can leave in the memory of the process. -/
inductive MemoryStep (s : System β γ) : Event γ → Engine → Prop
  | started {config : EngineConfig} {orders : RestoreOrders} {journal : γ}
      {recovered : List Record} {e : Engine}
      (hrestored : Restored config orders recovered s.backend e) :
      MemoryStep s (.restart config orders journal recovered) e
  | same {event : Event γ} {e : Engine}
      (hprocess : s.process = some e) :
      MemoryStep s event e
  | published {leaseID : GoString} {now timeout : Int} {e : Engine}
      (hprocess : s.process = some e) (hrec : e.recoveryErr = none) (task : Task) :
      MemoryStep s (.fetch leaseID now timeout)
        (e.publish ⟨leaseID, task, now, now + timeout⟩)
  | dropped {leaseID : GoString} {e : Engine}
      (hprocess : s.process = some e) :
      MemoryStep s (.ack leaseID) (e.dropLease leaseID)
  | reaped {now : Int} {e e' : Engine}
      (hprocess : s.process = some e) (hpath : ReapPath now e e') :
      MemoryStep s (.reap now) e'

omit [Backend β] [Journal γ] in
theorem System.exec_memory
    {α : Type} {s : System β γ} {engine : Engine} {m : EngineM β γ α}
    {reply : α → Reply} {M : Engine → Prop}
    (h : Leaves M m ⟨engine, s.backend, s.journal⟩) :
    ∀ e, (s.exec engine m reply).2.process = some e → M e :=
  System.exec_holds (I := fun w => M w.engine) h

theorem System.step_memory
    {s : System β γ} {event : Event γ} {e : Engine}
    (h : (s.step event).2.process = some e) :
    MemoryStep s event e := by
  cases event with
  | restart config orders journal recovered =>
      simp only [System.step] at h
      have hrestored := System.exec_memory (newEngine_memory config orders recovered _) e h
      exact .started hrestored
  | enqueue newID payload =>
      cases hp : s.process with
      | none => simp [System.step, hp] at h
      | some engine =>
          simp only [System.step, hp] at h
          obtain rfl := System.exec_memory (enqueue_memory newID payload _) e h
          exact .same hp
  | fetch leaseID now timeout =>
      cases hp : s.process with
      | none => simp [System.step, hp] at h
      | some engine =>
          simp only [System.step, hp] at h
          rcases System.exec_memory (fetch_memory leaseID now timeout _) e h with
            rfl | ⟨hrec, task, rfl⟩
          · exact .same hp
          · exact .published hp hrec task
  | ack leaseID =>
      cases hp : s.process with
      | none => simp [System.step, hp] at h
      | some engine =>
          simp only [System.step, hp] at h
          rcases System.exec_memory (ack_memory leaseID _) e h with rfl | rfl
          · exact .same hp
          · exact .dropped hp
  | reap now =>
      cases hp : s.process with
      | none => simp [System.step, hp] at h
      | some engine =>
          simp only [System.step, hp] at h
          exact .reaped hp (System.exec_memory
            (reapExpired_memory (reapPath_reapKeeps now engine) .start) e h)

theorem newEngine_covered
    {w : World β γ} (config : EngineConfig) (orders : RestoreOrders)
    (recovered : List Record) :
    Leaves (fun e => e.Covered ∧ e.config = (Engine.blank config).config)
      (newEngine config orders recovered) w := by
  refine (newEngine_memory config orders recovered w).mono ?_
  rintro e (⟨result, _, _, rfl⟩ | ⟨err, rfl⟩)
  · exact ⟨(Engine.covered_blank config).publishMatched _ _ rfl,
      (publishMatched_config _ _ _).1⟩
  · exact ⟨Engine.covered_blank_failed _ _, rfl⟩

omit [Backend β] [Journal γ] in
/-- A steady operation keeps every condition on settings and recovery result. -/
theorem ends_of_steady
    {α : Type} {Q : EngineConfig → Option GoError → Prop}
    {m : EngineM β γ α} {w : World β γ}
    (h : Leaves (Engine.Steady e₀) m w)
    (hQ : Q e₀.config e₀.recoveryErr) :
    System.Ends
      (fun w' => w'.engine.Covered ∧ Q w'.engine.config w'.engine.recoveryErr)
      m w := by
  refine wp_mono h ?_ ?_ (fun _ _ => trivial)
  · rintro _ w' ⟨hcovered, hconfig, hrec⟩
    refine ⟨hcovered, ?_⟩
    rw [hconfig, hrec]
    exact hQ
  · rintro _ w' ⟨hcovered, hconfig, hrec⟩
    refine ⟨hcovered, ?_⟩
    rw [hconfig, hrec]
    exact hQ

theorem covered_kept
    (Q : EngineConfig → Option GoError → Prop) :
    System.Kept
      (fun w : World β γ =>
        w.engine.Covered ∧ Q w.engine.config w.engine.recoveryErr) where
  enqueue _ newID payload h :=
    ends_of_steady (enqueue_steady newID payload ⟨h.1, rfl, rfl⟩) h.2
  fetch _ leaseID now timeout h :=
    ends_of_steady (fetch_steady leaseID now timeout ⟨h.1, rfl, rfl⟩) h.2
  ack _ leaseID h := ends_of_steady (ack_steady leaseID ⟨h.1, rfl, rfl⟩) h.2
  reapExpired _ now h :=
    ends_of_steady (reapExpired_steady now ⟨h.1, rfl, rfl⟩) h.2

/-- The memory of a running process is covered after every event. -/
theorem step_covered
    (Q : EngineConfig → Option GoError → Prop) (e : Event γ) {s : System β γ}
    (h : s.Holds (fun w =>
      w.engine.Covered ∧ Q w.engine.config w.engine.recoveryErr))
    (hstart : ∀ config orders journal recovered,
      e = .restart config orders journal recovered →
      ∀ err, Q (Engine.blank config).config err) :
    (s.step e).2.Holds (fun w =>
      w.engine.Covered ∧ Q w.engine.config w.engine.recoveryErr) := by
  refine (covered_kept Q).step h ?_
  intro config orders journal recovered he
  have hQ := hstart config orders journal recovered he
  refine wp_mono (newEngine_covered config orders recovered) ?_ ?_
    (fun _ _ => trivial)
  · rintro _ w' ⟨hcovered, hconfig⟩
    refine ⟨hcovered, ?_⟩
    rw [hconfig]
    exact hQ _
  · rintro _ w' ⟨hcovered, hconfig⟩
    refine ⟨hcovered, ?_⟩
    rw [hconfig]
    exact hQ _

end AnyStorage

/-- Every process of a durable run is covered and has a journal. -/
theorem durable_covered
    {s t : System Storage LeaseLog} {es : List (Event LeaseLog × Reply)}
    (hrun : durable.Run s es t)
    (hs : s.process = none) :
    t.Holds (fun w => w.engine.Covered ∧ w.engine.config.journal = true) := by
  refine hrun.invariant
    (P := System.Holds
      (fun w => w.engine.Covered ∧ w.engine.config.journal = true)) ?_ ?_
  · intro u e hu hguard
    refine step_covered (fun config _ => config.journal = true) e hu ?_
    rintro config orders journal recovered rfl _
    have hg : u.Fresh (.restart config orders journal recovered) ∧
        u.Reopens (.restart config orders journal recovered) := hguard
    exact hg.2.1
  · intro engine hengine
    rw [hs] at hengine
    cases hengine

end Moxy
