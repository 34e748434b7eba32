import Moxy.EngineSystem
import Moxy.Lib.Lockstep

/-!
# Moxy: one engine on two storages

The engine is written against two interfaces.  If two backends and two journals
answer alike, call by call, then two engines that run on them answer alike,
operation by operation, and their memories stay the same.

Errors of the journal need not be the same on both sides; `X` says how they are
related.  An engine passes such an error on, joins it to another one, or keeps it
as the reason why recovery failed, and never looks at it.  It does look at errors
of the backend, and these must agree.
-/

namespace Moxy

open Lib Lib.CrashM

instance : Inhabited Storage :=
  ⟨⟨⟨MemoryQueue.new, []⟩, []⟩⟩

instance : Inhabited LeaseLog :=
  ⟨⟨[], []⟩⟩

/-- The memories of two engines: the same, but for the error of a failed recovery. -/
structure SameMemory (X : GoError → GoError → Prop) (e e' : Engine) : Prop where
  leases : e.leases = e'.leases
  expirations : e.expirations = e'.expirations
  config : e.config = e'.config
  recoveryErr : Option.Rel X e.recoveryErr e'.recoveryErr

/-- What an engine does with the errors of its journal. -/
structure ErrorsMatch (X : GoError → GoError → Prop) : Prop where
  refl : ∀ err, X err err
  join : ∀ first first' second second',
    X first first' → X second second' → X (.join first second) (.join first' second')

/-- Two backends that answer alike, as long as new and recovered IDs are valid. -/
structure BackendsTrack {β β' : Type} [Backend β] [Backend β'] (valid : GoString → Prop)
    (B : Coupling β β') : Prop where
  enqueue : ∀ newID payload, valid newID →
    Tracks B Eq Eq (Backend.enqueue ⟨newID, payload, 0⟩) (Backend.enqueue ⟨newID, payload, 0⟩)
  acquire : ∀ leaseID, valid leaseID →
    Tracks B Eq Eq (Backend.acquire leaseID) (Backend.acquire leaseID)
  complete : ∀ taskID leaseID,
    Tracks B Eq Eq (Backend.complete taskID leaseID) (Backend.complete taskID leaseID)
  requeue : ∀ taskID leaseID,
    Tracks B Eq Eq (Backend.requeue taskID leaseID) (Backend.requeue taskID leaseID)
  deadLetter : ∀ taskID leaseID reason,
    Tracks B Eq Eq (Backend.deadLetter taskID leaseID reason)
      (Backend.deadLetter taskID leaseID reason)
  recoverOrphanedProcessing : ∀ activeLeases : List LeaseFence,
    (∀ fence ∈ activeLeases, valid fence.taskID ∧ valid fence.leaseID) →
    Tracks B Eq Eq (Backend.recoverOrphanedProcessing activeLeases)
      (Backend.recoverOrphanedProcessing activeLeases)

/-- Two journals that answer alike. -/
def JournalsTrack {γ γ' : Type} [Journal γ] [Journal γ'] (X : GoError → GoError → Prop)
    (J : Coupling γ γ') : Prop :=
  ∀ record, Tracks J Eq X (Journal.append record) (Journal.append record)

/-- Two worlds with the same memory on related storage. -/
def worlds {β β' γ γ' : Type} (X : GoError → GoError → Prop) (B : Coupling β β')
    (J : Coupling γ γ') : Coupling (World β γ) (World β' γ') where
  rel w w' :=
    SameMemory X w.engine w'.engine ∧ B.rel w.backend w'.backend ∧
      J.rel w.journal w'.journal
  offLeft w := B.offLeft w.backend ∨ J.offLeft w.journal
  offRight w := B.offRight w.backend ∨ J.offRight w.journal

theorem partnered_errors
    {X : GoError → GoError → Prop}
    (hX : ErrorsMatch X) :
    Partnered X :=
  ⟨fun err => ⟨err, hX.refl err⟩, fun err => ⟨err, hX.refl err⟩⟩

section Memory

variable {X : GoError → GoError → Prop} {e e' : Engine}

theorem SameMemory.refl
    (hX : ErrorsMatch X) (e : Engine) :
    SameMemory X e e := by
  refine ⟨rfl, rfl, rfl, ?_⟩
  cases e.recoveryErr with
  | none => exact .none
  | some err => exact .some (hX.refl err)

theorem SameMemory.publish
    (h : SameMemory X e e') (lease : Lease) :
    SameMemory X (e.publish lease) (e'.publish lease) := by
  refine ⟨?_, ?_, h.config, h.recoveryErr⟩
  · simp only [Engine.publish, h.leases]
  · simp only [Engine.publish, h.expirations]

theorem SameMemory.dropLease
    (h : SameMemory X e e') (leaseID : GoString) :
    SameMemory X (e.dropLease leaseID) (e'.dropLease leaseID) := by
  refine ⟨?_, h.expirations, h.config, h.recoveryErr⟩
  simp only [Engine.dropLease, h.leases]

theorem SameMemory.pushExpiration
    (h : SameMemory X e e') (item : ExpirationItem) :
    SameMemory X (e.pushExpiration item) (e'.pushExpiration item) := by
  refine ⟨h.leases, ?_, h.config, h.recoveryErr⟩
  simp only [Engine.pushExpiration, h.expirations]

theorem SameMemory.popExpiration
    (h : SameMemory X e e') :
    SameMemory X e.popExpiration e'.popExpiration := by
  refine ⟨h.leases, ?_, h.config, h.recoveryErr⟩
  simp only [Engine.popExpiration, h.expirations]

theorem SameMemory.publishMatched
    (matchedIDs : Finset GoString) (opened : List (GoString × Record)) :
    ∀ {e e' : Engine}, SameMemory X e e' →
      SameMemory X (publishMatched matchedIDs opened e) (publishMatched matchedIDs opened e') := by
  induction opened with
  | nil =>
      intro e e' h
      exact h
  | cons binding opened ih =>
      intro e e' h
      simp only [Moxy.publishMatched, List.foldl_cons] at ih ⊢
      split_ifs
      · exact ih (h.publish _)
      · exact ih h

end Memory

section Calls

variable {β β' γ γ' : Type} {X Y : GoError → GoError → Prop}
  {B : Coupling β β'} {J : Coupling γ γ'} {δ δ' : Type} {W : δ → δ' → Prop}

theorem onBackend_keeps
    {P : β → Prop} {Q : γ → Prop} {m : CrashM GoError β δ}
    (h : Preserves P m) :
    Preserves (fun w => P w.backend ∨ Q w.journal) (onBackend m : EngineM β γ δ) := by
  intro w hw
  rw [wp_onBackend]
  rcases hw with hb | hj
  · exact wp_mono (h _ hb) (fun _ _ hb' => Or.inl hb') (fun _ _ hb' => Or.inl hb')
      (fun _ hb' => Or.inl hb')
  · unfold wp
    cases m w.backend <;> exact Or.inr hj

theorem onJournal_keeps
    {P : β → Prop} {Q : γ → Prop} {m : CrashM GoError γ δ}
    (h : Preserves Q m) :
    Preserves (fun w => P w.backend ∨ Q w.journal) (onJournal m : EngineM β γ δ) := by
  intro w hw
  rw [onJournal, wp_zoom]
  rcases hw with hb | hj
  · unfold wp
    cases m w.journal <;> exact Or.inl hb
  · exact wp_mono (h _ hj) (fun _ _ hj' => Or.inr hj') (fun _ _ hj' => Or.inr hj')
      (fun _ hj' => Or.inr hj')

theorem onEngine_tracks
    {f g : Engine → Engine}
    (h : ∀ e e', SameMemory X e e' → SameMemory X (f e) (g e')) :
    Tracks (worlds X B J) Eq Y (onEngine f) (onEngine g) :=
  tracks_update (fun _ hw => hw) (fun _ hw => hw) (fun _ _ hw => ⟨h _ _ hw.1, hw.2⟩)

theorem onBackend_tracks
    {m : CrashM GoError β δ} {n : CrashM GoError β' δ'}
    (h : Tracks B W Y m n) :
    Tracks (worlds X B J) W Y (onBackend m : EngineM β γ δ) (onBackend n : EngineM β' γ' δ') :=
  h.zoom (onBackend_keeps h.left) (onBackend_keeps h.right)
    (fun _ _ hb => Or.inl hb) (fun _ _ hb => Or.inl hb)
    (fun _ _ hw => hw.2.1) (fun _ _ _ _ hw hb => ⟨hw.1, hb, hw.2.2⟩)

theorem onJournal_tracks
    {m : CrashM GoError γ δ} {n : CrashM GoError γ' δ'}
    (h : Tracks J W Y m n) :
    Tracks (worlds X B J) W Y (onJournal m : EngineM β γ δ) (onJournal n : EngineM β' γ' δ') :=
  h.zoom (onJournal_keeps h.left) (onJournal_keeps h.right)
    (fun _ _ hj => Or.inr hj) (fun _ _ hj => Or.inr hj)
    (fun _ _ hw => hw.2.2) (fun _ _ _ _ hw hj => ⟨hw.1, hw.2.1, hj⟩)

/-- An error of the backend is the same on both sides. -/
theorem backendCall_tracks
    {α : Type} {m : CrashM GoError β α} {n : CrashM GoError β' α}
    (hX : ErrorsMatch X)
    (h : Tracks B Eq Eq m n) :
    Tracks (worlds X B J) Eq X (onBackend m : EngineM β γ α) (onBackend n : EngineM β' γ' α) :=
  (onBackend_tracks h).mono (fun _ _ ha => ha) (fun _ _ he => he ▸ hX.refl _)

/-- A call on the backend whose error the engine looks at. -/
theorem attempt_backend_tracks
    {α δ : Type} {m : CrashM GoError β α} {n : CrashM GoError β' α}
    {f : Except GoError α → EngineM β γ δ} {g : Except GoError α → EngineM β' γ' δ}
    (h : Tracks B Eq Eq m n)
    (hf : ∀ result, Tracks (worlds X B J) Eq X (f result) (g result)) :
    Tracks (worlds X B J) Eq X (attempt (onBackend m) >>= f) (attempt (onBackend n) >>= g) := by
  refine Tracks.bind (onBackend_tracks h).attempt (partnered_eq.attempt partnered_eq) ?_
  rintro _ _ (rfl | rfl)
  · exact hf _
  · exact hf _

theorem failRecovery_tracks
    (hX : ErrorsMatch X)
    {err err' : GoError}
    (herr : X err err') :
    Tracks (worlds X B J) Eq X (failRecovery err : EngineM β γ Unit)
      (failRecovery err' : EngineM β' γ' Unit) :=
  onEngine_tracks fun _ _ h =>
    ⟨h.leases, h.expirations, h.config, .some (hX.join _ _ _ _ (hX.refl _) herr)⟩

/-- A program that reads the memory of its engine. -/
theorem tracks_memory
    [Inhabited β] [Inhabited β'] [Inhabited γ] [Inhabited γ']
    (hX : ErrorsMatch X)
    {f : World β γ → EngineM β γ δ} {g : World β' γ' → EngineM β' γ' δ'}
    (hf : ∀ w w', SameMemory X w.engine w'.engine →
      Tracks (worlds X B J) W X (f w) (g w')) :
    Tracks (worlds X B J) W X (read >>= f) (read >>= g) := by
  refine tracks_read_bind (Q := fun w w' => SameMemory X w.engine w'.engine)
    (fun _ _ h => h.1) ⟨?_, ?_⟩ hf
  · intro w
    exact ⟨⟨w.engine, default, default⟩, .refl hX _⟩
  · intro w'
    exact ⟨⟨w'.engine, default, default⟩, .refl hX _⟩

end Calls

section Operations

variable {β β' γ γ' : Type} [Inhabited β] [Inhabited β'] [Inhabited γ] [Inhabited γ']
  {valid : GoString → Prop} {X : GoError → GoError → Prop}
  {B : Coupling β β'} {J : Coupling γ γ'}

theorem ensureRecovered_tracks
    (hX : ErrorsMatch X) :
    Tracks (worlds X B J) Eq X (ensureRecovered : EngineM β γ Unit)
      (ensureRecovered : EngineM β' γ' Unit) := by
  refine tracks_memory hX (fun w w' h => ?_)
  have herr := h.recoveryErr
  generalize w.engine.recoveryErr = err at herr ⊢
  generalize w'.engine.recoveryErr = err' at herr ⊢
  cases herr with
  | none => exact tracks_pure rfl
  | some h => exact tracks_fail h

variable [Journal γ] [Journal γ']

theorem record_tracks
    (hX : ErrorsMatch X)
    (hJ : JournalsTrack X J)
    (entry : Record) :
    Tracks (worlds X B J) Eq X (record entry : EngineM β γ Unit)
      (record entry : EngineM β' γ' Unit) := by
  refine tracks_memory hX (fun w w' h => ?_)
  rw [h.config]
  split_ifs
  · exact onJournal_tracks (hJ entry)
  · exact tracks_pure rfl

/-- An append whose error the engine passes on. -/
theorem attempt_record_tracks
    {δ : Type} {f : Except GoError Unit → EngineM β γ δ}
    {g : Except GoError Unit → EngineM β' γ' δ}
    (hX : ErrorsMatch X)
    (hJ : JournalsTrack X J)
    (entry : Record)
    (hok : Tracks (worlds X B J) Eq X (f (.ok ())) (g (.ok ())))
    (herror : ∀ err err', X err err' →
      Tracks (worlds X B J) Eq X (f (.error err)) (g (.error err'))) :
    Tracks (worlds X B J) Eq X (attempt (record entry) >>= f) (attempt (record entry) >>= g) := by
  refine Tracks.bind (record_tracks hX hJ entry).attempt
    (partnered_eq.attempt (partnered_errors hX)) ?_
  rintro _ _ (⟨⟨⟩⟩ | ⟨herr⟩)
  · exact hok
  · exact herror _ _ herr

theorem recordStale_tracks
    (hX : ErrorsMatch X)
    (hJ : JournalsTrack X J)
    (matchedIDs : Finset GoString) :
    ∀ leaseIDs,
      Tracks (worlds X B J) Eq X (recordStale matchedIDs leaseIDs : EngineM β γ Unit)
        (recordStale matchedIDs leaseIDs : EngineM β' γ' Unit) := by
  intro leaseIDs
  induction leaseIDs with
  | nil => exact tracks_pure rfl
  | cons leaseID rest ih =>
      unfold recordStale
      split_ifs
      · exact ih
      · refine (record_tracks hX hJ _).bind partnered_eq ?_
        rintro _ _ rfl
        exact ih

variable [Backend β] [Backend β']

omit [Journal γ] [Journal γ'] in
theorem enqueue_tracks
    (hX : ErrorsMatch X)
    (hB : BackendsTrack valid B)
    {newID : GoString} (hnew : valid newID) (payload : Bytes) :
    Tracks (worlds X B J) Eq X (enqueue newID payload : EngineM β γ Task)
      (enqueue newID payload : EngineM β' γ' Task) := by
  refine (ensureRecovered_tracks hX).bind partnered_eq ?_
  rintro _ _ rfl
  refine (backendCall_tracks hX (hB.enqueue newID payload hnew)).bind partnered_eq ?_
  rintro _ _ rfl
  exact tracks_pure rfl

theorem fetch_tracks
    (hX : ErrorsMatch X)
    (hB : BackendsTrack valid B)
    (hJ : JournalsTrack X J)
    {leaseID : GoString} (hnew : valid leaseID) (now timeout : Int) :
    Tracks (worlds X B J) Eq X (fetch leaseID now timeout : EngineM β γ Lease)
      (fetch leaseID now timeout : EngineM β' γ' Lease) := by
  unfold fetch
  split_ifs
  · exact tracks_fail (hX.refl _)
  refine (ensureRecovered_tracks hX).bind partnered_eq ?_
  rintro _ _ rfl
  refine attempt_backend_tracks (hB.acquire leaseID hnew) ?_
  rintro (err | task)
  · dsimp only
    split_ifs
    · exact tracks_fail (hX.refl _)
    · exact tracks_fail (hX.refl _)
  · refine attempt_record_tracks hX hJ _ ?_ ?_
    · refine (onEngine_tracks fun _ _ h => h.publish _).bind partnered_eq ?_
      rintro _ _ rfl
      exact tracks_pure rfl
    · intro err err' herr
      refine attempt_backend_tracks (hB.requeue task.id leaseID) ?_
      rintro (requeueErr | _)
      · exact tracks_fail (hX.join _ _ _ _ herr (hX.refl _))
      · exact tracks_fail herr

theorem ack_tracks
    (hX : ErrorsMatch X)
    (hB : BackendsTrack valid B)
    (hJ : JournalsTrack X J)
    (leaseID : GoString) :
    Tracks (worlds X B J) Eq X (ack leaseID : EngineM β γ Unit)
      (ack leaseID : EngineM β' γ' Unit) := by
  refine (ensureRecovered_tracks hX).bind partnered_eq ?_
  rintro _ _ rfl
  refine tracks_memory hX (fun w w' h => ?_)
  rw [h.leases]
  cases w'.engine.leases.lookup leaseID with
  | none => exact tracks_fail (hX.refl _)
  | some lease =>
      have hdrop : Tracks (worlds X B J) Eq X
          (onEngine (Engine.dropLease leaseID) : EngineM β γ Unit)
          (onEngine (Engine.dropLease leaseID) : EngineM β' γ' Unit) :=
        onEngine_tracks fun _ _ h => h.dropLease leaseID
      refine attempt_backend_tracks (hB.complete lease.task.id lease.leaseID) ?_
      rintro (err | _)
      · dsimp only
        split_ifs
        · refine (record_tracks hX hJ _).bind partnered_eq ?_
          rintro _ _ rfl
          refine hdrop.bind partnered_eq ?_
          rintro _ _ rfl
          exact tracks_fail (hX.refl _)
        · exact tracks_fail (hX.refl _)
      · refine (record_tracks hX hJ _).bind partnered_eq ?_
        rintro _ _ rfl
        exact hdrop

theorem expireLease_tracks
    (hX : ErrorsMatch X)
    (hB : BackendsTrack valid B)
    (hJ : JournalsTrack X J)
    (lease : Lease) :
    Tracks (worlds X B J) Eq X (expireLease lease : EngineM β γ Unit)
      (expireLease lease : EngineM β' γ' Unit) := by
  refine tracks_memory hX (fun w w' h => ?_)
  have hdead : w.engine.shouldDeadLetter lease = w'.engine.shouldDeadLetter lease := by
    rw [Engine.shouldDeadLetter, Engine.shouldDeadLetter, h.config]
  rw [hdead]
  have hcall : ∀ dead, Tracks B Eq Eq (expireCall dead lease) (expireCall dead lease) := by
    intro dead
    unfold expireCall
    split_ifs
    · exact hB.deadLetter _ _ _
    · exact hB.requeue _ _
  refine attempt_backend_tracks (hcall _) ?_
  rintro (err | _)
  · dsimp only
    split_ifs
    · exact record_tracks hX hJ _
    · exact tracks_fail (hX.refl _)
  · exact record_tracks hX hJ _

/-- The two loops do the same work on every entry of the heap. -/
theorem reapLoop_tracks
    (hX : ErrorsMatch X)
    (hB : BackendsTrack valid B)
    (hJ : JournalsTrack X J)
    (now : Int) :
    ∀ fuel requeued,
      Tracks (worlds X B J) (fun r r' => r.1 = r'.1 ∧ Option.Rel X r.2 r'.2) X
        (reapLoop now fuel requeued : EngineM β γ (Nat × Option GoError))
        (reapLoop now fuel requeued : EngineM β' γ' (Nat × Option GoError)) := by
  intro fuel
  induction fuel with
  | zero =>
      intro requeued
      exact tracks_pure ⟨rfl, .none⟩
  | succ fuel ih =>
      intro requeued
      refine tracks_memory hX (fun w w' h => ?_)
      rw [h.expirations, h.leases, h.config]
      cases BinaryHeap.peek w'.engine.expirations with
      | none => exact tracks_pure ⟨rfl, .none⟩
      | some item =>
          dsimp only
          split_ifs
          · exact tracks_pure ⟨rfl, .none⟩
          refine (onEngine_tracks fun _ _ h => h.popExpiration).bind partnered_eq ?_
          rintro _ _ rfl
          cases w'.engine.leases.lookup item.leaseID with
          | none => exact ih requeued
          | some lease =>
              dsimp only
              split_ifs
              · exact ih requeued
              refine Tracks.bind (expireLease_tracks hX hB hJ lease).attempt
                (partnered_eq.attempt (partnered_errors hX)) ?_
              rintro _ _ (⟨⟨⟩⟩ | ⟨herr⟩)
              · refine (onEngine_tracks fun _ _ h => h.dropLease _).bind partnered_eq ?_
                rintro _ _ rfl
                exact ih (requeued + 1)
              · refine (onEngine_tracks fun _ _ h => h.pushExpiration _).bind partnered_eq ?_
                rintro _ _ rfl
                exact tracks_pure ⟨rfl, .some herr⟩

theorem reapExpired_tracks
    (hX : ErrorsMatch X)
    (hB : BackendsTrack valid B)
    (hJ : JournalsTrack X J)
    (now : Int) :
    Tracks (worlds X B J) (fun r r' => r.1 = r'.1 ∧ Option.Rel X r.2 r'.2) X
      (reapExpired now : EngineM β γ (Nat × Option GoError))
      (reapExpired now : EngineM β' γ' (Nat × Option GoError)) := by
  refine tracks_memory hX (fun w w' h => ?_)
  rw [h.expirations]
  have herr := h.recoveryErr
  generalize w.engine.recoveryErr = err at herr ⊢
  generalize w'.engine.recoveryErr = err' at herr ⊢
  cases herr with
  | none => exact reapLoop_tracks hX hB hJ now _ 0
  | some h => exact tracks_pure ⟨rfl, .some h⟩

/-- The IDs in the records that open a lease are valid. -/
def ValidRecords (valid : GoString → Prop) (records : List Record) : Prop :=
  ∀ record ∈ records, record.op = .fetch → valid record.task.id ∧ valid record.leaseID

theorem newEngine_tracks
    (hX : ErrorsMatch X)
    (hB : BackendsTrack valid B)
    (hJ : JournalsTrack X J)
    (config : EngineConfig) (orders : RestoreOrders) {recovered : List Record}
    (hvalid : ValidRecords valid recovered) :
    Tracks (worlds X B J) Eq X (newEngine config orders recovered : EngineM β γ Unit)
      (newEngine config orders recovered : EngineM β' γ' Unit) := by
  refine (onEngine_tracks fun _ _ _ => .refl hX _).bind partnered_eq ?_
  rintro _ _ rfl
  have hfences : ∀ fence ∈ ((live recovered).range orders.fences).map
      (fun binding => (⟨binding.2.task.id, binding.2.leaseID⟩ : LeaseFence)),
      valid fence.taskID ∧ valid fence.leaseID := by
    intro fence hfence
    obtain ⟨⟨leaseID, record⟩, hmem, rfl⟩ := List.mem_map.mp hfence
    obtain ⟨hrecord, _, hfetch⟩ := live_lookup_some ((Map.mem_range _ _ _ _).mp hmem)
    exact hvalid record hrecord hfetch
  refine attempt_backend_tracks (hB.recoverOrphanedProcessing _ hfences) ?_
  rintro (err | result)
  · exact failRecovery_tracks hX (hX.refl _)
  · refine Tracks.bind (recordStale_tracks hX hJ _ _).attempt
      (partnered_eq.attempt (partnered_errors hX)) ?_
    rintro _ _ (⟨⟨⟩⟩ | ⟨herr⟩)
    · exact onEngine_tracks fun _ _ h => h.publishMatched _ _
    · exact failRecovery_tracks hX herr

end Operations

/-- Two replies that differ at most in errors of the journal. -/
inductive Reply.Alike (X : GoError → GoError → Prop) : Reply → Reply → Prop
  | enqueued (task : Task) : Reply.Alike X (.enqueued task) (.enqueued task)
  | fetched (lease : Lease) : Reply.Alike X (.fetched lease) (.fetched lease)
  | acked : Reply.Alike X .acked .acked
  | reaped (count : Nat) {err err' : Option GoError} (herr : Option.Rel X err err') :
      Reply.Alike X (.reaped count err) (.reaped count err')
  | started : Reply.Alike X .started .started
  | failed {err err' : GoError} (herr : X err err') : Reply.Alike X (.failed err) (.failed err')
  | crashed : Reply.Alike X .crashed .crashed
  | down : Reply.Alike X .down .down

/-- The same event on two systems; a start finds related journals. -/
inductive Event.Alike {γ γ' : Type} (K : γ → γ' → Prop) : Event γ → Event γ' → Prop
  | enqueue (newID : GoString) (payload : Bytes) :
      Event.Alike K (.enqueue newID payload) (.enqueue newID payload)
  | fetch (leaseID : GoString) (now timeout : Int) :
      Event.Alike K (.fetch leaseID now timeout) (.fetch leaseID now timeout)
  | ack (leaseID : GoString) : Event.Alike K (.ack leaseID) (.ack leaseID)
  | reap (now : Int) : Event.Alike K (.reap now) (.reap now)
  | restart (config : EngineConfig) (orders : RestoreOrders) {journal : γ} {journal' : γ'}
      (recovered : List Record) (hjournal : K journal journal') :
      Event.Alike K (.restart config orders journal recovered)
        (.restart config orders journal' recovered)

/-- The IDs that come in with an event are valid. -/
def Event.Valid {γ : Type} (valid : GoString → Prop) : Event γ → Prop
  | .enqueue newID _ => valid newID
  | .fetch leaseID _ _ => valid leaseID
  | .restart _ _ _ recovered => ValidRecords valid recovered
  | _ => True

/-- Two systems with the same memory on related storage. -/
def systems {β β' γ γ' : Type} (X : GoError → GoError → Prop) (B : Coupling β β')
    (J : Coupling γ γ') : Coupling (System β γ) (System β' γ') where
  rel s t :=
    Option.Rel (SameMemory X) s.process t.process ∧ B.rel s.backend t.backend ∧
      J.rel s.journal t.journal ∧ s.issued = t.issued
  offLeft s := B.offLeft s.backend ∨ J.offLeft s.journal
  offRight t := B.offRight t.backend ∨ J.offRight t.journal

/-- A journal appends as it does itself. -/
theorem journalsTrack_itself
    {γ : Type} [Journal γ] {P : γ → Prop}
    (h : ∀ record, Preserves P (Journal.append record)) :
    JournalsTrack Eq (Coupling.itself P) :=
  fun record => tracks_itself (h record)

/-- A backend answers as it does itself. -/
theorem backendsTrack_itself
    (β : Type) [Backend β] :
    BackendsTrack (fun _ => True) (Coupling.itself fun _ : β => False) where
  enqueue _ _ _ := tracks_itself (fun _ h => h.elim)
  acquire _ _ := tracks_itself (fun _ h => h.elim)
  complete _ _ := tracks_itself (fun _ h => h.elim)
  requeue _ _ := tracks_itself (fun _ h => h.elim)
  deadLetter _ _ _ := tracks_itself (fun _ h => h.elim)
  recoverOrphanedProcessing _ _ := tracks_itself (fun _ h => h.elim)

theorem errorsMatch_eq :
    ErrorsMatch Eq where
  refl _ := rfl
  join _ _ _ _ hfirst hsecond := by rw [hfirst, hsecond]

theorem Event.Alike.refl
    {γ : Type} {K : γ → γ → Prop}
    (hK : ∀ j, K j j) (e : Event γ) :
    Event.Alike K e e := by
  cases e with
  | restart config orders journal recovered => exact .restart config orders recovered (hK journal)
  | enqueue newID payload => exact .enqueue newID payload
  | fetch leaseID now timeout => exact .fetch leaseID now timeout
  | ack leaseID => exact .ack leaseID
  | reap now => exact .reap now

section Systems

variable {β β' γ γ' : Type} {valid : GoString → Prop} {X : GoError → GoError → Prop}
  {B : Coupling β β'} {J : Coupling γ γ'} {s : System β γ} {t : System β' γ'}

/-- The two answers agree, and the two systems stay coupled, unless one is off. -/
def AnswersAlike (X : GoError → GoError → Prop) (B : Coupling β β') (J : Coupling γ γ')
    (r : Reply × System β γ) (r' : Reply × System β' γ') : Prop :=
  (systems X B J).offLeft r.2 ∨ (systems X B J).offRight r'.2 ∨
    (Reply.Alike X r.1 r'.1 ∧ (systems X B J).rel r.2 r'.2)

theorem System.exec_tracks
    {α α' : Type} {V : α → α' → Prop} {m : EngineM β γ α} {n : EngineM β' γ' α'}
    {engine engine' : Engine} {reply : α → Reply} {reply' : α' → Reply}
    (h : Tracks (worlds X B J) V X m n)
    (hreply : ∀ a a', V a a' → Reply.Alike X (reply a) (reply' a'))
    (hengine : SameMemory X engine engine')
    (hbackend : B.rel s.backend t.backend)
    (hjournal : J.rel s.journal t.journal)
    (hissued : s.issued = t.issued) :
    AnswersAlike X B J (s.exec engine m reply) (t.exec engine' n reply') := by
  have halike := h.alike ⟨engine, s.backend, s.journal⟩ ⟨engine', t.backend, t.journal⟩
    ⟨hengine, hbackend, hjournal⟩
  unfold System.exec
  generalize m ⟨engine, s.backend, s.journal⟩ = o at halike ⊢
  generalize n ⟨engine', t.backend, t.journal⟩ = o' at halike ⊢
  rcases halike with hoff | hoff | halike
  · left
    cases o <;> exact hoff
  · right
    left
    cases o' <;> exact hoff
  · right
    right
    cases halike with
    | ok ha hw => exact ⟨hreply _ _ ha, .some hw.1, hw.2.1, hw.2.2, hissued⟩
    | error he hw => exact ⟨.failed he, .some hw.1, hw.2.1, hw.2.2, hissued⟩
    | crashed hw => exact ⟨.crashed, .none, hw.2.1, hw.2.2, hissued⟩

/-- Two processes that are down answer nothing. -/
theorem answersAlike_down
    {b : β} {b' : β'} {j : γ} {j' : γ'} {issued issued' : List GoString}
    (hbackend : B.rel b b')
    (hjournal : J.rel j j')
    (hissued : issued = issued') :
    AnswersAlike X B J (.down, ⟨none, b, j, issued⟩) (.down, ⟨none, b', j', issued'⟩) :=
  Or.inr (Or.inr ⟨.down, .none, hbackend, hjournal, hissued⟩)

theorem System.exec_offLeft
    {α α' : Type} {V : α → α' → Prop} {m : EngineM β γ α} {n : EngineM β' γ' α'}
    {engine : Engine} {reply : α → Reply}
    (h : Tracks (worlds X B J) V X m n)
    (hs : (systems X B J).offLeft s) :
    (systems X B J).offLeft (s.exec engine m reply).2 :=
  System.exec_cases (P := fun r => (systems X B J).offLeft r.2)
    (h.left ⟨engine, s.backend, s.journal⟩ hs)

variable [Backend β] [Backend β'] [Journal γ] [Journal γ']
  [Inhabited β] [Inhabited β'] [Inhabited γ] [Inhabited γ']

/-- Two coupled systems answer the same event alike. -/
theorem System.step_tracks
    (hX : ErrorsMatch X)
    (hB : BackendsTrack valid B)
    (hJ : JournalsTrack X J)
    {e : Event γ} {e' : Event γ'}
    (he : Event.Alike J.rel e e')
    (hvalid : e.Valid valid)
    (hs : (systems X B J).rel s t) :
    AnswersAlike X B J (s.step e) (t.step e') := by
  obtain ⟨hprocess, hbackend, hjournal, hissued⟩ := hs
  have hnew : e.newIDs = e'.newIDs := by
    cases he <;> rfl
  have hissued' : e.newIDs ++ s.issued = e'.newIDs ++ t.issued := by
    rw [hnew, hissued]
  generalize hp : s.process = p at hprocess
  generalize hq : t.process = q at hprocess
  cases he with
  | restart config orders recovered hj =>
      exact System.exec_tracks (newEngine_tracks hX hB hJ config orders hvalid)
        (fun _ _ _ => .started) (.refl hX _) hbackend hj hissued'
  | enqueue newID payload =>
      cases hprocess with
      | none =>
          simp only [System.step, hp, hq]
          exact answersAlike_down hbackend hjournal hissued'
      | some hmemory =>
          simp only [System.step, hp, hq]
          exact System.exec_tracks (enqueue_tracks hX hB hvalid payload)
            (fun _ _ h => h ▸ .enqueued _) hmemory hbackend hjournal hissued'
  | fetch leaseID now timeout =>
      cases hprocess with
      | none =>
          simp only [System.step, hp, hq]
          exact answersAlike_down hbackend hjournal hissued'
      | some hmemory =>
          simp only [System.step, hp, hq]
          exact System.exec_tracks (fetch_tracks hX hB hJ hvalid now timeout)
            (fun _ _ h => h ▸ .fetched _) hmemory hbackend hjournal hissued'
  | ack leaseID =>
      cases hprocess with
      | none =>
          simp only [System.step, hp, hq]
          exact answersAlike_down hbackend hjournal hissued'
      | some hmemory =>
          simp only [System.step, hp, hq]
          exact System.exec_tracks (ack_tracks hX hB hJ leaseID)
            (fun _ _ _ => .acked) hmemory hbackend hjournal hissued'
  | reap now =>
      cases hprocess with
      | none =>
          simp only [System.step, hp, hq]
          exact answersAlike_down hbackend hjournal hissued'
      | some hmemory =>
          simp only [System.step, hp, hq]
          exact System.exec_tracks (reapExpired_tracks hX hB hJ now)
            (fun _ _ h => h.1 ▸ .reaped _ h.2) hmemory hbackend hjournal hissued'

/-- A system that is off stays off, if a start finds a journal that is. -/
theorem System.step_offLeft
    (hX : ErrorsMatch X)
    (hB : BackendsTrack valid B)
    (hJ : JournalsTrack X J)
    {e : Event γ} (hvalid : e.Valid valid)
    (hstart : ∀ config orders journal recovered,
      e = .restart config orders journal recovered → J.offLeft s.journal → J.offLeft journal)
    (hs : (systems X B J).offLeft s) :
    (systems X B J).offLeft (s.step e).2 := by
  cases e with
  | restart config orders journal recovered =>
      exact exec_offLeft (newEngine_tracks hX hB hJ config orders hvalid)
        (hs.imp_right (hstart config orders journal recovered rfl))
  | enqueue newID payload =>
      cases hp : s.process with
      | none =>
          simp only [System.step, hp]
          exact hs
      | some engine =>
          simp only [System.step, hp]
          exact exec_offLeft (enqueue_tracks hX hB hvalid payload) hs
  | fetch leaseID now timeout =>
      cases hp : s.process with
      | none =>
          simp only [System.step, hp]
          exact hs
      | some engine =>
          simp only [System.step, hp]
          exact exec_offLeft (fetch_tracks hX hB hJ hvalid now timeout) hs
  | ack leaseID =>
      cases hp : s.process with
      | none =>
          simp only [System.step, hp]
          exact hs
      | some engine =>
          simp only [System.step, hp]
          exact exec_offLeft (ack_tracks hX hB hJ leaseID) hs
  | reap now =>
      cases hp : s.process with
      | none =>
          simp only [System.step, hp]
          exact hs
      | some engine =>
          simp only [System.step, hp]
          exact exec_offLeft (reapExpired_tracks hX hB hJ now) hs

/-- What every append keeps of the journal, an event keeps. -/
theorem System.step_journal
    {P : γ → Prop} {e : Event γ}
    (hP : ∀ record, Preserves P (Journal.append record))
    (hstart : ∀ config orders journal recovered,
      e = .restart config orders journal recovered → P s.journal → P journal)
    (hs : P s.journal) :
    P (s.step e).2.journal := by
  have hvalid : e.Valid (fun _ => True) := by
    cases e with
    | restart => exact fun _ _ _ => ⟨trivial, trivial⟩
    | enqueue | fetch | ack | reap => trivial
  exact (step_offLeft errorsMatch_eq (backendsTrack_itself β) (journalsTrack_itself hP) hvalid
    hstart (Or.inr hs)).resolve_left id

end Systems

end Moxy
