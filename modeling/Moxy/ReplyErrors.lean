import Moxy.ServiceAck
import Moxy.TameStorage

/-!
# Moxy: errors that leave their line

The text of an error is copied into a line of the reply, and joined errors have a
line feed between their texts.  Errors are joined in two places that a client can
reach: when the recovery of an engine fails, and when a fetch can neither journal
the task that it took nor hand it back.

For each operation there is a condition on the state before it, its *clean*
condition.  `Framing clean err` says that the error fits into a line exactly if
the condition holds.
-/

namespace Moxy

open Lib Lib.CrashM

/--
An error whose text does not fit into a line, and which no caller takes for an
empty queue or a missing lease.
-/
structure GoError.Breaks (err : GoError) : Prop where
  feed : 10 ∈ err.message
  notEmpty : err.is .errQueueEmpty = false
  notMissing : err.is .errLeaseNotFound = false

/-- The error fits into a line if the operation was clean, and not otherwise. -/
def Framing (clean : Prop) (err : GoError) : Prop :=
  (clean ∧ err.Tame) ∨ (¬ clean ∧ err.Breaks)

theorem Framing.of_tame
    {clean : Prop} {err : GoError}
    (hclean : clean)
    (herr : err.Tame) :
    Framing clean err :=
  .inl ⟨hclean, herr⟩

theorem Framing.clean_of_missing
    {clean : Prop} {err : GoError}
    (h : Framing clean err)
    (hmissing : err.is .errLeaseNotFound = true) :
    clean := by
  rcases h with ⟨hclean, _⟩ | ⟨_, hbreaks⟩
  · exact hclean
  · rw [hbreaks.notMissing] at hmissing
    cases hmissing

theorem join_breaks
    {first second : GoError}
    (hfirst : (∃ s, first = .sentinel s ∧ s ≠ .errQueueEmpty ∧ s ≠ .errLeaseNotFound) ∨
      ∃ message, first = .text message)
    (hsecond : ∃ message, second = .text message) :
    (GoError.join first second).Breaks := by
  obtain ⟨message, rfl⟩ := hsecond
  rcases hfirst with ⟨s, rfl, hempty, hmissing⟩ | ⟨text, rfl⟩
  · exact ⟨by simp [GoError.message], by simpa using hempty, by simpa using hmissing⟩
  · exact ⟨by simp [GoError.message], by simp, by simp⟩

/-- A recovery error does not fit into a line. -/
theorem FailedByText.framing
    {recoveryErr : Option GoError} {err : GoError} {clean : Prop}
    (h : FailedByText recoveryErr)
    (herr : recoveryErr = some err)
    (hclean : clean → recoveryErr = none) :
    Framing clean err := by
  obtain ⟨message, rfl⟩ := h err herr
  refine .inr ⟨fun hc => ?_,
    join_breaks (.inl ⟨_, rfl, by decide, by decide⟩) ⟨message, rfl⟩⟩
  rw [hclean hc] at herr
  cases herr

section EngineErrors

variable {w : World Storage LeaseLog}

/-- The recovery of the engine did not fail. -/
def World.Recovered (w : World Storage LeaseLog) : Prop :=
  w.engine.recoveryErr = none

theorem ack_framing
    (leaseID : GoString)
    (hw : w.Tame)
    (hfailed : FailedByText w.engine.recoveryErr) :
    wp (ack leaseID) (fun _ _ => w.Recovered) (fun err _ => Framing w.Recovered err)
      (fun _ => True) w := by
  refine ack_errors leaseID ?_ ?_ ?_ ?_
  · intro err herr
    exact hfailed.framing herr id
  · intro hrec
    exact .of_tame hrec (Sentinel.tame _)
  · intro hrec taskID fence
    exact wp_mono (complete_tame taskID fence hw.1) (fun _ _ _ => trivial)
      (fun _ _ h => .of_tame hrec h.2) (fun _ _ => trivial)
  · intro hrec entry b
    rw [wp_record]
    split_ifs
    exact wp_mono (append_tame entry hw.2) (fun _ _ _ => trivial)
      (fun _ _ h => .of_tame hrec h.2) (fun _ _ => trivial)

end EngineErrors

namespace Service

variable {s : Service Storage LeaseLog} {q : GoString}

/-- What holds of a service between requests. -/
structure Sound (s : Service Storage LeaseLog) : Prop where
  tame : s.Tame
  each : s.Each World.Accountable

theorem Sound.after
    {α : Type} {m : ServiceM Storage LeaseLog α}
    (hs : s.Sound)
    (htame : Preserves Service.Tame m)
    (heach : KeepsEach World.Accountable m s) :
    wp m (fun _ s' => s'.Sound) (fun _ s' => s'.Sound) (fun _ => True) s :=
  wp_mono (wp_and (htame s hs.tame) heach) (fun _ _ h => ⟨h.1, h.2⟩)
    (fun _ _ h => ⟨h.1, h.2⟩) (fun _ _ => trivial)

/-- A queue without an engine shows no recovery error. -/
theorem world_recoveryErr
    (s : Service Storage LeaseLog) (q : GoString) :
    (s.world q).engine.recoveryErr = s.failure q := by
  unfold failure world
  cases s.engines.lookup q with
  | none => rfl
  | some engine => rfl

theorem Sound.failedByText
    (hs : s.Sound) (q : GoString) :
    FailedByText (s.world q).engine.recoveryErr := by
  unfold world
  cases hengine : s.engines.lookup q with
  | none => exact failedByText_none
  | some engine => exact (hs.each q engine hengine).2

/-- The scan for a lease reaches no engine whose recovery failed. -/
def Scans (leaseID : GoString) : List GoString → Service Storage LeaseLog → Prop
  | [], _ => True
  | q :: rest, s =>
      s.failure q = none ∧
      ∀ err s', onQueue q (Moxy.ack leaseID) s = .error err s' →
        err.is .errLeaseNotFound = true → Scans leaseID rest s'

theorem onQueue_ack_framing
    (leaseID q : GoString)
    (hs : s.Sound) :
    wp (onQueue q (Moxy.ack leaseID)) (fun _ _ => s.failure q = none)
      (fun err _ => Framing (s.failure q = none) err) (fun _ => True) s := by
  have htame : (s.world q).Tame := hs.tame q
  have hack := Moxy.ack_framing leaseID htame (hs.failedByText q)
  unfold World.Recovered at hack
  rw [world_recoveryErr] at hack
  rw [wp_onQueue]
  exact hack

theorem ackScan_framing
    (leaseID : GoString) :
    ∀ (queues : List GoString) (s : Service Storage LeaseLog),
      s.Sound →
      wp (ackScan leaseID queues) (fun _ _ => Scans leaseID queues s)
        (fun err _ => Framing (Scans leaseID queues s) err) (fun _ => True) s := by
  intro queues
  induction queues with
  | nil =>
      intro _ _
      exact .of_tame trivial (Sentinel.tame _)
  | cons q rest ih =>
      intro s hs
      have hsound := hs.after (onQueue_preserves q (Moxy.ack_preserves leaseID))
        (onQueue_keepsEach q hs.each (fun w hw => accountable_kept.ack w leaseID hw))
      unfold ackScan
      rw [wp_bind, wp_attempt]
      refine wp_mono (wp_and wp_exact (wp_and hsound (onQueue_ack_framing leaseID q hs)))
        ?_ ?_ (fun _ _ => trivial)
      · rintro _ s' ⟨hend, _, hrec⟩
        refine ⟨hrec, fun err s'' hend' => ?_⟩
        rw [hend] at hend'
        cases hend'
      · rintro err s' ⟨hend, hs', hframing⟩
        dsimp only
        split_ifs with hmissing
        · have hscans : Scans leaseID (q :: rest) s ↔ Scans leaseID rest s' := by
            constructor
            · intro h
              exact h.2 err s' hend hmissing
            · intro h
              refine ⟨hframing.clean_of_missing hmissing, fun err' s'' hend' _ => ?_⟩
              rw [hend] at hend'
              cases hend'
              exact h
          rw [hscans]
          exact ih s' hs'
        · have hscans : Scans leaseID (q :: rest) s ↔ s.failure q = none := by
            refine ⟨And.left, fun h => ⟨h, fun err' s'' hend' hmissing' => ?_⟩⟩
            rw [hend] at hend'
            cases hend'
            exact absurd hmissing' hmissing
          rw [wp_fail, hscans]
          exact hframing

theorem ack_framing
    (order : List GoString) (leaseID : GoString)
    (hs : s.Sound) :
    wp (ack order leaseID) (fun _ _ => Scans leaseID (s.existingEngines order) s)
      (fun err _ => Framing (Scans leaseID (s.existingEngines order) s) err)
      (fun _ => True) s :=
  ackScan_framing leaseID _ s hs

end Service

end Moxy
