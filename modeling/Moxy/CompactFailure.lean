import Moxy.WalCompact

/-!
# Moxy: the journal after a failed compaction

`compact` moves the journal's handle, works on the temporary file, closes the
handle, renames and opens the handle again.  A call that fails in front of the
close leaves the handle open, and the replay has left it at the end of the file:
the next append extends the journal (`Usable.append`).

The close comes before the last two calls, and none of the three error paths opens
the handle again.  The journal then refuses every append (`append_closed`).

So the place of the first call that does not take effect decides whether the
journal still works (`compact_failure`).
-/

namespace Moxy

open Lib Lib.CrashM

/-- Append through the handle that the journal holds; a closed one refuses. -/
def JournalFiles.append (codec : Codec) (e : Appending) (s : JournalFiles) :
    Except GoError Unit × JournalFiles :=
  match encode codec e.record with
  | .error err => (.error err, s)
  | .ok _ =>
      if s.closed then
        (.error (walError (goString "append")
          (goString "write " ++ s.path ++ goString ": file already closed")), s)
      else
        ((Moxy.append codec e s.log).1, { s with log := (Moxy.append codec e s.log).2 })

namespace JournalFiles

/-- The first `k` calls of the script take effect. -/
def Quiet (k : Nat) (s : JournalFiles) : Prop :=
  ∀ c ∈ s.calls.take k, c.fate = .done

/-- The handle is open and stands at the end of the content that `log` has. -/
structure Usable (log : Log) (t : JournalFiles) : Prop where
  opened : t.closed = false
  bytes : t.log.file.bytes = log.file.bytes
  atEnd : t.log.file.AtEnd
  sync : t.log.sync = log.sync

/-- After `k` calls of the script of `s`, all of which took effect. -/
structure Reached (s : JournalFiles) (k : Nat) (t : JournalFiles) : Prop where
  calls : t.calls = s.calls.drop k
  quiet : s.Quiet k

section Script

variable {s t : JournalFiles} {k n : Nat}

theorem Quiet.mono
    (h : s.Quiet n)
    (hk : k ≤ n) :
    s.Quiet k := by
  intro c hc
  rw [← Nat.min_eq_left hk, ← List.take_take] at hc
  exact h c (List.mem_of_mem_take hc)

/-- The next call of the script is the last of the first `k + 1`. -/
theorem Reached.quiet_succ_iff
    (h : Reached s k t) :
    s.Quiet (k + 1) ↔ (t.calls.headD SystemCall.calm).fate = .done := by
  have hquiet : ∀ c ∈ s.calls.take k, c.fate = .done := h.quiet
  rw [h.calls, List.headD_eq_head?_getD, List.head?_drop, Quiet, List.take_add_one]
  cases hget : s.calls[k]? with
  | none =>
      simpa [SystemCall.calm] using hquiet
  | some c =>
      constructor
      · intro hall
        exact hall c (by simp)
      · intro hfate c' hc'
        rcases List.mem_append.mp hc' with hbefore | hlast
        · exact hquiet c' hbefore
        · simp only [Option.toList_some, List.mem_singleton] at hlast
          rw [hlast]
          exact hfate

theorem Reached.advance
    (h : Reached s k t)
    (hfate : (t.calls.headD SystemCall.calm).fate = .done) :
    Reached s (k + 1) t.advance :=
  ⟨by rw [JournalFiles.advance, h.calls, List.tail_drop], h.quiet_succ_iff.mpr hfate⟩

/-- A call of the script that does not take effect. -/
theorem Reached.not_quiet
    (h : Reached s k t)
    (hk : k < n)
    (hfate : (t.calls.headD SystemCall.calm).fate ≠ .done) :
    ¬ s.Quiet n :=
  fun hquiet => hfate (h.quiet_succ_iff.mp (hquiet.mono hk))

end Script

section Temporary

variable {s t : JournalFiles} {k n : Nat}

/-- A change of the temporary file alone. -/
def OnTemporary (f : JournalFiles → JournalFiles) : Prop :=
  ∀ t, ∃ temporary, f t = { t with temporary := temporary }

/-- After `k` calls the journal is still usable. -/
structure Working (s : JournalFiles) (k : Nat) (t : JournalFiles) : Prop where
  reached : Reached s k t
  usable : t.Usable s.log

/-- One of the first `n` calls failed, and the journal is still usable. -/
def FailsUsable (s : JournalFiles) (n : Nat) (t : JournalFiles) : Prop :=
  ¬ s.Quiet n ∧ t.Usable s.log

/-- The first `n` calls took effect, and the handle is closed. -/
def FailsClosed (s : JournalFiles) (n : Nat) (t : JournalFiles) : Prop :=
  s.Quiet n ∧ t.closed = true

theorem failsUsable_aboutJournal :
    AboutJournal (FailsUsable s n) :=
  fun _ _ _ h => ⟨h.1, h.2.opened, h.2.bytes, h.2.atEnd, h.2.sync⟩

theorem failsClosed_aboutJournal :
    AboutJournal (FailsClosed s n) :=
  fun _ _ _ h => h

theorem Usable.onTemporary
    {f : JournalFiles → JournalFiles} {log : Log}
    (h : t.Usable log)
    (hf : OnTemporary f) :
    (f t.advance).Usable log := by
  obtain ⟨temporary, heq⟩ := hf t.advance
  rw [heq]
  exact ⟨h.opened, h.bytes, h.atEnd, h.sync⟩

/-- A call on the temporary file leaves the journal usable, also if it fails. -/
theorem Working.step
    {context : GoString} {part : Nat → JournalFiles → JournalFiles}
    {whole : JournalFiles → JournalFiles}
    (h : Working s k t)
    (hk : k < n)
    (hpart : ∀ i, OnTemporary (part i))
    (hwhole : OnTemporary whole) :
    wp (call context part whole)
      (fun _ => Working s (k + 1)) (fun _ => FailsUsable s n) (fun _ => True) t := by
  refine wp_call_fate ?_ ?_ (fun _ => ⟨trivial, fun _ => trivial, trivial⟩)
  · intro hfate
    have hnext := h.reached.advance hfate
    refine ⟨⟨?_, hnext.quiet⟩, h.usable.onTemporary hwhole⟩
    obtain ⟨temporary, heq⟩ := hwhole t.advance
    rw [heq]
    exact hnext.calls
  · intro hfate err i
    exact ⟨h.reached.not_quiet hk hfate, h.usable.onTemporary (hpart i)⟩

/-- The same with a cleanup behind the call. -/
theorem Working.guarded
    {context : GoString} {part : Nat → JournalFiles → JournalFiles}
    {whole : JournalFiles → JournalFiles} {cleanup : CrashM GoError JournalFiles Unit}
    (h : Working s k t)
    (hk : k < n)
    (hcleanup : Preserves (FailsUsable s n) cleanup)
    (hpart : ∀ i, OnTemporary (part i))
    (hwhole : OnTemporary whole) :
    wp (orElse (call context part whole) cleanup)
      (fun _ => Working s (k + 1)) (fun _ => FailsUsable s n) (fun _ => True) t :=
  wp_orElse hcleanup (fun _ _ => trivial) (h.step hk hpart hwhole)

theorem onTemporary_id :
    OnTemporary id :=
  fun t => ⟨t.temporary, rfl⟩

theorem onTemporary_extend
    (data : Bytes) :
    OnTemporary (extend data) :=
  fun _ => ⟨_, rfl⟩

/-- Each record takes one call. -/
theorem Working.writeRecords
    {codec : Codec} {rs : List Record} {frames : List Bytes} {written : Nat}
    (hencodes : Encodes codec rs frames)
    (h : Working s k t)
    (hk : k + rs.length ≤ n) :
    wp (writeRecords codec rs written)
      (fun _ => Working s (k + rs.length)) (fun _ => FailsUsable s n)
      (fun _ => True) t := by
  induction hencodes generalizing k t written with
  | nil =>
      exact h
  | @cons record frame rs frames hencode _ ih =>
      rw [List.length_cons] at hk ⊢
      simp only [JournalFiles.writeRecords, hencode, wp_bind]
      refine wp_mono (h.guarded (by omega)
        (preserves_discardTemporary failsUsable_aboutJournal)
        (fun i => onTemporary_extend _) (onTemporary_extend frame)) ?_
        (fun _ _ h => h) (fun _ h => h)
      intro _ u hu
      refine wp_mono (ih hu (by omega)) ?_ (fun _ _ h => h) (fun _ h => h)
      intro _ v hv
      rwa [show k + (rs.length + 1) = k + 1 + rs.length by omega]

end Temporary

section Replay

variable {s : JournalFiles} {codec : Codec} {rs : List Record} {frames : List Bytes}

/-- The replay of an intact journal leaves the handle at the end of the file. -/
theorem working_replay
    (hencodes : Encodes codec rs frames)
    (hbytes : s.log.file.bytes = frames.flatten)
    (hopen : s.closed = false)
    (hquiet : s.Quiet 2) :
    wp (seekToStart >>= fun _ => readRecords codec)
      (fun records t => records = rs ∧ Working s 2 t)
      (fun _ _ => False) (fun _ => False) s := by
  have hstart : Reached s 0 s := ⟨rfl, hquiet.mono (Nat.zero_le 2)⟩
  have hseek := hstart.quiet_succ_iff.mp (hquiet.mono (by omega))
  have hsought := hstart.advance hseek
  have hread := hsought.quiet_succ_iff.mp hquiet
  have hreplay := replay_frames hencodes.isFrames
  simp only [wp_bind, seekToStart, wp_read, hopen, Bool.false_eq_true, if_false, atomically]
  refine wp_call_fate ?_ (fun hfate => absurd hseek hfate) (fun hfate => absurd hseek hfate)
  intro _
  have hfate : ((seek 0 s.advance).calls.headD SystemCall.calm).fate = .done := hread
  have hcontent : (seek 0 s.advance).log.file.bytes = frames.flatten := hbytes
  unfold wp readRecords
  simp only [hfate, hcontent, hreplay]
  refine ⟨trivial, ⟨(hsought.advance hread).calls, hquiet⟩, hopen, rfl, ?_, rfl⟩
  -- Replay has read the whole file, so that nothing is left in front of the end.
  refine File.atEnd_of_position ?_
  show max frames.flatten.length (min _ frames.flatten.length) = s.log.file.bytes.length
  rw [hbytes, Nat.max_eq_left (Nat.min_le_right _ _)]

end Replay

section Handle

variable {s t : JournalFiles} {n : Nat}

/-- The step that closes the handle: however it ends, the handle is closed. -/
theorem Working.closeJournal
    (h : Working s n t) :
    wp (orElse closeJournal removeTemporary)
      (fun _ => FailsClosed s n) (fun _ => FailsClosed s n) (fun _ => True) t := by
  have hclosed : FailsClosed s n { t.advance with closed := true } :=
    ⟨h.reached.quiet, rfl⟩
  refine wp_orElse (preserves_removeTemporary failsClosed_aboutJournal)
    (fun _ _ => trivial) ?_
  rw [JournalFiles.closeJournal]
  exact wp_call_fate (fun _ => hclosed) (fun _ _ _ => hclosed)
    (fun _ => ⟨trivial, fun _ => trivial, trivial⟩)

/-- A rename does not open the handle. -/
theorem FailsClosed.rename
    (h : FailsClosed s n t) :
    wp renameTemporary
      (fun _ => FailsClosed s n) (fun _ => FailsClosed s n) (fun _ => True) t := by
  rw [renameTemporary, atomically]
  refine wp_call_fate ?_ (fun _ _ _ => h) (fun _ => ⟨trivial, fun _ => trivial, trivial⟩)
  intro _
  rw [replaceJournal]
  split <;> exact h

/-- Only a reopen that takes effect opens the handle. -/
theorem FailsClosed.reopen
    (h : FailsClosed s n t) :
    wp reopenJournal
      (fun _ _ => True) (fun _ => FailsClosed s n) (fun _ => True) t := by
  rw [reopenJournal, atomically]
  exact wp_call_fate (fun _ => trivial) (fun _ _ _ => h)
    (fun _ => ⟨trivial, fun _ => trivial, trivial⟩)

end Handle

end JournalFiles

open JournalFiles in
/--
What a failed compaction leaves: the handle is usable if one of the calls in front of
the close failed, and closed otherwise.
-/
theorem compact_failure
    {codec : Codec} {rs : List Record} {frames : List Bytes}
    {order : List GoString} {s : JournalFiles}
    (hencodes : Encodes codec rs frames)
    (hbytes : s.log.file.bytes = frames.flatten)
    (hopen : s.closed = false)
    (hquiet : s.Quiet 2) :
    wp (compact codec order) (fun _ _ => True)
      (fun _ t =>
        FailsUsable s ((openRecords order (live rs)).length + 5) t ∨
        FailsClosed s ((openRecords order (live rs)).length + 5) t)
      (fun _ => True) s := by
  obtain ⟨compacted, hcompacted⟩ := hencodes.openRecords order
  have hreplay := working_replay hencodes hbytes hopen hquiet
  rw [wp_bind] at hreplay
  simp only [compact, wp_bind]
  refine wp_mono hreplay ?_ (fun _ _ h => h.elim) (fun _ h => h.elim)
  intro _ t hread
  refine wp_mono hread ?_ (fun _ _ h => h.elim) (fun _ h => h.elim)
  rintro records t ⟨rfl, ht⟩
  refine wp_mono (ht.step (by omega) (fun _ => onTemporary_id) (fun _ => ⟨_, rfl⟩)) ?_
    (fun _ _ h => Or.inl h) (fun _ h => h)
  intro _ t ht
  refine wp_mono (ht.writeRecords hcompacted (by omega)) ?_
    (fun _ _ h => Or.inl h) (fun _ h => h)
  intro _ t ht
  refine wp_mono (ht.guarded (by omega)
    (preserves_discardTemporary failsUsable_aboutJournal)
    (fun _ => onTemporary_id) onTemporary_id) ?_ (fun _ _ h => Or.inl h) (fun _ h => h)
  intro _ t ht
  refine wp_mono (ht.guarded (by omega)
    (preserves_removeTemporary failsUsable_aboutJournal)
    (fun _ => onTemporary_id) onTemporary_id) ?_ (fun _ _ h => Or.inl h) (fun _ h => h)
  intro _ t ht
  rw [show 2 + 1 + (openRecords order (live records)).length + 1 + 1 =
    (openRecords order (live records)).length + 5 by omega] at ht
  refine wp_mono ht.closeJournal ?_ (fun _ _ h => Or.inr h) (fun _ h => h)
  intro _ t ht
  refine wp_mono ht.rename ?_ (fun _ _ h => Or.inr h) (fun _ h => h)
  intro _ t ht
  exact wp_mono ht.reopen (fun _ _ _ => trivial) (fun _ _ h => Or.inr h) (fun _ h => h)

section Append

variable {codec : Codec} {e : Appending} {t : JournalFiles}

/-- A closed journal refuses a record that could be stored. -/
theorem append_closed
    {frame : Bytes}
    (hclosed : t.closed = true)
    (hencode : encode codec e.record = .ok frame) :
    t.append codec e =
      (.error (walError (goString "append")
        (goString "write " ++ t.path ++ goString ": file already closed")), t) := by
  simp only [JournalFiles.append, hencode, hclosed, if_true]

/-- A usable journal is extended by the record. -/
theorem JournalFiles.Usable.append
    {log : Log} {rs : List Record}
    (h : t.Usable log)
    (hframes : Frames codec rs log.file.bytes)
    (hthrough : e.GoesThrough codec log.sync)
    (path : GoString) (sync : Bool) :
    (t.append codec e).1 = .ok () ∧
    ∃ log',
      (openWith codec path sync OpenEnv.calm (t.append codec e).2.log.file.bytes).1 =
        .ok log' ∧
      log'.recovered = rs ++ [e.record] := by
  obtain ⟨⟨frame, hencode⟩, hwrite, hsync⟩ := hthrough
  have hsync' : (if t.log.sync then e.sync else none) = none := by
    rw [h.sync]
    split
    · exact hsync (by assumption)
    · rfl
  have happend : t.append codec e =
      (.ok (), { t with log := { t.log with
        file := t.log.file.write frame
        offset := t.log.offset + frame.length } }) := by
    simp only [JournalFiles.append, Moxy.append, hencode, h.opened, Bool.false_eq_true,
      if_false, hwrite, hsync']
  have hbytes : (t.log.file.write frame).bytes = log.file.bytes ++ frame := by
    rw [h.atEnd.bytes_write, h.bytes]
  have hopen := openWith_frames path sync
    (hframes.append (Frames.single (encode_isFrame hencode)))
  simp only [happend, hbytes, hopen]
  exact ⟨trivial, _, rfl, rfl⟩

end Append

/--
Let the journal hold the frames of any records, let the replay at the start of a
compaction go through, and let the compaction return an error.  A record is then
appended whose own calls succeed.  The append returns without an error, and the next
open finds the old records followed by the new one, exactly if one of the calls failed
that create, write, sync and close the temporary file.
-/
theorem failed_compact_leaves_journal_working
    {codec : Codec} {rs : List Record} {frames : List Bytes} {order : List GoString}
    {s t : JournalFiles} {err : GoError} {e : Appending}
    (hencodes : Encodes codec rs frames)
    (hbytes : s.log.file.bytes = frames.flatten)
    (hopen : s.closed = false)
    (hreplay : ∀ c ∈ s.calls.take 2, c.fate = .done)
    (hfailed : compact codec order s = .error err t)
    (hthrough : e.GoesThrough codec s.log.sync)
    (path : GoString) (sync : Bool) :
    ((t.append codec e).1 = .ok () ∧
      ∃ log',
        (openWith codec path sync OpenEnv.calm (t.append codec e).2.log.file.bytes).1 =
          .ok log' ∧
        ∀ id, (live log'.recovered).lookup id = (live (rs ++ [e.record])).lookup id) ↔
    ∃ c ∈ s.calls.take ((openRecords order (live rs)).length + 5), c.fate ≠ .done := by
  have hframes : Frames codec rs s.log.file.bytes := hbytes ▸ hencodes.isFrames
  rcases wp_of_error (compact_failure hencodes hbytes hopen hreplay) hfailed with
    ⟨hloud, husable⟩ | ⟨hquiet, hclosed⟩
  · obtain ⟨happend, log', hopen', hrecovered⟩ := husable.append hframes hthrough path sync
    refine iff_of_true ⟨happend, log', hopen', fun id => by rw [hrecovered]⟩ ?_
    simpa [JournalFiles.Quiet] using hloud
  · obtain ⟨frame, hencode⟩ := hthrough.1
    refine iff_of_false ?_ ?_
    · rw [append_closed hclosed hencode]
      rintro ⟨happend, _⟩
      cases happend
    · rintro ⟨c, hc, hfate⟩
      exact hfate (hquiet c hc)

/-- A new journal, and what the operating system will answer to its calls. -/
def newJournal (calls : List SystemCall) : JournalFiles :=
  ⟨goString "moxy.wal", ⟨⟨[], 0, false⟩, true, 0, []⟩, false, none, calls⟩

/-- One byte for the record that opens the lease `L`, and a codec that writes it so. -/
def briefText : Bytes :=
  [7]

def briefCodec : Codec :=
  Codec.only fetchOfL briefText (by decide) fetchOfL_textIDs

/-- A journal with the open lease `L`, and what its calls will be answered. -/
def heldJournal (calls : List SystemCall) : JournalFiles :=
  ⟨goString "moxy.wal", ⟨⟨frameOf briefText, 9, false⟩, true, 9, []⟩, false, none, calls⟩

/-- The device is full five bytes into the record of the open lease. -/
def fullDevice : List SystemCall :=
  [⟨.done, 9⟩, ⟨.done, 9⟩, ⟨.done, 0⟩, ⟨.fails (goString "no space left on device"), 5⟩]

/-- The open lease cannot be written to the temporary file; the journal goes on. -/
theorem failed_compact_leaves_journal_working_write :
    ∃ err t log',
      compact briefCodec [] (heldJournal fullDevice) = .error err t ∧
      (t.append briefCodec ⟨fetchOfL, none, none⟩).1 = .ok () ∧
      (openWith briefCodec (goString "moxy.wal") true OpenEnv.calm
        (t.append briefCodec ⟨fetchOfL, none, none⟩).2.log.file.bytes).1 = .ok log' ∧
      ∀ id, (live log'.recovered).lookup id = (live [fetchOfL, fetchOfL]).lookup id := by
  have hfailed :
      compact briefCodec [] (heldJournal fullDevice) =
        .error (walError (goString "write compacted record")
          (goString "no space left on device")) (heldJournal []) := by
    decide +kernel
  have hencode : encode briefCodec fetchOfL = .ok (frameOf briefText) := by decide +kernel
  have hencodes : Encodes briefCodec [fetchOfL] [frameOf briefText] := .cons hencode .nil
  have hworks := failed_compact_leaves_journal_working
    (e := ⟨fetchOfL, none, none⟩) hencodes (List.append_nil _).symm rfl
    (by simp [heldJournal, fullDevice]) hfailed ⟨⟨_, hencode⟩, rfl, fun _ => rfl⟩
    (goString "moxy.wal") true
  obtain ⟨happend, log', hopen, hlive⟩ :=
    hworks.mpr ⟨⟨.fails (goString "no space left on device"), 5⟩, by decide +kernel, nofun⟩
  exact ⟨_, _, log', hfailed, happend, hopen, hlive⟩

/--
The rename fails and the handle stays closed: an append whose write and sync would
succeed returns an error.
-/
theorem failed_rename_closes_journal :
    ∃ t,
      compact fetchOfLCodec []
          (newJournal (List.replicate 6 ⟨.done, 0⟩ ++
            [⟨.fails (goString "permission denied"), 0⟩])) =
        .error (walError (goString "replace journal") (goString "permission denied")) t ∧
      (⟨fetchOfL, none, none⟩ : Appending).GoesThrough fetchOfLCodec t.log.sync ∧
      t.append fetchOfLCodec ⟨fetchOfL, none, none⟩ =
        (.error (walError (goString "append")
          (goString "write moxy.wal: file already closed")), t) := by
  refine ⟨{ newJournal [] with closed := true, temporary := some [] },
    by decide +kernel, ⟨⟨_, encode_fetchOfL⟩, rfl, fun _ => rfl⟩, ?_⟩
  rw [append_closed (e := ⟨fetchOfL, none, none⟩) rfl encode_fetchOfL]
  decide +kernel

end Moxy
