import Moxy.WalFrames
import Moxy.Lib.Machine

/-!
# Moxy: appending to the journal file

The file is a byte string with a write position.  `openWith` replays it, cuts the
torn tail and stands at the end; `append` writes one frame and possibly syncs it.
Each call into the operating system may fail, and what it does is part of the
input: a write may accept only some bytes of the frame, and a sync may fail after
the whole frame was accepted.

A failed write moves the position and nothing repairs it.  Hence a later record
lands behind the partial frame, where no replay reaches it, although its append
returned without an error.  As long as no append succeeds behind a partial frame,
the file keeps starting with intact frames that hold every record whose append
returned (`appends_keep`).
-/

namespace Moxy

open Lib

/-- An open file: its content, the position, and whether writes go to the end. -/
structure File where
  bytes : Bytes
  position : Nat
  append : Bool
deriving DecidableEq, Repr

namespace File

/-- Where the next write lands. -/
def target (f : File) : Nat :=
  if f.append then f.bytes.length else f.position

/-- Write at the target; a gap in front of it reads as zeros. -/
def write (data : Bytes) (f : File) : File :=
  ⟨f.bytes.take f.target ++ List.replicate (f.target - f.bytes.length) 0 ++ data ++
      f.bytes.drop (f.target + data.length),
    f.target + data.length, f.append⟩

/-- The next write extends the file. -/
def AtEnd (f : File) : Prop :=
  f.target = f.bytes.length

theorem atEnd_of_position
    {f : File}
    (h : f.position = f.bytes.length) :
    f.AtEnd := by
  rw [AtEnd, target, h, ite_self]

theorem AtEnd.bytes_write
    {f : File}
    (h : f.AtEnd)
    (data : Bytes) :
    (f.write data).bytes = f.bytes ++ data := by
  simp only [write, show f.target = f.bytes.length from h]
  simp

theorem AtEnd.write
    {f : File}
    (h : f.AtEnd)
    (data : Bytes) :
    (f.write data).AtEnd := by
  have hbytes := h.bytes_write data
  unfold AtEnd target at *
  rw [hbytes, List.length_append]
  simp only [File.write, target]
  split <;> simp_all

end File

/-- An open journal. -/
structure Log where
  file : File
  sync : Bool
  offset : Nat
  recovered : List Record
deriving DecidableEq

/--
What the operating system answers while a journal is opened.  A failing step
carries the text of its error; a failing read also says after how many bytes.
-/
structure OpenEnv where
  createDirectory : Option GoString
  openFile : Option GoString
  seekToStart : Option GoString
  read : Option (Nat × GoString)
  truncate : Option GoString
  seekToTail : Option GoString
deriving DecidableEq, Repr

/-- Every step succeeds. -/
def OpenEnv.calm : OpenEnv :=
  ⟨none, none, none, none, none, none⟩

/-- The bytes that reading delivers before it ends. -/
def OpenEnv.delivered (env : OpenEnv) (bytes : Bytes) : Bytes :=
  match env.read with
  | none => bytes
  | some (n, _) => bytes.take n

/-- Open the journal that holds `bytes`; also the content that the file has then. -/
def openWith (codec : Codec) (path : GoString) (sync : Bool) (env : OpenEnv)
    (bytes : Bytes) : Except GoError Log × Bytes :=
  match env.createDirectory with
  | some m => (.error (walError (goString "create directory") m), bytes)
  | none =>
  match env.openFile with
  | some m => (.error (walError (goString "open " ++ path) m), bytes)
  | none =>
  match env.seekToStart with
  | some m => (.error (walError (goString "seek to start") m), bytes)
  | none =>
  match replay codec (env.read.map Prod.snd) (env.delivered bytes) with
  | .error err => (.error err, bytes)
  | .ok (records, good) =>
  match env.truncate with
  | some m => (.error (walError (goString "truncate torn tail") m), bytes)
  | none =>
  match env.seekToTail with
  | some m => (.error (walError (goString "seek to tail") m), bytes.take good)
  | none => (.ok ⟨⟨bytes.take good, good, false⟩, sync, good, records⟩, bytes.take good)

/--
One append, with what the operating system answers: a write that accepts only
the first bytes of the frame, and a sync that fails.
-/
structure Appending where
  record : Record
  write : Option (Nat × GoString)
  sync : Option GoString
deriving DecidableEq, Repr

/-- Write one record and, when configured to, sync it. -/
def append (codec : Codec) (e : Appending) (log : Log) : Except GoError Unit × Log :=
  match encode codec e.record with
  | .error err => (.error err, log)
  | .ok frame =>
  match e.write with
  | some (n, m) =>
      (.error (walError (goString "append") m),
        { log with file := log.file.write (frame.take n) })
  | none =>
  match (if log.sync then e.sync else none) with
  | some m =>
      (.error (walError (goString "sync") m),
        { log with file := log.file.write frame })
  | none =>
      (.ok (), { log with
        file := log.file.write frame
        offset := log.offset + frame.length })

/-- A write that fails has accepted a proper prefix of the frame. -/
def Appending.Proper (codec : Codec) (e : Appending) : Prop :=
  ∀ n m frame, e.write = some (n, m) → encode codec e.record = .ok frame →
    n < frame.length

/-- A journal to which records are appended. -/
def appends (codec : Codec) : Machine Log Appending (Except GoError Unit) where
  step := append codec
  guard := fun _ e => e.Proper codec

/-- The records whose append returned without an error, in order. -/
def acked : List (Appending × Except GoError Unit) → List Record
  | [] => []
  | (e, .ok _) :: es => e.record :: acked es
  | (_, .error _) :: es => acked es

/-- The append leaves a partial frame in the file. -/
def Appending.Tears (codec : Codec) (e : Appending) : Prop :=
  ∃ n m frame, e.write = some (n, m) ∧ 0 < n ∧ encode codec e.record = .ok frame

/-- The record is accepted, and the operating system lets the append through. -/
def Appending.GoesThrough (codec : Codec) (sync : Bool) (e : Appending) : Prop :=
  (∃ frame, encode codec e.record = .ok frame) ∧
  e.write = none ∧
  (sync = true → e.sync = none)

/-- No append goes through behind a partial frame. -/
def TearsLast (codec : Codec) (sync : Bool) (es : List Appending) : Prop :=
  es.Pairwise fun e e' => e.Tears codec → ¬ e'.GoesThrough codec sync

/-- The journal stands at the end of its last intact record. -/
structure Log.Positioned (codec : Codec) (records : List Record) (log : Log) : Prop where
  frames : Frames codec records log.file.bytes
  atEnd : log.file.AtEnd

section Append

variable {codec : Codec}

/-- What one append can do to the file, and when it returns. -/
theorem append_cases
    (codec : Codec) (e : Appending) (log : Log) :
    (∃ err, append codec e log = (.error err, log)) ∨
    (∃ err data,
      append codec e log =
        (.error err, { log with file := log.file.write data }) ∧
      (e.Tears codec ∨ ∃ rs, Frames codec rs data)) ∨
    (∃ frame,
      append codec e log =
        (.ok (), { log with
          file := log.file.write frame
          offset := log.offset + frame.length }) ∧
      IsFrame codec frame e.record ∧
      e.GoesThrough codec log.sync) := by
  cases hencode : encode codec e.record with
  | error err =>
      exact Or.inl ⟨err, by simp [append, hencode]⟩
  | ok frame =>
      have hframe := encode_isFrame hencode
      cases hwrite : e.write with
      | some short =>
          obtain ⟨n, m⟩ := short
          refine Or.inr (Or.inl ⟨_, frame.take n, by simp [append, hencode, hwrite]; rfl, ?_⟩)
          -- A write that accepted nothing leaves no partial frame.
          rcases Nat.eq_zero_or_pos n with rfl | hn
          · exact Or.inr ⟨[], Frames.nil⟩
          · exact Or.inl ⟨n, m, frame, hwrite, hn, hencode⟩
      | none =>
          cases hsync : (if log.sync then e.sync else none) with
          | some m =>
              exact Or.inr (Or.inl ⟨_, frame,
                by simp [append, hencode, hwrite, hsync]; rfl,
                Or.inr ⟨_, Frames.single hframe⟩⟩)
          | none =>
              refine Or.inr (Or.inr ⟨frame, by simp [append, hencode, hwrite, hsync],
                hframe, ⟨frame, hencode⟩, hwrite, fun h => ?_⟩)
              simpa [h] using hsync

theorem acked_append
    (es fs : List (Appending × Except GoError Unit)) :
    acked (es ++ fs) = acked es ++ acked fs := by
  induction es with
  | nil =>
      rfl
  | cons head es ih =>
      obtain ⟨e, reply⟩ := head
      cases reply with
      | ok _ =>
          simpa [acked] using ih
      | error _ =>
          simpa [acked] using ih

/--
After the appends `es`, the file starts with intact frames that hold all returned
records; other bytes follow them only if an append has left a partial frame.
-/
structure Log.Keeps (codec : Codec) (records : List Record) (sync : Bool)
    (es : List (Appending × Except GoError Unit)) (log : Log) : Prop where
  sync_eq : log.sync = sync
  atEnd : log.file.AtEnd
  content :
    ∃ rs b tail,
      log.file.bytes = b ++ tail ∧
      Frames codec rs b ∧
      (records ++ acked es).Sublist rs ∧
      (tail = [] ∨ ∃ e ∈ es.map Prod.fst, e.Tears codec)

/-- One append keeps the returned records, unless it lands behind a partial frame. -/
theorem Log.Keeps.append
    {records : List Record} {sync : Bool}
    {es : List (Appending × Except GoError Unit)} {log : Log}
    (h : log.Keeps codec records sync es)
    (e : Appending)
    (htears : ∀ e' ∈ es.map Prod.fst, e'.Tears codec → ¬ e.GoesThrough codec sync) :
    (append codec e log).2.Keeps codec records sync
      (es ++ [(e, (append codec e log).1)]) := by
  obtain ⟨hsync, hend, rs, b, tail, hbytes, hframes, hsub, htail⟩ := h
  have hlater :
      ∀ reply, (∃ e' ∈ es.map Prod.fst, e'.Tears codec) →
        ∃ e' ∈ (es ++ [(e, reply)]).map Prod.fst, e'.Tears codec := by
    rintro reply ⟨e', he', ht⟩
    exact ⟨e', by rw [List.map_append]; exact List.mem_append_left _ he', ht⟩
  rcases append_cases codec e log with
    ⟨err, heq⟩ | ⟨err, data, heq, hdata⟩ | ⟨frame, heq, hframe, hthrough⟩
  · rw [heq]
    refine ⟨hsync, hend, rs, b, tail, hbytes, hframes, ?_, htail.imp_right (hlater _)⟩
    rwa [acked_append, acked, acked, List.append_nil]
  · rw [heq]
    refine ⟨hsync, hend.write data, ?_⟩
    rw [acked_append, acked, acked, List.append_nil]
    simp only [hend.bytes_write, hbytes]
    rcases hdata with ht | ⟨rs', hrs'⟩
    · exact ⟨rs, b, tail ++ data, by simp, hframes, hsub, Or.inr ⟨e, by simp, ht⟩⟩
    · rcases htail with rfl | ht
      · exact ⟨rs ++ rs', b ++ data, [], by simp, hframes.append hrs',
          hsub.trans (List.sublist_append_left _ _), Or.inl rfl⟩
      · exact ⟨rs, b, tail ++ data, by simp, hframes, hsub, Or.inr (hlater _ ht)⟩
  · rw [heq]
    refine ⟨hsync, hend.write frame, ?_⟩
    rw [acked_append, acked, acked]
    simp only [hend.bytes_write, hbytes]
    rcases htail with rfl | ⟨e', he', ht⟩
    · refine ⟨rs ++ [e.record], b ++ frame, [], by simp,
        hframes.append (Frames.single hframe), ?_, Or.inl rfl⟩
      rw [← List.append_assoc]
      exact hsub.append (List.Sublist.refl _)
    · exact absurd (hsync ▸ hthrough) (htears e' he' ht)

/-- A whole sequence of appends keeps the returned records. -/
theorem appends_keep
    {records : List Record} {log t : Log}
    {es : List (Appending × Except GoError Unit)}
    (hlog : log.Positioned codec records)
    (hrun : (appends codec).Run log es t)
    (htears : TearsLast codec log.sync (es.map Prod.fst)) :
    t.Keeps codec records log.sync es := by
  induction hrun with
  | refl =>
      exact ⟨rfl, hlog.atEnd, records, log.file.bytes, [], by simp, hlog.frames,
        by simp [acked], Or.inl rfl⟩
  | @next t es e hrun hguard ih =>
      rw [TearsLast, List.map_append, List.pairwise_append] at htears
      obtain ⟨hbefore, _, hlast⟩ := htears
      exact (ih hbefore).append e
        (fun e' he' ht => hlast e' he' e (by simp) ht)

end Append

section Open

variable {codec : Codec}

/-- A journal that was opened stands at the end of its last intact record. -/
theorem openWith_positioned
    {path : GoString} {sync : Bool} {env : OpenEnv} {bytes : Bytes} {log : Log}
    (h : (openWith codec path sync env bytes).1 = .ok log) :
    log.Positioned codec log.recovered ∧ log.sync = sync := by
  unfold openWith at h
  repeat' split at h
  all_goals first | (cases h; done) | skip
  rename_i records good hreplay _ _ _ _
  cases h
  obtain ⟨b, tail, hbytes, hframes, _, rfl⟩ := replay_sound hreplay
  have htake : bytes.take b.length = b := by
    unfold OpenEnv.delivered at hbytes
    split at hbytes
    · rw [hbytes, List.take_left]
    · rename_i n _ _
      have hlen : b.length ≤ n := by
        have := congrArg List.length hbytes
        simp only [List.length_append, List.length_take] at this
        omega
      rw [← Nat.min_eq_left hlen, ← List.take_take, hbytes, List.take_left]
  refine ⟨⟨?_, ?_⟩, rfl⟩
  · simpa only [htake] using hframes
  · simp [File.AtEnd, File.target, htake]

theorem openWith_calm
    (path : GoString) (sync : Bool) {bytes : Bytes} {records : List Record} {good : Nat}
    (h : replay codec none bytes = .ok (records, good)) :
    openWith codec path sync OpenEnv.calm bytes =
      (.ok ⟨⟨bytes.take good, good, false⟩, sync, good, records⟩,
        bytes.take good) := by
  simp [openWith, OpenEnv.calm, OpenEnv.delivered, h]

end Open

section Lost

/--
A new journal, one append of which the file accepts a single byte, and a second
append that returns without an error: the next open recovers nothing.
-/
theorem append_lost_behind_first_byte
    {codec : Codec} {record : Record} {frame : Bytes}
    (hencode : encode codec record = .ok frame)
    (path message : GoString) (sync : Bool) :
    ∃ t log',
      (appends codec).Run ⟨⟨[], 0, false⟩, sync, 0, []⟩
        [(⟨record, some (1, message), none⟩,
            .error (walError (goString "append") message)),
          (⟨record, none, none⟩, .ok ())] t ∧
      (openWith codec path sync OpenEnv.calm t.file.bytes).1 = .ok log' ∧
      log'.recovered = [] := by
  obtain ⟨payload, hframe, _, hpos, _⟩ := encode_ok hencode
  have hlong : 1 < frame.length := by
    simp [hframe, frameOf]
    omega
  have hadmits :
      (appends codec).Admits ⟨⟨[], 0, false⟩, sync, 0, []⟩
        [⟨record, some (1, message), none⟩, ⟨record, none, none⟩] := by
    refine ⟨?_, ?_, trivial⟩
    · rintro n m frame' hwrite hencode'
      cases hwrite
      rw [hencode] at hencode'
      cases hencode'
      exact hlong
    · rintro n m frame' hwrite
      cases hwrite
  have hrun := Machine.run_of_admits _ _ hadmits
  have hbytes :
      ((appends codec).final ⟨⟨[], 0, false⟩, sync, 0, []⟩
        [⟨record, some (1, message), none⟩, ⟨record, none, none⟩]).file.bytes =
        frame.take 1 ++ frame := by
    have hfirst : (⟨[], 0, false⟩ : File).AtEnd := rfl
    simp only [Machine.final, appends, append, hencode, ite_self]
    rw [(hfirst.write _).bytes_write, hfirst.bytes_write, List.nil_append]
  have hreplay : replay codec none (frame.take 1 ++ frame) = .ok ([], 0) := by
    rw [replay, replayLoop, readFrame_behind_first_byte hencode]
  have htrace :
      (appends codec).trace ⟨⟨[], 0, false⟩, sync, 0, []⟩
        [⟨record, some (1, message), none⟩, ⟨record, none, none⟩] =
        [(⟨record, some (1, message), none⟩,
            .error (walError (goString "append") message)),
          (⟨record, none, none⟩, .ok ())] := by
    simp [Machine.trace, appends, append, hencode]
  rw [htrace] at hrun
  exact ⟨_, _, hrun, by rw [hbytes, openWith_calm path sync hreplay], rfl⟩

/-- A codec that knows the text of one record. -/
def Codec.only (record : Record) (payload : Bytes) (h : payload ≠ []) (htext : record.TextIDs) :
    Codec where
  marshal r := if r = record then .ok payload else .error (.text [])
  unmarshal p := if p = payload then some record else none
  marshal_text := by
    intro r p hm
    by_cases hr : r = record
    · rw [hr]
      exact htext
    · rw [if_neg hr] at hm
      cases hm
  unmarshal_marshal := by
    intro r p _ hm
    split at hm
    · cases hm
      simp_all
    · cases hm
  marshal_ne_nil := by
    intro r p hm
    split at hm
    · cases hm
      exact h
    · cases hm

theorem Codec.only_marshal
    (record : Record) (payload : Bytes)
    (h : payload ≠ [])
    (htext : record.TextIDs) :
    (Codec.only record payload h htext).marshal record = .ok payload :=
  if_pos rfl

/-- The record that closes the lease `L`, and its text. -/
def ackOfL : Record :=
  closeRecord .ack (goString "L")

def ackOfLText : Bytes :=
  goString ("\x7b\"op\":\"ack\",\"lease_id\":\"L\",\"task\":\x7b\"id\":\"\"," ++
    "\"payload\":null,\"attempts\":0\x7d,\"created_at\":\"0001-01-01T00:00:00Z\"," ++
    "\"expires_at\":\"0001-01-01T00:00:00Z\"\x7d")

def ackOfLCodec : Codec :=
  Codec.only ackOfL ackOfLText (by decide +kernel) ⟨⟨"L", rfl⟩, "", rfl⟩

theorem encode_ackOfL :
    encode ackOfLCodec ackOfL = .ok (frameOf ackOfLText) := by
  have hsize : ¬ maxRecordBytes < ackOfLText.length := by decide +kernel
  have hm : ackOfLCodec.marshal ackOfL = .ok ackOfLText := Codec.only_marshal _ _ _ _
  simp only [encode, hm, if_neg hsize]

end Lost

/--
Take any journal that stands at the end of its last intact record, and any
sequence of appends to it in which none goes through behind a partial frame.
Then the next open succeeds, and the records it recovers contain, in order, the
earlier ones and every record whose append returned without an error.
-/
theorem acked_appends_recovered
    {codec : Codec} {records : List Record} {log t : Log}
    {es : List (Appending × Except GoError Unit)}
    (path : GoString) (sync : Bool)
    (hlog : log.Positioned codec records)
    (hrun : (appends codec).Run log es t)
    (htears : TearsLast codec log.sync (es.map Prod.fst)) :
    ∃ log',
      (openWith codec path sync OpenEnv.calm t.file.bytes).1 = .ok log' ∧
      (records ++ acked es).Sublist log'.recovered := by
  obtain ⟨rs, b, tail, hbytes, hframes, hsub, _⟩ :=
    (appends_keep hlog hrun htears).content
  obtain ⟨ss, good, hreplay⟩ := replay_frames_append hframes tail
  rw [hbytes, openWith_calm path sync hreplay]
  exact ⟨_, rfl, hsub.trans (List.sublist_append_left _ _)⟩

/-- An append behind a single accepted byte returns, and its record is lost. -/
theorem acked_append_lost_behind_short_write :
    ∃ log t log' es,
      (openWith ackOfLCodec (goString "moxy.wal") true OpenEnv.calm []).1 = .ok log ∧
      (appends ackOfLCodec).Run log es t ∧
      (openWith ackOfLCodec (goString "moxy.wal") true OpenEnv.calm t.file.bytes).1 =
        .ok log' ∧
      acked es = [ackOfL] ∧
      ¬ (acked es).Sublist log'.recovered := by
  obtain ⟨t, log', hrun, hopen, hnone⟩ :=
    append_lost_behind_first_byte encode_ackOfL (goString "moxy.wal")
      (goString "no space left on device") true
  refine ⟨_, t, log', _, rfl, hrun, hopen, rfl, ?_⟩
  rw [hnone]
  simp [acked]

/-- A write that accepts nothing fails, and the record is appended again. -/
theorem acked_appends_recovered_retried :
    ∃ log',
      (openWith ackOfLCodec (goString "moxy.wal") true OpenEnv.calm
        ((appends ackOfLCodec).final ⟨⟨[], 0, false⟩, true, 0, []⟩
          [⟨ackOfL, some (0, []), none⟩, ⟨ackOfL, none, none⟩]).file.bytes).1 =
        .ok log' ∧
      [ackOfL].Sublist log'.recovered := by
  have hadmits :
      (appends ackOfLCodec).Admits ⟨⟨[], 0, false⟩, true, 0, []⟩
        [⟨ackOfL, some (0, []), none⟩, ⟨ackOfL, none, none⟩] := by
    refine ⟨?_, ?_, trivial⟩
    · rintro n m frame hwrite hencode
      cases hwrite
      exact (encode_isFrame hencode).1
    · rintro n m frame hwrite
      cases hwrite
  have hrun := Machine.run_of_admits _ _ hadmits
  have hacked :
      acked ((appends ackOfLCodec).trace ⟨⟨[], 0, false⟩, true, 0, []⟩
        [⟨ackOfL, some (0, []), none⟩, ⟨ackOfL, none, none⟩]) = [ackOfL] := by
    simp [Machine.trace, appends, append, encode_ackOfL, acked]
  obtain ⟨log', hopen, hsub⟩ :=
    acked_appends_recovered (goString "moxy.wal") true
      (show (⟨⟨[], 0, false⟩, true, 0, []⟩ : Log).Positioned ackOfLCodec [] from
        ⟨Frames.nil, rfl⟩)
      hrun (by simp [TearsLast, Machine.trace, Appending.Tears])
  rw [List.nil_append, hacked] at hsub
  exact ⟨log', hopen, hsub⟩

end Moxy
