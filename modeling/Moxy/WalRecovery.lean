import Moxy.WalAppend
import Mathlib.Data.List.Forall2

/-!
# Moxy: recovery of a journal from any file

Frames are prefix-free: no proper prefix of an intact frame can be read
(`Torn.stops`).  So a cut through a journal leaves the frames in front of the
cut and a tail at which replay stops, wherever the cut falls.

Conversely replay splits any byte string into intact frames and a tail at which
it stops.  Opening a file keeps the frames and drops the tail, after which the
file is a journal like any other.
-/

namespace Moxy

open Lib

/-- `encode` turns each of the records into the frame at the same place. -/
def Encodes (codec : Codec) (rs : List Record) (frames : List Bytes) : Prop :=
  List.Forall₂ (fun record frame => encode codec record = .ok frame) rs frames

section Torn

variable {codec : Codec} {rs : List Record} {frames : List Bytes}

theorem Encodes.isFrames
    (h : Encodes codec rs frames) :
    Frames codec rs frames.flatten := by
  induction h with
  | nil =>
      exact Frames.nil
  | cons hencode _ ih =>
      rw [List.flatten_cons]
      exact Frames.cons (encode_isFrame hencode) ih

theorem Encodes.take
    (h : Encodes codec rs frames) (k : Nat) :
    Encodes codec (rs.take k) (frames.take k) :=
  List.forall₂_take k h

/-- What a cut leaves of a frame: nothing, or a proper prefix of it. -/
def Torn (codec : Codec) (torn : Bytes) : Prop :=
  torn = [] ∨
  ∃ record missing, missing ≠ [] ∧ IsFrame codec (torn ++ missing) record

/-- No proper prefix of an intact frame can be read. -/
theorem Torn.stops
    {torn : Bytes}
    (h : Torn codec torn) :
    readFrame codec none torn = .ok none := by
  rcases h with rfl | ⟨record, missing, hmissing, hframe⟩
  · rfl
  · obtain ⟨found, hfound⟩ := @readFrame_ok codec torn
    rcases found with _ | ⟨record', rest, size⟩
    · exact hfound
    · -- What is read off the prefix would be read off the whole frame as well.
      obtain ⟨frame, rfl, rfl, hframe'⟩ := readFrame_some hfound
      have hwhole := hframe.2 none []
      rw [List.append_nil, List.append_assoc, hframe'.2 none (rest ++ missing)] at hwhole
      simp only [Except.ok.injEq, Option.some.injEq, Prod.mk.injEq,
        List.append_eq_nil_iff] at hwhole
      exact absurd hwhole.2.1.2 hmissing

/-- If the device fails in front of the rest of a frame, the reader reports it. -/
theorem Torn.fails
    {torn : Bytes}
    (h : Torn codec torn) (message : GoString) :
    ∃ err, readFrame codec (some message) torn = .error err := by
  rcases h with rfl | ⟨record, missing, hmissing, hframe⟩
  · exact ⟨_, rfl⟩
  · have hwhole := hframe.2 none []
    rw [List.append_nil] at hwhole
    obtain ⟨_, hplausible, hsize⟩ := readFrame_header hwhole
    have hmissing' := List.length_pos_iff.mpr hmissing
    rw [List.length_append] at hsize
    by_cases hshort : torn.length < headerSize
    · exact ⟨_, by rw [readFrame, if_pos hshort]; rfl⟩
    · have hword : uint32 (torn ++ missing) = uint32 torn :=
        uint32_append (by unfold headerSize at hshort; omega) missing
      rw [hword] at hplausible hsize
      refine ⟨walError (goString "read payload") message, ?_⟩
      simp only [readFrame, if_neg hshort, if_neg hplausible]
      rw [if_pos (by rw [List.length_drop]; omega)]
      rfl

/-- Replay returns the intact frames in front of a tail at which it stops. -/
theorem replay_stops
    {b tail : Bytes}
    (h : Frames codec rs b)
    (htail : readFrame codec none tail = .ok none) :
    replay codec none (b ++ tail) = .ok (rs, b.length) := by
  obtain ⟨fuel, hfuel, heq⟩ :=
    @replayLoop_frames codec none _ _ h tail _ [] 0 (Nat.lt_succ_self _)
  cases fuel with
  | zero =>
      omega
  | succ fuel =>
      rw [replay, heq, replayLoop, htail]
      simp

/-- Replay passes on an error that the reader reports behind the intact frames. -/
theorem replay_fails
    {failure : Option GoString} {b tail : Bytes} {err : GoError}
    (h : Frames codec rs b)
    (htail : readFrame codec failure tail = .error err) :
    replay codec failure (b ++ tail) = .error err := by
  obtain ⟨fuel, hfuel, heq⟩ :=
    @replayLoop_frames codec failure _ _ h tail _ [] 0 (Nat.lt_succ_self _)
  cases fuel with
  | zero =>
      omega
  | succ fuel =>
      rw [replay, heq, replayLoop, htail]

theorem replay_frames
    {b : Bytes}
    (h : Frames codec rs b) :
    replay codec none b = .ok (rs, b.length) := by
  have hstop := replay_stops h (Torn.stops (Or.inl rfl))
  rwa [List.append_nil] at hstop

/-- A cut leaves the frames that fit in front of it, and a torn one. -/
theorem Encodes.cut
    (h : Encodes codec rs frames) :
    ∀ n ≤ frames.flatten.length,
      ∃ k ≤ rs.length, ∃ torn,
        frames.flatten.take n = (frames.take k).flatten ++ torn ∧
        Torn codec torn ∧
        (frames.take k).flatten.length ≤ n ∧
        ∀ j ≤ rs.length, (frames.take j).flatten.length ≤ n → j ≤ k := by
  induction h with
  | nil =>
      intro n _
      exact ⟨0, Nat.le_refl _, [], by simp, Or.inl rfl, by simp, fun j hj _ => hj⟩
  | @cons record frame rs frames hencode hrest ih =>
      intro n hn
      rw [List.flatten_cons, List.length_append] at hn
      by_cases hfits : frame.length ≤ n
      · obtain ⟨k, hk, torn, htake, htorn, hsize, hmax⟩ :=
          ih (n - frame.length) (by omega)
        refine ⟨k + 1, by simpa using hk, torn, ?_, htorn, ?_, ?_⟩
        · rw [List.flatten_cons, List.take_append, List.take_of_length_le hfits, htake,
            List.take_succ_cons, List.flatten_cons, List.append_assoc]
        · rw [List.take_succ_cons, List.flatten_cons, List.length_append]
          omega
        · intro j hj hless
          cases j with
          | zero =>
              omega
          | succ j =>
              rw [List.take_succ_cons, List.flatten_cons, List.length_append] at hless
              have hj' := hmax j (by simpa using hj) (by omega)
              omega
      · refine ⟨0, Nat.zero_le _, frame.take n, ?_, ?_, by simp, ?_⟩
        · rw [List.flatten_cons, List.take_append_of_le_length (by omega)]
          rfl
        · have hmissing : frame.drop n ≠ [] := by
            rw [ne_eq, List.drop_eq_nil_iff]
            omega
          have hframe := encode_isFrame hencode
          rw [← List.take_append_drop n frame] at hframe
          exact Or.inr ⟨record, frame.drop n, hmissing, hframe⟩
        · intro j _ hless
          cases j with
          | zero =>
              omega
          | succ j =>
              rw [List.take_succ_cons, List.flatten_cons, List.length_append] at hless
              omega

/-- A payload of the largest size is accepted. -/
theorem encode_of_marshal
    {record : Record} {payload : Bytes}
    (hm : codec.marshal record = .ok payload)
    (hsize : payload.length ≤ maxRecordBytes) :
    encode codec record = .ok (frameOf payload) := by
  simp only [encode, hm]
  rw [if_neg (by omega)]

end Torn

/--
Replay of a journal that is cut anywhere returns the longest prefix of the records
whose frames lie in front of the cut, and the size of these frames.  In particular
a whole journal is read back, and a record with a payload of the largest size is
one that `encode` accepts and replay reads.
-/
theorem torn_journal_replays_prefix
    {codec : Codec} {rs : List Record} {frames : List Bytes}
    (h : Encodes codec rs frames) :
    (∀ n ≤ frames.flatten.length,
      ∃ k ≤ rs.length,
        (frames.take k).flatten.length ≤ n ∧
        (∀ j ≤ rs.length, (frames.take j).flatten.length ≤ n → j ≤ k) ∧
        replay codec none (frames.flatten.take n) =
          .ok (rs.take k, (frames.take k).flatten.length)) ∧
    replay codec none frames.flatten = .ok (rs, frames.flatten.length) ∧
    (∀ record payload,
      codec.marshal record = .ok payload →
      payload.length = maxRecordBytes →
      ∃ frame,
        encode codec record = .ok frame ∧
        replay codec none frame = .ok ([record], frame.length)) := by
  refine ⟨?_, replay_frames h.isFrames, ?_⟩
  · intro n hn
    obtain ⟨k, hk, torn, htake, htorn, hsize, hmax⟩ := h.cut n hn
    refine ⟨k, hk, hsize, hmax, ?_⟩
    rw [htake]
    exact replay_stops (h.take k).isFrames htorn.stops
  · intro record payload hm hsize
    have hencode := encode_of_marshal hm (Nat.le_of_eq hsize)
    exact ⟨_, hencode, replay_frames (Frames.single (encode_isFrame hencode))⟩

theorem encodes_ackOfL :
    Encodes ackOfLCodec [ackOfL, ackOfL] [frameOf ackOfLText, frameOf ackOfLText] :=
  List.Forall₂.cons encode_ackOfL (List.Forall₂.cons encode_ackOfL List.Forall₂.nil)

/-- A journal of two records that lost its last byte: one record is left. -/
theorem torn_journal_replays_prefix_two :
    ∃ k,
      (∀ j ≤ 2, j * (frameOf ackOfLText).length ≤
        2 * (frameOf ackOfLText).length - 1 → j ≤ k) ∧
      replay ackOfLCodec none
          ((frameOf ackOfLText ++ frameOf ackOfLText).take
            (2 * (frameOf ackOfLText).length - 1)) =
        .ok ([ackOfL, ackOfL].take k, k * (frameOf ackOfLText).length) := by
  obtain ⟨hcut, _, _⟩ := torn_journal_replays_prefix encodes_ackOfL
  have hflat : [frameOf ackOfLText, frameOf ackOfLText].flatten =
      frameOf ackOfLText ++ frameOf ackOfLText := by
    simp
  have hsize : ∀ j ≤ 2, ([frameOf ackOfLText, frameOf ackOfLText].take j).flatten.length =
      j * (frameOf ackOfLText).length := by
    intro j hj
    match j, hj with
    | 0, _ => simp
    | 1, _ => simp
    | 2, _ => simp; omega
  obtain ⟨k, hk, _, hmax, hreplay⟩ :=
    hcut (2 * (frameOf ackOfLText).length - 1) (by rw [hflat, List.length_append]; omega)
  refine ⟨k, ?_, ?_⟩
  · intro j hj hless
    exact hmax j hj (by rw [hsize j hj]; exact hless)
  · rw [hflat, hsize k hk] at hreplay
    exact hreplay

section AnyFile

variable {codec : Codec}

/-- Replay of any file: what it returns is what it would return without the tail. -/
theorem replay_take
    {b : Bytes} {rs : List Record} {good : Nat}
    (h : replay codec none b = .ok (rs, good)) :
    good ≤ b.length ∧
    Frames codec rs (b.take good) ∧
    replay codec none (b.take good) = .ok (rs, good) := by
  obtain ⟨intact, tail, rfl, hframes, _, rfl⟩ := replay_sound h
  rw [List.take_left]
  exact ⟨by simp, hframes, replay_frames hframes⟩

/-- An append that returns extends the file by one frame. -/
theorem append_returned
    {e : Appending} {log : Log}
    (hend : log.file.AtEnd)
    (h : (append codec e log).1 = .ok ()) :
    ∃ frame,
      IsFrame codec frame e.record ∧
      (append codec e log).2.file.bytes = log.file.bytes ++ frame ∧
      (append codec e log).2.file.AtEnd ∧
      (append codec e log).2.offset = log.offset + frame.length := by
  rcases append_cases codec e log with
    ⟨err, heq⟩ | ⟨err, data, heq, _⟩ | ⟨frame, heq, hframe, _⟩
  · rw [heq] at h
    cases h
  · rw [heq] at h
    cases h
  · rw [heq]
    exact ⟨frame, hframe, hend.bytes_write frame, hend.write frame, rfl⟩

/-- Appends that return add exactly their frames. -/
theorem appends_frames
    {log t : Log} {rs : List Record} {es : List (Appending × Except GoError Unit)}
    (hlog : log.Positioned codec rs)
    (hrun : (appends codec).Run log es t)
    (hreturned : ∀ er ∈ es, er.2 = .ok ()) :
    t.Positioned codec (rs ++ es.map (fun er => er.1.record)) ∧
    t.offset + log.file.bytes.length = log.offset + t.file.bytes.length := by
  induction hrun with
  | refl =>
      exact ⟨by simpa using hlog, rfl⟩
  | @next t es e _ _ ih =>
      obtain ⟨⟨hframes, hend⟩, hoffset⟩ := ih (fun er her => hreturned er (by simp [her]))
      obtain ⟨frame, hframe, hbytes, hend', hoffset'⟩ :=
        append_returned hend (hreturned (e, (append codec e t).1) (by simp [appends]))
      refine ⟨⟨?_, hend'⟩, ?_⟩
      · show Frames codec _ (append codec e t).2.file.bytes
        rw [hbytes, List.map_append, ← List.append_assoc]
        exact hframes.append (Frames.single hframe)
      · show (append codec e t).2.offset + _ = _ + (append codec e t).2.file.bytes.length
        rw [hbytes, hoffset', List.length_append]
        omega

/-- Opening a file whose content is intact frames. -/
theorem openWith_frames
    (path : GoString) (sync : Bool) {b : Bytes} {rs : List Record}
    (h : Frames codec rs b) :
    openWith codec path sync OpenEnv.calm b =
      (.ok ⟨⟨b, b.length, false⟩, sync, b.length, rs⟩, b) := by
  rw [openWith_calm path sync (replay_frames h), List.take_length]

end AnyFile

/--
Opening any file gives a clean journal.  Replay returns records and an offset
inside the file, and returns the same on the bytes up to that offset.  Opening the
file keeps these bytes, opening it again changes nothing, and after any appends
that return the next open recovers the old records followed by the new ones.
Whatever lies behind the frames of a list of records, replay starts with the list.
-/
theorem any_file_opens_clean
    (codec : Codec) (path : GoString) (sync : Bool) (b : Bytes) :
    (∃ rs good log,
      replay codec none b = .ok (rs, good) ∧
      good ≤ b.length ∧
      replay codec none (b.take good) = .ok (rs, good) ∧
      openWith codec path sync OpenEnv.calm b = (.ok log, b.take good) ∧
      log.recovered = rs ∧
      log.file.bytes = b.take good ∧
      openWith codec path sync OpenEnv.calm (b.take good) = (.ok log, b.take good) ∧
      ∀ es t,
        (appends codec).Run log es t →
        (∀ er ∈ es, er.2 = .ok ()) →
        ∃ log',
          (openWith codec path sync OpenEnv.calm t.file.bytes).1 = .ok log' ∧
          log'.recovered = rs ++ es.map (fun er => er.1.record)) ∧
    (∀ ws frames garbage,
      Encodes codec ws frames →
      ∃ ss good,
        replay codec none (frames.flatten ++ garbage) = .ok (ws ++ ss, good)) := by
  constructor
  · obtain ⟨rs, good, hreplay⟩ :=
      @replayLoop_returns codec (b.length + 1) b [] 0
    change replay codec none b = .ok (rs, good) at hreplay
    obtain ⟨hgood, hframes, hagain⟩ := replay_take hreplay
    have hlength : (b.take good).length = good := by
      rw [List.length_take]
      omega
    have hopen := openWith_calm path sync hreplay
    have hreopen := openWith_frames path sync hframes
    rw [hlength] at hreopen
    refine ⟨rs, good, _, hreplay, hgood, hagain, hopen, rfl, rfl, hreopen, ?_⟩
    intro es t hrun hreturned
    have hpositioned :
        (⟨⟨b.take good, good, false⟩, sync, good, rs⟩ : Log).Positioned codec rs :=
      ⟨hframes, by simp [File.AtEnd, File.target, hgood]⟩
    obtain ⟨⟨hall, _⟩, _⟩ := appends_frames hpositioned hrun hreturned
    exact ⟨_, by rw [openWith_frames path sync hall], rfl⟩
  · intro ws frames garbage h
    exact replay_frames_append h.isFrames garbage

/-- A file with one byte of garbage, and one append after it was opened. -/
theorem any_file_opens_clean_garbage :
    ∃ log es t log',
      openWith ackOfLCodec [] false OpenEnv.calm [7] = (.ok log, []) ∧
      (appends ackOfLCodec).Run log es t ∧
      es.map (fun er => er.1.record) = [ackOfL] ∧
      (openWith ackOfLCodec [] false OpenEnv.calm t.file.bytes).1 = .ok log' ∧
      log'.recovered = [ackOfL] := by
  obtain ⟨⟨rs, good, log, hreplay, _, _, hopen, _, _, _, hnext⟩, _⟩ :=
    any_file_opens_clean ackOfLCodec [] false [7]
  have hgarbage : replay ackOfLCodec none [7] = .ok ([], 0) :=
    rfl
  rw [hgarbage] at hreplay
  cases hreplay
  have hrun : (appends ackOfLCodec).Run log
      [(⟨ackOfL, none, none⟩, .ok ())] (append ackOfLCodec ⟨ackOfL, none, none⟩ log).2 := by
    have hreply : (append ackOfLCodec ⟨ackOfL, none, none⟩ log).1 = .ok () := by
      simp [append, encode_ackOfL]
    rw [← hreply]
    refine (Machine.Run.refl log).next (M := appends ackOfLCodec) ⟨ackOfL, none, none⟩ ?_
    rintro n m frame hwrite
    cases hwrite
  obtain ⟨log', hopen', hrecovered⟩ := hnext _ _ hrun (by simp)
  exact ⟨log, _, _, log', hopen, hrun, rfl, hopen', hrecovered⟩

end Moxy
