import Moxy.Domain
import Moxy.Lib.FrameCode

/-!
# Moxy: the byte format of the journal

A record is stored as a frame: the length of its payload, the checksum of its
payload, and the payload.  `replay` reads frames from the start of the file and
stops at the first one that is short, has an implausible length, fails its
checksum or does not decode.

The payload text is produced and read by a codec, of which only two things are
assumed: it reads back what it wrote, and it never writes an empty text.

`IsFrame frame record` says that the reader takes exactly `frame` off the front
of any input that starts with it.  Everything about `replay` follows from two
facts about one turn of its loop: what `encode` writes is a frame
(`encode_isFrame`), and whatever the reader takes off is a frame
(`readFrame_some`).
-/

namespace Moxy

open Lib

/-- The size of a frame's header. -/
def headerSize : Nat :=
  8

/-- The largest payload that a frame may carry. -/
def maxRecordBytes : Nat :=
  8 * 2 ^ 20

/-- The IDs in a record are UTF-8, as UUIDs are and as anything read from JSON is. -/
def Record.TextIDs (record : Record) : Prop :=
  ValidUTF8 record.leaseID ∧ ValidUTF8 record.task.id

/--
The text form of a record.  JSON reads a record back as it was if its IDs are text, and
replaces other bytes in them, so a codec stands for the writing of records with text IDs.
-/
structure Codec where
  marshal : Record → Except GoError Bytes
  unmarshal : Bytes → Option Record
  marshal_text :
    ∀ {record payload}, marshal record = .ok payload → record.TextIDs
  unmarshal_marshal :
    ∀ {record payload}, record.TextIDs → marshal record = .ok payload →
      unmarshal payload = some record
  marshal_ne_nil :
    ∀ {record payload}, marshal record = .ok payload → payload ≠ []

/-- The bytes of a frame around a payload. -/
def frameOf (payload : Bytes) : Bytes :=
  putUint32 payload.length ++
    (putUint32 (checksumIEEE payload).toNat ++ payload)

/-- The frame of a record. -/
def encode (codec : Codec) (record : Record) : Except GoError Bytes :=
  match codec.marshal record with
  | .error err => .error (.wrap (goString "wal: encode record: ") err [])
  | .ok payload =>
      if maxRecordBytes < payload.length then
        .error (.text (goString
          s!"wal: record is {payload.length} bytes, over the {maxRecordBytes} byte limit"))
      else
        .ok (frameOf payload)

/-- An error of the operating system, wrapped with the step that met it. -/
def walError (what : GoString) (message : GoString) : GoError :=
  .wrap (goString "wal: " ++ what ++ goString ": ") (.text message) []

/--
The end of a read that found too few bytes: the end of the file, or an error of
the device.
-/
def shortRead {α : Type} (what : String) (failure : Option GoString) (atEnd : α) :
    Except GoError α :=
  match failure with
  | none => .ok atEnd
  | some message => .error (walError (goString what) message)

/--
One turn of the replay loop on the unread bytes: the record, the bytes behind its
frame and the frame's size, or nothing when replay stops here.
-/
def readFrame (codec : Codec) (failure : Option GoString) (rest : Bytes) :
    Except GoError (Option (Record × Bytes × Nat)) :=
  if rest.length < headerSize then
    shortRead "read header" failure none
  else
    let length := uint32 rest
    let checksum := uint32 (rest.drop 4)
    let body := rest.drop headerSize
    if length = 0 ∨ maxRecordBytes < length then
      .ok none
    else if body.length < length then
      shortRead "read payload" failure none
    else if (checksumIEEE (body.take length)).toNat ≠ checksum then
      .ok none
    else
      match codec.unmarshal (body.take length) with
      | none => .ok none
      | some record => .ok (some (record, body.drop length, headerSize + length))

/-- The replay loop, with one unit of fuel for each turn. -/
def replayLoop (codec : Codec) (failure : Option GoString) :
    Nat → Bytes → List Record → Nat → Except GoError (List Record × Nat)
  | 0, _, records, good => .ok (records, good)
  | fuel + 1, rest, records, good =>
      match readFrame codec failure rest with
      | .error err => .error err
      | .ok none => .ok (records, good)
      | .ok (some (record, rest', size)) =>
          replayLoop codec failure fuel rest' (records ++ [record]) (good + size)

/--
The records of a file and the offset just past the last intact one.  A device
that fails delivers the bytes before the failure, so `bytes` is what it delivers.
-/
def replay (codec : Codec) (failure : Option GoString) (bytes : Bytes) :
    Except GoError (List Record × Nat) :=
  replayLoop codec failure (bytes.length + 1) bytes [] 0

/-- The reader takes exactly `frame` off any input that starts with it. -/
def IsFrame (codec : Codec) (frame : Bytes) (record : Record) : Prop :=
  0 < frame.length ∧
  ∀ failure rest,
    readFrame codec failure (frame ++ rest) =
      .ok (some (record, rest, frame.length))

/-- A byte string made of intact frames. -/
inductive Frames (codec : Codec) : List Record → Bytes → Prop
  | nil : Frames codec [] []
  | cons
      {record : Record} {records : List Record} {frame bytes : Bytes}
      (hframe : IsFrame codec frame record)
      (hframes : Frames codec records bytes) :
      Frames codec (record :: records) (frame ++ bytes)

section Frame

variable {codec : Codec}

/-- Behind a header that announces its payload, checksum and text decide. -/
theorem readFrame_payload
    {header payload : Bytes}
    (hheader : header.length = headerSize)
    (hlength : uint32 header = payload.length)
    (hpos : 0 < payload.length)
    (hsize : payload.length ≤ maxRecordBytes)
    (failure : Option GoString) (rest : Bytes) :
    readFrame codec failure (header ++ payload ++ rest) =
      if (checksumIEEE payload).toNat ≠ uint32 (header.drop 4) then .ok none
      else
        match codec.unmarshal payload with
        | none => .ok none
        | some record => .ok (some (record, rest, (header ++ payload).length)) := by
  have height : header.length = 8 := hheader
  have hdrop : (header.drop 4).length = 4 := by
    simp [height]
  have hlength' : uint32 (header ++ (payload ++ rest)) = payload.length := by
    rw [uint32_append (by omega), hlength]
  have hchecksum' :
      uint32 ((header ++ (payload ++ rest)).drop 4) = uint32 (header.drop 4) := by
    rw [List.drop_append_of_le_length (by omega), uint32_append (by omega)]
  have hbody : (header ++ (payload ++ rest)).drop headerSize = payload ++ rest := by
    rw [← hheader, List.drop_left]
  have hlong : ¬ (header ++ (payload ++ rest)).length < headerSize := by
    simp [← hheader]
  have hplausible : ¬ (payload.length = 0 ∨ maxRecordBytes < payload.length) := by
    omega
  have henough : ¬ (payload ++ rest).length < payload.length := by
    simp
  rw [List.append_assoc, List.length_append, hheader]
  simp only [readFrame, hlength', hchecksum', hbody, if_neg hlong,
    if_neg hplausible, if_neg henough, List.take_left, List.drop_left]

/-- A header that announces its payload, and a payload that decodes, are a frame. -/
theorem isFrame_of_header
    {header payload : Bytes} {record : Record}
    (hheader : header.length = headerSize)
    (hlength : uint32 header = payload.length)
    (hchecksum : uint32 (header.drop 4) = (checksumIEEE payload).toNat)
    (hpos : 0 < payload.length)
    (hsize : payload.length ≤ maxRecordBytes)
    (hdecode : codec.unmarshal payload = some record) :
    IsFrame codec (header ++ payload) record := by
  refine ⟨by rw [List.length_append]; omega, fun failure rest => ?_⟩
  rw [readFrame_payload hheader hlength hpos hsize, if_neg (not_not.mpr hchecksum.symm),
    hdecode]

/-- What `encode` accepts: a payload of a plausible length. -/
theorem encode_ok
    {record : Record} {frame : Bytes}
    (h : encode codec record = .ok frame) :
    ∃ payload,
      frame = frameOf payload ∧
      codec.marshal record = .ok payload ∧
      0 < payload.length ∧
      payload.length ≤ maxRecordBytes := by
  unfold encode at h
  cases hm : codec.marshal record with
  | error err =>
      simp [hm] at h
  | ok payload =>
      simp only [hm] at h
      split at h
      · cases h
      · cases h
        exact ⟨payload, rfl, rfl, List.length_pos_iff.mpr (codec.marshal_ne_nil hm),
          by omega⟩

/-- What `encode` writes is a frame of its record. -/
theorem encode_isFrame
    {record : Record} {frame : Bytes}
    (h : encode codec record = .ok frame) :
    IsFrame codec frame record := by
  obtain ⟨payload, rfl, hm, hpos, hsize⟩ := encode_ok h
  have hmax : maxRecordBytes < 2 ^ 32 := by decide
  rw [frameOf, ← List.append_assoc]
  apply isFrame_of_header
  · rfl
  · exact uint32_putUint32 (by omega) _
  · rw [drop_putUint32, ← List.append_nil (putUint32 _)]
    exact uint32_putUint32 (checksumIEEE payload).toNat_lt []
  · exact hpos
  · exact hsize
  · exact codec.unmarshal_marshal (codec.marshal_text hm) hm

/--
A frame behind the first byte of itself cannot be read: the shifted length field
announces more bytes than there are.
-/
theorem readFrame_behind_first_byte
    {record : Record} {frame : Bytes}
    (h : encode codec record = .ok frame) :
    readFrame codec none (frame.take 1 ++ frame) = .ok none := by
  obtain ⟨payload, rfl, _, hpos, hsize⟩ := encode_ok h
  have hbody :
      ((frameOf payload).take 1 ++ frameOf payload).length =
        headerSize + (payload.length + 1) := by
    simp [frameOf, headerSize]
    omega
  have hlength :
      payload.length + 1 <
        uint32 ((frameOf payload).take 1 ++ frameOf payload) := by
    simp only [uint32, frameOf, putUint32, List.cons_append, List.take_succ_cons,
      List.take_zero, List.nil_append, List.getD_cons_zero, List.getD_cons_succ,
      UInt8.toNat_ofNat']
    unfold maxRecordBytes at hsize
    omega
  simp only [readFrame, shortRead, List.length_drop, hbody]
  rw [if_neg (by omega)]
  split
  · rfl
  · rw [if_pos (by omega)]

/-- Without device errors every turn of the loop goes through. -/
theorem readFrame_ok
    (rest : Bytes) :
    ∃ found, readFrame codec none rest = .ok found := by
  simp only [readFrame, shortRead]
  repeat' split
  all_goals exact ⟨_, rfl⟩

/-- The header in front of what the reader takes off announces its size. -/
theorem readFrame_header
    {failure : Option GoString} {rest rest' : Bytes} {record : Record} {size : Nat}
    (h : readFrame codec failure rest = .ok (some (record, rest', size))) :
    ¬ rest.length < headerSize ∧
    ¬ (uint32 rest = 0 ∨ maxRecordBytes < uint32 rest) ∧
    size = headerSize + uint32 rest := by
  simp only [readFrame, shortRead] at h
  repeat' split at h
  all_goals first | (cases h; done) | skip
  cases h
  exact ⟨by assumption, by assumption, rfl⟩

/-- Whatever the reader takes off the front is a frame. -/
theorem readFrame_some
    {failure : Option GoString} {rest rest' : Bytes} {record : Record} {size : Nat}
    (h : readFrame codec failure rest = .ok (some (record, rest', size))) :
    ∃ frame,
      rest = frame ++ rest' ∧
      frame.length = size ∧
      IsFrame codec frame record := by
  simp only [readFrame, shortRead] at h
  split at h
  · cases failure <;> cases h
  · rename_i hheader
    split at h
    · cases h
    · rename_i hplausible
      split at h
      · cases failure <;> cases h
      · rename_i henough
        split at h
        · cases h
        · rename_i hchecksum
          cases hdecode : codec.unmarshal
              ((rest.drop headerSize).take (uint32 rest)) with
          | none =>
              simp [hdecode] at h
          | some found =>
              simp only [hdecode, Except.ok.injEq, Option.some.injEq,
                Prod.mk.injEq] at h
              obtain ⟨rfl, rfl, rfl⟩ := h
              have hlen : (rest.take headerSize).length = headerSize := by
                rw [List.length_take]
                omega
              have hpayload :
                  ((rest.drop headerSize).take (uint32 rest)).length =
                    uint32 rest := by
                rw [List.length_take]
                omega
              -- The header is the first eight bytes, and it decides alone.
              have hword : uint32 (rest.take headerSize) = uint32 rest :=
                uint32_take (by decide) (by omega)
              have hsum :
                  uint32 ((rest.take headerSize).drop 4) = uint32 (rest.drop 4) := by
                rw [List.drop_take]
                unfold headerSize at hheader ⊢
                exact uint32_take (by decide) (by rw [List.length_drop]; omega)
              refine ⟨rest.take headerSize ++
                (rest.drop headerSize).take (uint32 rest), ?_, ?_, ?_⟩
              · rw [List.append_assoc, List.take_append_drop,
                  List.take_append_drop]
              · rw [List.length_append, hlen, hpayload]
              · apply isFrame_of_header hlen
                · rw [hword, hpayload]
                · rw [hsum]
                  exact (not_not.mp hchecksum).symm
                · omega
                · omega
                · exact hdecode

end Frame

section Replay

variable {codec : Codec}

theorem Frames.append
    {rs ss : List Record} {b c : Bytes}
    (hb : Frames codec rs b)
    (hc : Frames codec ss c) :
    Frames codec (rs ++ ss) (b ++ c) := by
  induction hb with
  | nil =>
      exact hc
  | cons hframe _ ih =>
      rw [List.append_assoc]
      exact Frames.cons hframe ih

theorem Frames.single
    {record : Record} {frame : Bytes}
    (h : IsFrame codec frame record) :
    Frames codec [record] frame := by
  rw [← List.append_nil frame]
  exact Frames.cons h Frames.nil

/-- The loop walks through intact frames and goes on behind them. -/
theorem replayLoop_frames
    {failure : Option GoString} {rs : List Record} {b : Bytes}
    (h : Frames codec rs b)
    (rest : Bytes) :
    ∀ {fuel : Nat} (records : List Record) (good : Nat),
      (b ++ rest).length < fuel →
      ∃ fuel', rest.length < fuel' ∧
        replayLoop codec failure fuel (b ++ rest) records good =
          replayLoop codec failure fuel' rest (records ++ rs) (good + b.length) := by
  induction h with
  | nil =>
      intro fuel records good hfuel
      exact ⟨fuel, hfuel, by simp⟩
  | @cons record rs frame b hframe _ ih =>
      intro fuel records good hfuel
      obtain ⟨hpos, hread⟩ := hframe
      cases fuel with
      | zero =>
          omega
      | succ fuel =>
          have hless : (b ++ rest).length < fuel := by
            simp only [List.length_append] at hfuel ⊢
            omega
          obtain ⟨fuel', hfuel', heq⟩ :=
            ih (records ++ [record]) (good + frame.length) hless
          refine ⟨fuel', hfuel', ?_⟩
          rw [List.append_assoc frame, replayLoop, hread]
          simp only [heq]
          rw [List.append_assoc, List.length_append, Nat.add_assoc]
          rfl

/-- What the loop returns: the accumulators grown by the intact frames it found. -/
theorem replayLoop_sound
    {failure : Option GoString} (fuel : Nat) :
    ∀ {rest : Bytes} {records found : List Record} {good size : Nat},
      rest.length < fuel →
      replayLoop codec failure fuel rest records good = .ok (found, size) →
      ∃ rs b tail,
        rest = b ++ tail ∧
        Frames codec rs b ∧
        readFrame codec failure tail = .ok none ∧
        found = records ++ rs ∧
        size = good + b.length := by
  induction fuel with
  | zero =>
      intro rest records found good size hfuel
      omega
  | succ fuel ih =>
      intro rest records found good size hfuel h
      rw [replayLoop] at h
      rcases hread : readFrame codec failure rest with
        err | _ | ⟨record, rest', n⟩
      · simp [hread] at h
      · simp only [hread, Except.ok.injEq, Prod.mk.injEq] at h
        exact ⟨[], [], rest, rfl, Frames.nil, hread, by simp [h.1], by simp [h.2]⟩
      · simp only [hread] at h
        obtain ⟨frame, rfl, rfl, hframe⟩ := readFrame_some hread
        have hless : rest'.length < fuel := by
          have hpos := hframe.1
          simp only [List.length_append] at hfuel
          omega
        obtain ⟨rs, b, tail, rfl, hframes, htail, rfl, rfl⟩ := ih hless h
        exact ⟨record :: rs, frame ++ b, tail, by simp, Frames.cons hframe hframes,
          htail, by simp, by simp [Nat.add_assoc]⟩

/-- Without device errors the loop returns. -/
theorem replayLoop_returns
    (fuel : Nat) :
    ∀ (rest : Bytes) (records : List Record) (good : Nat),
      ∃ found size,
        replayLoop codec none fuel rest records good = .ok (found, size) := by
  induction fuel with
  | zero =>
      intro rest records good
      exact ⟨records, good, rfl⟩
  | succ fuel ih =>
      intro rest records good
      obtain ⟨next, hnext⟩ := @readFrame_ok codec rest
      rcases next with _ | ⟨record, rest', size⟩
      · exact ⟨records, good, by simp [replayLoop, hnext]⟩
      · obtain ⟨found, size', heq⟩ := ih rest' (records ++ [record]) (good + size)
        exact ⟨found, size', by simp [replayLoop, hnext, heq]⟩

/-- Replay returns a run of intact frames at the start of the file, and its size. -/
theorem replay_sound
    {failure : Option GoString} {bytes : Bytes} {records : List Record} {good : Nat}
    (h : replay codec failure bytes = .ok (records, good)) :
    ∃ b tail,
      bytes = b ++ tail ∧
      Frames codec records b ∧
      readFrame codec failure tail = .ok none ∧
      good = b.length := by
  obtain ⟨rs, b, tail, hbytes, hframes, htail, rfl, rfl⟩ :=
    replayLoop_sound (bytes.length + 1) (Nat.lt_succ_self _) h
  exact ⟨b, tail, hbytes, hframes, htail, by simp⟩

/-- Replay finds the intact frames at the start, whatever lies behind them. -/
theorem replay_frames_append
    {rs : List Record} {b : Bytes}
    (h : Frames codec rs b)
    (rest : Bytes) :
    ∃ ss good, replay codec none (b ++ rest) = .ok (rs ++ ss, good) := by
  obtain ⟨fuel, hfuel, heq⟩ :=
    @replayLoop_frames codec none _ _ h rest _ [] 0 (Nat.lt_succ_self _)
  obtain ⟨found, good, hreturns⟩ :=
    @replayLoop_returns codec fuel rest ([] ++ rs) (0 + b.length)
  obtain ⟨ss, c, _, _, _, _, rfl, rfl⟩ := replayLoop_sound fuel hfuel hreturns
  exact ⟨ss, _, by rw [replay, heq, hreturns, List.nil_append]⟩

end Replay

end Moxy
