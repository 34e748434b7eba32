import Moxy.WalRecovery

/-!
# Moxy: a byte of the journal changes

The checksum of a frame covers its payload.  If one byte of the checksum field or of
the payload changes, the length field still announces the right number of bytes, and
the checksum no longer fits what it covers: the reader stops in front of the frame
(`readFrame_damaged`).  The frames before it are not affected.
-/

namespace Moxy

open Lib

/-- Where the checksum field of a frame starts: behind the length field. -/
def checksumStart : Nat :=
  4

section Damage

variable {codec : Codec}

/-- A checksum that does not fit the payload stops the reader. -/
theorem readFrame_mismatch
    {header payload : Bytes}
    (hheader : header.length = headerSize)
    (hlength : uint32 header = payload.length)
    (hchecksum : (checksumIEEE payload).toNat ≠ uint32 (header.drop 4))
    (hpos : 0 < payload.length)
    (hsize : payload.length ≤ maxRecordBytes)
    (rest : Bytes) :
    readFrame codec none (header ++ payload ++ rest) = .ok none := by
  rw [readFrame_payload hheader hlength hpos hsize, if_pos hchecksum]

/-- A frame with one changed byte behind its length field cannot be read. -/
theorem readFrame_damaged
    {record : Record} {frame : Bytes} {i : Nat} {old new : UInt8}
    (hencode : encode codec record = .ok frame)
    (hi : checksumStart ≤ i)
    (hold : frame[i]? = some old)
    (hnew : new ≠ old)
    (rest : Bytes) :
    readFrame codec none (frame.set i new ++ rest) = .ok none := by
  obtain ⟨payload, rfl, _, hpos, hsize⟩ := encode_ok hencode
  have hmax : maxRecordBytes < 2 ^ 32 := by decide
  have hword : ∀ w, uint32 (putUint32 payload.length ++ w) = payload.length :=
    uint32_putUint32 (by omega)
  have hsum : uint32 (putUint32 (checksumIEEE payload).toNat) = (checksumIEEE payload).toNat := by
    have h := uint32_putUint32 (checksumIEEE payload).toNat_lt []
    rwa [List.append_nil] at h
  unfold checksumStart at hi
  rw [frameOf, List.getElem?_append_right (by simpa using hi), putUint32_length] at hold
  rw [frameOf, List.set_append_right _ _ (by simpa using hi), putUint32_length]
  by_cases hfield : i - 4 < 4
  · -- The checksum field itself has changed.
    rw [List.getElem?_append_left (by simpa using hfield)] at hold
    rw [List.set_append_left _ _ (by simpa using hfield), ← List.append_assoc]
    refine readFrame_mismatch ?_ (hword _) ?_ hpos hsize rest
    · simp [headerSize]
    · rw [drop_putUint32]
      have hne := uint32_set_ne (putUint32_length _) hold hnew
      rw [hsum] at hne
      exact hne.symm
  · -- The payload has changed, and its checksum with it.
    rw [List.getElem?_append_right (by simpa using hfield)] at hold
    rw [List.set_append_right _ _ (by simpa using hfield), ← List.append_assoc]
    refine readFrame_mismatch rfl ?_ ?_ (by simpa using hpos) (by simpa using hsize) rest
    · rw [hword, List.length_set]
    · rw [drop_putUint32, hsum]
      exact fun h => checksumIEEE_set_ne hold hnew (UInt32.toNat_inj.mp h)

end Damage

/--
Take the frames of any records and change one byte in the checksum field or in the
payload of one of them.  Replay returns exactly the records in front of this frame and
the offset at which the frame starts.
-/
theorem damaged_record_stops_replay
    {codec : Codec} {rs : List Record} {frames : List Bytes} {frame : Bytes}
    {k i : Nat} {old new : UInt8}
    (hencodes : Encodes codec rs frames)
    (hframe : frames[k]? = some frame)
    (hi : checksumStart ≤ i)
    (hold : frame[i]? = some old)
    (hnew : new ≠ old) :
    replay codec none
        (frames.flatten.set ((frames.take k).flatten.length + i) new) =
      .ok (rs.take k, (frames.take k).flatten.length) := by
  obtain ⟨hk, hget⟩ := List.getElem?_eq_some_iff.mp hframe
  obtain ⟨hlength, _⟩ := List.getElem?_eq_some_iff.mp hold
  have hsplit : frames = frames.take k ++ frame :: frames.drop (k + 1) := by
    rw [← hget, List.getElem_cons_drop, List.take_append_drop]
  have hflat : frames.flatten =
      (frames.take k).flatten ++ (frame ++ (frames.drop (k + 1)).flatten) := by
    rw [← List.flatten_cons, ← List.flatten_append, ← hsplit]
  have hencode : ∃ record, encode codec record = .ok frame := by
    have hk' : k < rs.length := by
      rw [hencodes.length_eq]
      exact hk
    have hrecord := hencodes.get hk' hk
    rw [List.get_eq_getElem, List.get_eq_getElem, hget] at hrecord
    exact ⟨_, hrecord⟩
  obtain ⟨record, hrecord⟩ := hencode
  rw [hflat, List.set_append_right _ _ (Nat.le_add_right _ _), Nat.add_sub_cancel_left,
    List.set_append_left _ _ hlength]
  exact replay_stops (hencodes.take k).isFrames (readFrame_damaged hrecord hi hold hnew _)

/-- The first byte of the checksum of the second of two records is changed. -/
theorem damaged_record_stops_replay_second :
    replay ackOfLCodec none
        ((frameOf ackOfLText ++ frameOf ackOfLText).set
          ((frameOf ackOfLText).length + checksumStart)
          (UInt8.ofNat (checksumIEEE ackOfLText).toNat + 1)) =
      .ok ([ackOfL], (frameOf ackOfLText).length) := by
  have hfirst : ∀ (n c : Nat) (payload : Bytes),
      (putUint32 n ++ (putUint32 c ++ payload))[checksumStart]? = some (UInt8.ofNat c) :=
    fun _ _ _ => rfl
  have hother : ∀ byte : UInt8, byte + 1 ≠ byte :=
    fun _ => by simp
  have hstops := damaged_record_stops_replay (k := 1) encodes_ackOfL rfl (Nat.le_refl _)
    (hfirst _ _ _) (hother _)
  simpa using hstops

end Moxy
