import Moxy.Lib.CivilTime
import Moxy.Lib.JsonText
import Moxy.ReplyFraming
import Moxy.RespStream
import Moxy.WalRecovery

/-!
# Moxy: an admitted task can be leased and delivered

Four limits meet in the life of a task.  The RESP reader bounds a payload that comes in,
the journal bounds the text of the record that opens a lease, replay bounds the length of a
frame, and the RESP reader of the worker bounds the reply.  The record is a JSON text in
which the payload grows by a third, with two UUIDs, a number and two instants around it.

`fetchText` is that text, and `fetchText_length` bounds it.  The worst case is far below the
limit of the journal, and the reply carries the payload as it came in.
-/

namespace Moxy

open Lib

/-- The bytes of a hexadecimal number. -/
def hexByte (b : UInt8) : Bool :=
  (48 ≤ b && b ≤ 57) || (97 ≤ b && b ≤ 102) || (65 ≤ b && b ≤ 70)

/-- The text form of a UUID: 36 bytes, with four hyphens. -/
def isUUID (s : GoString) : Bool :=
  s.length == 36 &&
    s.zipIdx.all (fun p => if p.2 ∈ [8, 13, 18, 23] then p.1 == 45 else hexByte p.1)

/-- The text forms of UUIDs. -/
abbrev UUID : Type :=
  { s : GoString // isUUID s = true }

/--
An instant in a zone of whole minutes and less than a day, with a year from 0 to 9999.
The text of a zone has no seconds, so an instant in any other zone would be read back as
another one.
-/
structure Timestamp where
  instant : Int
  zone : Int
  whole_minutes : zone % 60 = 0
  year_range : 0 ≤ (localDate zone instant).year ∧ (localDate zone instant).year ≤ 9999
  zone_range : (zoneMinutes zone).natAbs / 60 < 24

/-- The error of an instant that has no JSON text. -/
def timeError : TimeError → GoError
  | .yearOutsideRange =>
      .text (goString ("json: error calling MarshalJSON for type time.Time: " ++
        "Time.MarshalJSON: year outside of range [0,9999]"))
  | .zoneOutsideRange =>
      .text (goString ("json: error calling MarshalJSON for type time.Time: " ++
        "Time.MarshalJSON: timezone hour outside of range [0,23]"))

/-- The JSON text of an instant. -/
def marshalTime (zone t : Int) : Except GoError Bytes :=
  ((formatTime zone t).mapError timeError).map (fun text => 34 :: (text ++ [34]))

/--
The JSON text of the record that opens a lease, with the texts of its instants.  The payload
of a task that came over RESP is a slice, perhaps an empty one.
-/
def recordText (lease : Lease) (created expires : Bytes) : Bytes :=
  [goString "\x7b\"op\":\"fetch\",\"lease_id\":", jsonString lease.leaseID,
    goString ",\"task\":\x7b\"id\":", jsonString lease.task.id,
    goString ",\"payload\":", jsonBytes lease.task.payload,
    goString ",\"attempts\":", formatInt lease.task.attempts,
    goString "\x7d,\"created_at\":", created,
    goString ",\"expires_at\":", expires, goString "\x7d"].flatten

/-- The text of the record, whose instants are those of clocks in the given zones. -/
def fetchText (createdZone expiresZone : Int) (lease : Lease) : Except GoError Bytes :=
  (marshalTime createdZone lease.createdAt).bind (fun created =>
    (marshalTime expiresZone lease.expiresAt).bind (fun expires =>
      .ok (recordText lease created expires)))

/-- The lease of a task with UUIDs, between two timestamps. -/
def admittedLease (taskID leaseID : UUID) (payload : Bytes) (attempts : Int)
    (created expires : Timestamp) : Lease :=
  ⟨leaseID, ⟨taskID, payload, attempts⟩, created.instant, expires.instant⟩

theorem plainByte_of_hexByte
    {b : UInt8}
    (h : hexByte b = true) :
    PlainByte b := by
  have hbytes : ∀ n : Fin 256, hexByte (UInt8.ofNat n) = true → PlainByte (UInt8.ofNat n) := by
    decide +kernel
  have hb := hbytes ⟨b.toNat, b.toNat_lt⟩
  rw [UInt8.ofNat_toNat] at hb
  exact hb h

theorem UUID.plain
    (id : UUID) :
    id.val.length = 36 ∧ ∀ b ∈ id.val, PlainByte b := by
  have h := id.property
  rw [isUUID, Bool.and_eq_true, beq_iff_eq, List.all_eq_true] at h
  refine ⟨h.1, ?_⟩
  intro b hb
  obtain ⟨i, hi⟩ := List.mem_iff_getElem?.mp hb
  have hbyte := h.2 (b, i) (List.mem_zipIdx_iff_getElem?.mpr hi)
  dsimp only at hbyte
  split_ifs at hbyte
  · rw [beq_iff_eq.mp hbyte]
    decide
  · exact plainByte_of_hexByte hbyte

theorem UUID.text_length
    (id : UUID) :
    (jsonString id.val).length = 38 := by
  rw [jsonString_length id.plain.2, id.plain.1]

theorem Timestamp.marshalTime_ok
    (t : Timestamp) :
    ∃ text, marshalTime t.zone t.instant = .ok text ∧ text.length ≤ 37 := by
  refine ⟨34 :: (timeText t.zone t.instant ++ [34]), ?_, ?_⟩
  · rw [marshalTime, formatTime_ok t.year_range t.zone_range]
    rfl
  · have hlength := timeText_length t.year_range t.zone_range
    rw [List.length_cons, List.length_append, List.length_singleton]
    omega

/-- Only the payload makes a record long. -/
theorem recordText_length
    {lease : Lease} {created expires : Bytes}
    (hlease : (jsonString lease.leaseID).length = 38)
    (htask : (jsonString lease.task.id).length = 38)
    (hattempts : (formatInt lease.task.attempts).length ≤ 20)
    (hcreated : created.length ≤ 37)
    (hexpires : expires.length ≤ 37) :
    (recordText lease created expires).length ≤
      4 * ((lease.task.payload.length + 2) / 3) + 264 := by
  have hpayload := jsonBytes_length lease.task.payload
  -- the literal parts are replaced by their sizes before the sum is taken
  have hop : (goString "\x7b\"op\":\"fetch\",\"lease_id\":").length = 25 := by decide
  have hid : (goString ",\"task\":\x7b\"id\":").length = 14 := by decide
  have hname : (goString ",\"payload\":").length = 11 := by decide
  have hcount : (goString ",\"attempts\":").length = 12 := by decide
  have hfrom : (goString "\x7d,\"created_at\":").length = 15 := by decide
  have huntil : (goString ",\"expires_at\":").length = 14 := by decide
  have hend : (goString "\x7d").length = 1 := by decide
  simp only [recordText, List.length_flatten, List.map_cons, List.map_nil, List.sum_cons,
    List.sum_nil, hop, hid, hname, hcount, hfrom, huntil, hend, hlease, htask, hpayload]
  omega

/-- The text of the record of an admitted lease, and its size. -/
theorem fetchText_length
    (taskID leaseID : UUID) (payload : Bytes) {attempts : Int}
    (created expires : Timestamp) (hattempts : IsInt64 attempts) :
    ∃ text,
      fetchText created.zone expires.zone
        (admittedLease taskID leaseID payload attempts created expires) = .ok text ∧
      text ≠ [] ∧ text.length ≤ 4 * ((payload.length + 2) / 3) + 264 := by
  obtain ⟨createdText, hcreated, hcreatedLength⟩ := created.marshalTime_ok
  obtain ⟨expiresText, hexpires, hexpiresLength⟩ := expires.marshalTime_ok
  have hlength := @recordText_length
    (admittedLease taskID leaseID payload attempts created expires) createdText expiresText
    leaseID.text_length taskID.text_length (formatInt_length hattempts) hcreatedLength
    hexpiresLength
  refine ⟨_, ?_, List.append_ne_nil_of_left_ne_nil (by decide) _, hlength⟩
  rw [fetchText, admittedLease, hcreated, hexpires]
  rfl

example :
    fetchText 0 (-5400) ⟨goString "L", ⟨goString "t", goString "p", 7⟩, zeroTime, 250000000⟩ =
      .ok (goString ("\x7b\"op\":\"fetch\",\"lease_id\":\"L\",\"task\":\x7b\"id\":\"t\"," ++
        "\"payload\":\"cA==\",\"attempts\":7\x7d,\"created_at\":\"0001-01-01T00:00:00Z\"," ++
        "\"expires_at\":\"1969-12-31T22:30:00.25-01:30\"\x7d")) := by
  simp only [fetchText, recordText, jsonString,
    jsonBody_plain (goString "L") (by decide +kernel),
    jsonBody_plain (goString "t") (by decide +kernel)]
  decide +kernel

/--
Take any payload that the RESP reader returns, any UUIDs, any number of attempts and any
timestamps that can be written.  Then the record that opens the lease fits into a frame,
replay reads the frame behind every journal, and the reply that delivers the task is read
back by the RESP reader, with the lease ID, the task ID and the payload in it.
-/
theorem admitted_task_leased_and_delivered
    {input rest payload : Bytes} {attempts : Int} (codec : Codec)
    (taskID leaseID : UUID) (created expires : Timestamp)
    (hread : readNext input = .ok (.bulkString payload, rest))
    (hattempts : 0 ≤ attempts ∧ attempts < 2 ^ 63)
    (hmarshal :
      codec.marshal (admittedLease taskID leaseID payload attempts created expires).fetchRecord =
        fetchText created.zone expires.zone
          (admittedLease taskID leaseID payload attempts created expires)) :
    (∃ frame,
      encode codec
          (admittedLease taskID leaseID payload attempts created expires).fetchRecord =
        .ok frame ∧
      ∀ rs b, Frames codec rs b →
        replay codec none (b ++ frame) =
          .ok (rs ++
            [(admittedLease taskID leaseID payload attempts created expires).fetchRecord],
            (b ++ frame).length)) ∧
    ∀ response : Response,
      response.leaseID = leaseID.val → response.taskID = taskID.val →
      response.payload = payload →
      ∀ more,
        readNext (writeValue (responseToRESP fetchName response) ++ more) =
          .ok (.array [.bulkString (goString "lease_id"), .bulkString leaseID,
            .bulkString (goString "task_id"), .bulkString taskID,
            .bulkString (goString "payload"), .bulkString payload], more) := by
  have hpayload : payload.length ≤ maxBulkLength := readValue_wire _ _ _ _ hread
  refine ⟨?_, ?_⟩
  · obtain ⟨text, htext, _, hlength⟩ :=
      fetchText_length taskID leaseID payload created expires ⟨by omega, hattempts.2⟩
    rw [htext] at hmarshal
    have hencode := encode_of_marshal hmarshal (by
      simp only [maxRecordBytes, maxBulkLength] at hpayload ⊢
      omega)
    refine ⟨_, hencode, ?_⟩
    intro rs b hframes
    exact replay_frames (hframes.append (Frames.single (encode_isFrame hencode)))
  · intro response hleaseID htaskID hresponse more
    have hreply : responseToRESP fetchName response =
        .array [.bulkString (goString "lease_id"), .bulkString leaseID,
          .bulkString (goString "task_id"), .bulkString taskID,
          .bulkString (goString "payload"), .bulkString payload] := by
      rw [responseToRESP, if_neg (by decide), if_pos rfl, hleaseID, htaskID, hresponse]
    have hid : 36 ≤ maxBulkLength := by decide
    rw [← hreply]
    refine readNext_writeValue (responseToRESP_wire fetchName ⟨?_, ?_, ?_⟩) more
    · rw [htaskID, taskID.plain.1]
      exact hid
    · rw [hleaseID, leaseID.plain.1]
      exact hid
    · rw [hresponse]
      exact hpayload

section Largest

def firstUUID : UUID :=
  ⟨goString "6ba7b810-9dad-11d1-80b4-00c04fd430c8", by decide⟩

def secondUUID : UUID :=
  ⟨goString "6ba7b811-9dad-11d1-80b4-00c04fd430c8", by decide⟩

/-- The zero instant on a clock that shows UTC, and on one that is an hour ahead. -/
def zeroUTC : Timestamp :=
  ⟨zeroTime, 0, by decide, by decide, by decide⟩

def zeroEast : Timestamp :=
  ⟨zeroTime, 3600, by decide, by decide, by decide⟩

def largestPayload : Bytes :=
  List.replicate maxBulkLength 255

/-- A lease with the largest payload and the largest count. -/
def largestLease : Lease :=
  admittedLease firstUUID secondUUID largestPayload (2 ^ 63 - 1) zeroUTC zeroEast

theorem largestLease_textIDs :
    largestLease.fetchRecord.TextIDs :=
  ⟨⟨"6ba7b811-9dad-11d1-80b4-00c04fd430c8", rfl⟩, "6ba7b810-9dad-11d1-80b4-00c04fd430c8", rfl⟩

theorem admitted_task_leased_and_delivered_largest :
    ∃ codec frame,
      encode codec largestLease.fetchRecord = .ok frame ∧
      replay codec none frame = .ok ([largestLease.fetchRecord], frame.length) := by
  have hwire : (Value.bulkString largestPayload).Wire :=
    (List.length_replicate : largestPayload.length = maxBulkLength).le
  have hcount : (0 : Int) ≤ 2 ^ 63 - 1 ∧ (2 : Int) ^ 63 - 1 < 2 ^ 63 := by decide
  obtain ⟨text, htext, hne, _⟩ :=
    fetchText_length firstUUID secondUUID largestPayload zeroUTC zeroEast
      ⟨by omega, hcount.2⟩
  obtain ⟨⟨frame, hencode, hreplay⟩, _⟩ :=
    admitted_task_leased_and_delivered
      (Codec.only largestLease.fetchRecord text hne largestLease_textIDs)
      firstUUID secondUUID zeroUTC zeroEast (readNext_writeValue hwire []) hcount
      ((Codec.only_marshal _ text hne _).trans htext.symm)
  exact ⟨_, frame, hencode, hreplay [] [] Frames.nil⟩

end Largest

end Moxy
