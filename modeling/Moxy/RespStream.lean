import Moxy.RespWire

/-!
# Moxy: reading values off a stream

`readNext` is one call of the reader: it has a unit of fuel for each byte in front
of it.  Every value takes at least its type byte off the stream (`readValue_shrinks`),
so the fuel of a nested read is never used up and more of it changes nothing
(`readValue_fuel`).

On top of this the two directions of the round trip are put together: written
values are read back one by one in front of any rest, and whatever is read can be
written and read again.
-/

namespace Moxy

open Lib

/-- One call of the reader on the unread bytes. -/
def readNext (bytes : Bytes) : Except ReadEnd (Value × Bytes) :=
  readValue (bytes.length + 1) bytes

section Fuel

theorem readLine_shrinks
    {bytes rest : Bytes} {line : GoString}
    (h : readLine bytes = .ok (line, rest)) :
    rest.length < bytes.length := by
  unfold readLine at h
  dsimp only at h
  split at h
  · cases h
  · rename_i feed tail hdrop
    split_ifs at h
    cases h
    have hsuffix : (bytes.dropWhile (· ≠ 10)).length ≤ bytes.length :=
      (List.dropWhile_suffix _).length_le
    rw [hdrop, List.length_cons] at hsuffix
    omega

theorem readMany_shrinks
    {read : Bytes → Except ReadEnd (Value × Bytes)}
    (hread : ∀ bytes v rest, read bytes = .ok (v, rest) → rest.length < bytes.length) :
    ∀ (n : Nat) {bytes rest : Bytes} {vs : List Value},
      readMany read n bytes = .ok (vs, rest) → rest.length ≤ bytes.length := by
  intro n
  induction n with
  | zero =>
      intro bytes rest vs h
      cases h
      exact Nat.le_refl _
  | succ n ih =>
      intro bytes rest vs h
      obtain ⟨v, tail, others, hfirst, hrest, _⟩ := readMany_succ_ok h
      have hless := hread bytes v tail hfirst
      have hmore := ih hrest
      omega

/-- A value takes at least its type byte off the stream. -/
theorem readValue_shrinks
    (fuel : Nat) :
    ∀ (bytes : Bytes) (v : Value) (rest : Bytes),
      readValue fuel bytes = .ok (v, rest) → rest.length < bytes.length := by
  induction fuel with
  | zero =>
      intro bytes v rest h
      cases h
  | succ fuel ih =>
      intro bytes v rest h
      obtain ⟨kind, tail, rfl, ⟨line, hline, _⟩ | hbulk | harray⟩ := readValue_ok h
      · have hless := readLine_shrinks hline
        rw [List.length_cons]
        omega
      · obtain ⟨line, tail', hline, ⟨_, rfl⟩ | ⟨n, _, _, _, rfl⟩⟩ := readBulkString_ok hbulk
        · have hless := readLine_shrinks hline
          rw [List.length_cons]
          omega
        · have hless := readLine_shrinks hline
          rw [List.length_cons, List.length_drop]
          omega
      · obtain ⟨line, tail', n, items, hline, _, hmany, _⟩ := readArray_ok harray
        have hless := readLine_shrinks hline
        have hmore := readMany_shrinks ih n hmany
        rw [List.length_cons]
        omega

/-- Readers that agree on all short inputs read the same values off one. -/
theorem readMany_congr
    {read read' : Bytes → Except ReadEnd (Value × Bytes)} {limit : Nat}
    (hread : ∀ bytes v rest, read bytes = .ok (v, rest) → rest.length < bytes.length)
    (hsame : ∀ bytes : Bytes, bytes.length ≤ limit → read bytes = read' bytes) :
    ∀ (n : Nat) (bytes : Bytes),
      bytes.length ≤ limit → readMany read n bytes = readMany read' n bytes := by
  intro n
  induction n with
  | zero =>
      intro bytes _
      rfl
  | succ n ih =>
      intro bytes hlength
      rw [readMany, readMany, ← hsame bytes hlength]
      cases hfirst : read bytes with
      | error e =>
          rfl
      | ok result =>
          obtain ⟨v, tail⟩ := result
          have hless := hread bytes v tail hfirst
          simp only [ih tail (by omega)]

theorem readArray_congr
    {read read' : Bytes → Except ReadEnd (Value × Bytes)} {bytes : Bytes}
    (hread : ∀ bytes v rest, read bytes = .ok (v, rest) → rest.length < bytes.length)
    (hsame : ∀ bytes' : Bytes, bytes'.length < bytes.length → read bytes' = read' bytes') :
    readArray read bytes = readArray read' bytes := by
  unfold readArray
  cases hline : readLine bytes with
  | error e =>
      rfl
  | ok result =>
      obtain ⟨line, tail⟩ := result
      have hless := readLine_shrinks hline
      have hmany := fun n => readMany_congr hread
        (fun bytes' h => hsame bytes' (Nat.lt_of_le_of_lt h hless)) n tail (Nat.le_refl _)
      simp only [hmany]

/-- Two amounts of fuel that are enough give the same result. -/
theorem readValue_fuel
    (fuel : Nat) :
    ∀ (fuel' : Nat) (bytes : Bytes),
      bytes.length < fuel → bytes.length < fuel' →
      readValue fuel bytes = readValue fuel' bytes := by
  induction fuel with
  | zero =>
      intro fuel' bytes h
      omega
  | succ fuel ih =>
      intro fuel' bytes h h'
      cases fuel' with
      | zero =>
          omega
      | succ fuel' =>
          cases bytes with
          | nil =>
              rfl
          | cons kind tail =>
              rw [List.length_cons] at h h'
              rw [readValue, readValue,
                readArray_congr (readValue_shrinks fuel)
                  (fun bytes' hless => ih fuel' bytes' (by omega) (by omega))]

theorem readNext_eq
    {fuel : Nat} {bytes : Bytes}
    (h : bytes.length < fuel) :
    readNext bytes = readValue fuel bytes :=
  readValue_fuel _ fuel bytes (Nat.lt_succ_self _) h

end Fuel

section Stream

/-- A safe value is the next one in front of any rest. -/
theorem readNext_writeValue
    {v : Value}
    (h : v.Wire) (rest : Bytes) :
    readNext (writeValue v ++ rest) = .ok (v, rest) :=
  readValue_writeValue v _ rest h (by rw [List.length_append]; omega)

/-- Safe values are read back one by one. -/
theorem readMany_readNext
    {vs : List Value}
    (h : ∀ v ∈ vs, v.Wire) (rest : Bytes) :
    readMany readNext vs.length (writeValues vs ++ rest) = .ok (vs, rest) := by
  induction vs with
  | nil =>
      rfl
  | cons v vs ih =>
      rw [writeValues, List.append_assoc, List.length_cons, readMany,
        readNext_writeValue (h v (by simp))]
      simp [ih (fun w hw => h w (by simp [hw]))]

end Stream

/--
The wire format is a round trip on streams.  Written one after the other in front of
any bytes, safe values are read back in order, and exactly these bytes stay unread.
Conversely every value that is read off any bytes is safe, so it is read back when
it is written in front of any others.
-/
theorem resp_stream_round_trip :
    (∀ (vs : List Value) (rest : Bytes),
      (∀ v ∈ vs, v.Wire) →
      readMany readNext vs.length ((vs.map writeValue).flatten ++ rest) = .ok (vs, rest)) ∧
    (∀ (bytes : Bytes) (v : Value) (rest : Bytes),
      readNext bytes = .ok (v, rest) →
      v.Wire ∧ ∀ rest', readNext (writeValue v ++ rest') = .ok (v, rest')) := by
  constructor
  · intro vs rest h
    have hflat : (vs.map writeValue).flatten = writeValues vs := by
      clear h
      induction vs with
      | nil =>
          rfl
      | cons v vs ih =>
          rw [List.map_cons, List.flatten_cons, ih, writeValues]
    rw [hflat]
    exact readMany_readNext h rest
  · intro bytes v rest h
    have hwire := readValue_wire _ bytes v rest h
    exact ⟨hwire, readNext_writeValue hwire⟩

/-- A nested value with line ends inside, a string that ends in a carriage return. -/
theorem resp_stream_round_trip_nested :
    readMany readNext 2
        (writeValue (.array [.bulkString crlf, .array [.nullBulkString]]) ++
          (writeValue (.simpleString [13]) ++ [43])) =
      .ok ([.array [.bulkString crlf, .array [.nullBulkString]], .simpleString [13]], [43]) := by
  have hwire : ∀ v ∈ [Value.array [.bulkString crlf, .array [.nullBulkString]],
      .simpleString [13]], v.Wire := by
    simp [Value.Wire, Value.WireAll, maxArrayLength, maxBulkLength, maxLineLength, crlf]
  have hread := resp_stream_round_trip.1 _ [43] hwire
  simpa using hread

end Moxy
