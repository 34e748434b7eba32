import Moxy.RespStream

/-!
# Moxy: how much of the input one request can take

The reader limits the length of a line, of a bulk string and of an array.  Each limit
holds at one level.  An array that may hold arrays has no limit of its own, and the
reader descends once for each level.

`requestLimit d` is the number of bytes that a value nested `d` deep can take
(`readValue_within`), so the three limits bound what one level can hold.  The nesting
itself has no limit: a header of four bytes in front of any input makes the reader
descend once more (`readNext_oneItem`).
-/

namespace Moxy

open Lib

mutual

/-- How deep arrays are nested in a value. -/
def Value.depth : Value → Nat
  | .simpleString _ => 0
  | .error _ => 0
  | .integer _ => 0
  | .bulkString _ => 0
  | .nullBulkString => 0
  | .array items => Value.depthAll items + 1

/-- The largest depth of several values. -/
def Value.depthAll : List Value → Nat
  | [] => 0
  | v :: vs => max v.depth (Value.depthAll vs)

end

/-- The bytes that a value of depth `d` can take: a type byte, a line, and the content. -/
def requestLimit : Nat → Nat
  | 0 => 1 + maxLineLength + (maxBulkLength + 2)
  | d + 1 => 1 + maxLineLength + maxArrayLength * requestLimit d

theorem requestLimit_mono
    {d d' : Nat}
    (h : d ≤ d') :
    requestLimit d ≤ requestLimit d' := by
  induction h with
  | refl =>
      exact Nat.le_refl _
  | @step d' _ ih =>
      refine ih.trans ?_
      have hgrow : 1 * requestLimit d' ≤ maxArrayLength * requestLimit d' :=
        Nat.mul_le_mul_right _ (by decide)
      rw [requestLimit]
      omega

section Within

theorem readLine_within
    {bytes rest : Bytes} {line : GoString}
    (h : readLine bytes = .ok (line, rest)) :
    bytes.length ≤ rest.length + maxLineLength := by
  unfold readLine at h
  dsimp only at h
  split at h
  · cases h
  · rename_i feed tail hdrop
    split_ifs at h with hlong hend
    cases h
    have hsplit := congrArg List.length
      (List.takeWhile_append_dropWhile (p := (· ≠ 10)) (l := bytes))
    rw [hdrop, List.length_append, List.length_cons] at hsplit
    omega

theorem readMany_within
    {read : Bytes → Except ReadEnd (Value × Bytes)}
    (hread : ∀ bytes v rest, read bytes = .ok (v, rest) →
      bytes.length ≤ rest.length + requestLimit v.depth) :
    ∀ (n : Nat) {bytes rest : Bytes} {vs : List Value},
      readMany read n bytes = .ok (vs, rest) →
      bytes.length ≤ rest.length + n * requestLimit (Value.depthAll vs) := by
  intro n
  induction n with
  | zero =>
      intro bytes rest vs h
      cases h
      omega
  | succ n ih =>
      intro bytes rest vs h
      obtain ⟨v, tail, others, hfirst, hrest, rfl⟩ := readMany_succ_ok h
      have hv := hread bytes v tail hfirst
      have hothers := ih hrest
      have hleft : requestLimit v.depth ≤ requestLimit (Value.depthAll (v :: others)) :=
        requestLimit_mono (Nat.le_max_left _ _)
      have hright : n * requestLimit (Value.depthAll others) ≤
          n * requestLimit (Value.depthAll (v :: others)) :=
        Nat.mul_le_mul_left n (requestLimit_mono (Nat.le_max_right _ _))
      rw [Nat.succ_mul]
      omega

/-- A value takes at most the bytes that its depth allows. -/
theorem readValue_within
    (fuel : Nat) :
    ∀ (bytes : Bytes) (v : Value) (rest : Bytes),
      readValue fuel bytes = .ok (v, rest) →
      bytes.length ≤ rest.length + requestLimit v.depth := by
  induction fuel with
  | zero =>
      intro bytes v rest h
      cases h
  | succ fuel ih =>
      intro bytes v rest h
      have hleast := requestLimit_mono (Nat.zero_le v.depth)
      rw [requestLimit] at hleast
      obtain ⟨kind, tail, rfl, ⟨line, hline, _⟩ | hbulk | harray⟩ := readValue_ok h
      · have hwithin := readLine_within hline
        rw [List.length_cons]
        omega
      · obtain ⟨line, tail', hline, ⟨_, rfl⟩ | ⟨n, hn, _, _, rfl⟩⟩ := readBulkString_ok hbulk
        · have hwithin := readLine_within hline
          rw [List.length_cons]
          omega
        · have hwithin := readLine_within hline
          rw [List.length_cons, List.length_drop]
          omega
      · obtain ⟨line, tail', n, items, hline, hn, hmany, rfl⟩ := readArray_ok harray
        have hwithin := readLine_within hline
        have hitems := readMany_within ih n hmany
        have hcount : n * requestLimit (Value.depthAll items) ≤
            maxArrayLength * requestLimit (Value.depthAll items) :=
          Nat.mul_le_mul_right _ hn
        rw [List.length_cons, Value.depth, requestLimit]
        omega

end Within

section Nested

/-- The header of an array of one item. -/
def oneItemHeader : Bytes :=
  goString "*1\r\n"

/-- The array without items. -/
def emptyArray : Bytes :=
  goString "*0\r\n"

/-- Several headers in a row. -/
def headers : Nat → Bytes
  | 0 => []
  | n + 1 => oneItemHeader ++ headers n

/-- A value inside `n` arrays of one item. -/
def nested : Nat → Value → Value
  | 0, v => v
  | n + 1, v => .array [nested n v]

theorem headers_length
    (n : Nat) :
    (headers n).length = 4 * n := by
  induction n with
  | zero =>
      rfl
  | succ n ih =>
      have hfour : oneItemHeader.length = 4 := by decide
      rw [headers, List.length_append, ih, hfour]
      omega

theorem nested_depth
    (n : Nat) (v : Value) :
    (nested n v).depth = n + v.depth := by
  induction n with
  | zero =>
      exact (Nat.zero_add _).symm
  | succ n ih =>
      rw [nested, Value.depth, Value.depthAll, Value.depthAll, ih, Nat.max_zero]
      omega

/-- The reader descends once more for a header in front of a value. -/
theorem readNext_oneItem
    {bytes rest : Bytes} {v : Value}
    (h : readNext bytes = .ok (v, rest)) :
    readNext (oneItemHeader ++ bytes) = .ok (.array [v], rest) := by
  have hline : readLine (goString "1" ++ crlf ++ bytes) = .ok (goString "1", bytes) :=
    readLine_append (by decide) (by decide) bytes
  have hparse : parseInt64 (goString "1") = some 1 := by decide
  generalize hfuel : (goString "1" ++ crlf ++ bytes).length + 1 = fuel
  -- The nested read has more fuel than it needs.
  have henough : bytes.length < fuel := by
    rw [← hfuel, List.length_append]
    omega
  have hmany : readMany (readValue fuel) 1 bytes = .ok ([v], rest) := by
    rw [readMany, ← readNext_eq henough, h]
    rfl
  have harray : readArray (readValue fuel) (goString "1" ++ crlf ++ bytes) =
      .ok (.array [v], rest) := by
    rw [readArray, hline]
    simp only [hparse]
    rw [if_neg (by decide), if_neg (by decide)]
    simp [hmany]
  rw [← hfuel] at harray
  exact harray

theorem emptyArray_length : emptyArray.length = 4 := by
  rfl

theorem readNext_emptyArray : readNext emptyArray = .ok (.array [], []) := by
  rfl

theorem readNext_headers
    {bytes rest : Bytes} {v : Value}
    (h : readNext bytes = .ok (v, rest)) (n : Nat) :
    readNext (headers n ++ bytes) = .ok (nested n v, rest) := by
  induction n with
  | zero =>
      exact h
  | succ n ih =>
      rw [headers, List.append_assoc]
      exact readNext_oneItem ih

end Nested

/--
The limits of the reader hold at one level each, and no number bounds a request.  For
every `N` the reader returns, from some input, a value that is nested more than `N` deep
and took more than `N` bytes.  In front of any input from which it returns a value, `N`
headers of four bytes each make it return that value `N` levels deeper, after `4 * N`
more bytes.  What the limits do bound is a level: a value nested `d` deep takes at most
`requestLimit d` bytes.
-/
theorem reader_limits_bound_no_request
    (N : Nat) :
    (∃ (bytes : Bytes) (v : Value) (rest : Bytes),
      readNext bytes = .ok (v, rest) ∧
      N < bytes.length - rest.length ∧
      N < v.depth) ∧
    ∀ (bytes : Bytes) (v : Value) (rest : Bytes),
      readNext bytes = .ok (v, rest) →
      bytes.length - rest.length ≤ requestLimit v.depth ∧
      readNext (headers N ++ bytes) = .ok (nested N v, rest) ∧
      (nested N v).depth = N + v.depth ∧
      (headers N ++ bytes).length - rest.length = 4 * N + (bytes.length - rest.length) := by
  constructor
  · refine ⟨_, _, _, readNext_headers readNext_emptyArray N, ?_, ?_⟩
    · rw [List.length_append, headers_length, emptyArray_length, List.length_nil]
      omega
    · rw [nested_depth, Value.depth]
      omega
  · intro bytes v rest h
    have hwithin := readValue_within _ bytes v rest h
    have hshrinks : rest.length < bytes.length := readValue_shrinks _ bytes v rest h
    refine ⟨by omega, readNext_headers h N, nested_depth N v, ?_⟩
    rw [List.length_append, headers_length]
    omega

/-- No number bounds what the reader takes for one request. -/
theorem reader_nesting_unbounded :
    ¬ ∃ N, ∀ (bytes : Bytes) (v : Value) (rest : Bytes),
      readNext bytes = .ok (v, rest) →
      bytes.length - rest.length ≤ N ∧ v.depth ≤ N := by
  rintro ⟨N, hN⟩
  have hdepth := (hN _ _ _ (readNext_headers readNext_emptyArray N)).2
  rw [nested_depth, Value.depth] at hdepth
  omega

end Moxy
