import Moxy.Domain
import Moxy.Lib.Decimal
import Mathlib.Data.List.TakeWhile
import Mathlib.Tactic.SplitIfs

/-!
# Moxy: the wire format

Requests and replies are RESP2 values.  Simple strings, errors, integers and all
lengths stand on a line of their own, closed by a carriage return and a line feed;
bulk strings carry their length and may hold any bytes.

`writeValue` copies texts as they are.  `Value.Wire` describes the values for
which this is safe: no line feed in a line, and every size within the limits of
the reader.  The reader takes a written value of this kind off the front of any
input (`readValue_writeValue`), hence a concatenation of such values is read back
value by value, with nothing left over (`readAll_writeValues`).
-/

namespace Moxy

open Lib

/-- The longest line that the reader accepts, with its end. -/
def maxLineLength : Nat :=
  4096

def maxBulkLength : Nat :=
  1024 * 1024

def maxArrayLength : Nat :=
  1024

/-- RESP2 values. -/
inductive Value where
  | simpleString (s : GoString)
  | error (s : GoString)
  | integer (i : Int)
  | bulkString (s : GoString)
  | nullBulkString
  | array (items : List Value)

/-- The end of a line. -/
def crlf : Bytes :=
  [13, 10]

mutual

/-- The bytes of a value. -/
def writeValue : Value → Bytes
  | .simpleString s => 43 :: (s ++ crlf)
  | .error s => 45 :: (s ++ crlf)
  | .integer i => 58 :: (formatInt i ++ crlf)
  | .nullBulkString => [36, 45, 49] ++ crlf
  | .bulkString s => 36 :: (formatInt s.length ++ crlf ++ (s ++ crlf))
  | .array items => 42 :: (formatInt items.length ++ crlf ++ writeValues items)

/-- The bytes of several values, one after the other. -/
def writeValues : List Value → Bytes
  | [] => []
  | v :: vs => writeValue v ++ writeValues vs

end

/-- Why a read returned no value. -/
inductive ReadEnd where
  | eof
  | fails (err : GoError)
deriving DecidableEq, Repr

/-- The error for input that breaks the format. -/
def malformed (detail : GoString) : ReadEnd :=
  .fails (.wrap [] (.sentinel .errMalformedRESP) (goString ": " ++ detail))

def tooLarge : ReadEnd :=
  .fails (.sentinel .errValueTooLarge)

/-- Read a line and cut off its end. -/
def readLine (bytes : Bytes) : Except ReadEnd (GoString × Bytes) :=
  let body := bytes.takeWhile (· ≠ 10)
  match bytes.dropWhile (· ≠ 10) with
  | [] => .error (malformed (goString "missing CRLF"))
  | _ :: rest =>
      if maxLineLength < body.length + 1 then .error tooLarge
      else if body.getLast? ≠ some 13 then
        .error (malformed (goString "missing CRLF"))
      else .ok (body.dropLast, rest)

/-- A byte as a quoted character, with the escapes of the source language. -/
def quoteByte (b : UInt8) : GoString :=
  let n := b.toNat
  let hex := [hexDigit (n / 16), hexDigit (n % 16)]
  let body :=
    if n = 7 then goString "\\a"
    else if n = 8 then goString "\\b"
    else if n = 9 then goString "\\t"
    else if n = 10 then goString "\\n"
    else if n = 11 then goString "\\v"
    else if n = 12 then goString "\\f"
    else if n = 13 then goString "\\r"
    else if n = 39 then goString "\\'"
    else if n = 92 then goString "\\\\"
    else if n < 32 ∨ n = 127 then goString "\\x" ++ hex
    else if n < 127 then [b]
    else if n ≤ 160 ∨ n = 173 then goString "\\u00" ++ hex
    -- The other characters of this range print as themselves, in two bytes.
    else [UInt8.ofNat (192 + n / 64), UInt8.ofNat (128 + n % 64)]
  [39] ++ body ++ [39]

/-- Read a bulk string behind its type byte. -/
def readBulkString (bytes : Bytes) : Except ReadEnd (Value × Bytes) :=
  match readLine bytes with
  | .error e => .error e
  | .ok (line, rest) =>
      match parseInt64 line with
      | none => .error (malformed (goString "invalid bulk length"))
      | some length =>
          if length < -1 then .error (malformed (goString "invalid bulk length"))
          else if length = -1 then .ok (.nullBulkString, rest)
          else if (maxBulkLength : Int) < length then .error tooLarge
          else
            let n := length.toNat
            if rest.length < n + 2 then
              .error (malformed (goString "missing bulk terminator"))
            else if (rest.drop n).take 2 ≠ crlf then
              .error (malformed (goString "missing bulk CRLF"))
            else .ok (.bulkString (rest.take n), rest.drop (n + 2))

/-- Read a number of values, one after the other. -/
def readMany (read : Bytes → Except ReadEnd (Value × Bytes)) :
    Nat → Bytes → Except ReadEnd (List Value × Bytes)
  | 0, bytes => .ok ([], bytes)
  | n + 1, bytes =>
      match read bytes with
      | .error e => .error e
      | .ok (v, rest) =>
          match readMany read n rest with
          | .error e => .error e
          | .ok (vs, rest') => .ok (v :: vs, rest')

/-- Read a value that is a line behind its type byte. -/
def readLineValue (parse : GoString → Except ReadEnd Value) (bytes : Bytes) :
    Except ReadEnd (Value × Bytes) :=
  match readLine bytes with
  | .error e => .error e
  | .ok (line, rest) =>
      match parse line with
      | .error e => .error e
      | .ok v => .ok (v, rest)

def parseInteger (line : GoString) : Except ReadEnd Value :=
  match parseInt64 line with
  | none => .error (malformed (goString "invalid integer"))
  | some i => .ok (.integer i)

/-- Read an array behind its type byte; `read` reads its items. -/
def readArray (read : Bytes → Except ReadEnd (Value × Bytes)) (bytes : Bytes) :
    Except ReadEnd (Value × Bytes) :=
  match readLine bytes with
  | .error e => .error e
  | .ok (line, rest) =>
      match parseInt64 line with
      | none => .error (malformed (goString "invalid array length"))
      | some length =>
          if length < 0 then .error (malformed (goString "invalid array length"))
          else if (maxArrayLength : Int) < length then .error tooLarge
          else
            match readMany read length.toNat rest with
            | .error e => .error e
            | .ok (items, rest') => .ok (.array items, rest')

/--
Read one value.  Every level of nesting consumes a byte, so one unit of fuel for
each byte of the input is enough.
-/
def readValue : Nat → Bytes → Except ReadEnd (Value × Bytes)
  | 0, _ => .error .eof
  | _ + 1, [] => .error .eof
  | fuel + 1, kind :: rest =>
      if kind = 43 then readLineValue (fun line => .ok (.simpleString line)) rest
      else if kind = 45 then readLineValue (fun line => .ok (.error line)) rest
      else if kind = 58 then readLineValue parseInteger rest
      else if kind = 36 then readBulkString rest
      else if kind = 42 then readArray (readValue fuel) rest
      else .error (malformed (goString "unknown type byte " ++ quoteByte kind))

/-- Read values until a read returns none; one unit of fuel for each value. -/
def readLoop : Nat → Bytes → List Value × ReadEnd
  | 0, _ => ([], .eof)
  | fuel + 1, bytes =>
      match readValue (bytes.length + 1) bytes with
      | .error e => ([], e)
      | .ok (v, rest) => (v :: (readLoop fuel rest).1, (readLoop fuel rest).2)

/-- All values of an input, and how it ends. -/
def readAll (bytes : Bytes) : List Value × ReadEnd :=
  readLoop (bytes.length + 1) bytes

mutual

/-- The values that can be written safely. -/
def Value.Wire : Value → Prop
  | .simpleString s => 10 ∉ s ∧ s.length + 2 ≤ maxLineLength
  | .error s => 10 ∉ s ∧ s.length + 2 ≤ maxLineLength
  | .integer i => IsInt64 i
  | .nullBulkString => True
  | .bulkString s => s.length ≤ maxBulkLength
  | .array items => items.length ≤ maxArrayLength ∧ Value.WireAll items

def Value.WireAll : List Value → Prop
  | [] => True
  | v :: vs => v.Wire ∧ Value.WireAll vs

end

theorem Value.wireAll_iff
    (vs : List Value) :
    Value.WireAll vs ↔ ∀ v ∈ vs, v.Wire := by
  induction vs with
  | nil =>
      simp [Value.WireAll]
  | cons v vs ih =>
      simp [Value.WireAll, ih]

section RoundTrip

/-- A line without a line feed is read back. -/
theorem readLine_append
    {s : GoString}
    (hfeed : 10 ∉ s)
    (hlength : s.length + 2 ≤ maxLineLength)
    (rest : Bytes) :
    readLine (s ++ crlf ++ rest) = .ok (s, rest) := by
  have hbody : ∀ b ∈ s ++ [13], decide (b ≠ 10) = true := by
    intro b hb
    rcases List.mem_append.mp hb with hs | hr
    · exact decide_eq_true (fun h => hfeed (h ▸ hs))
    · rw [List.mem_singleton.mp hr]
      decide
  have hsplit : s ++ crlf ++ rest = (s ++ [13]) ++ (10 :: rest) := by
    simp [crlf]
  have htake : ((s ++ [13]) ++ (10 :: rest)).takeWhile (· ≠ 10) = s ++ [13] := by
    rw [List.takeWhile_append_of_pos hbody]
    simp
  have hdrop : ((s ++ [13]) ++ (10 :: rest)).dropWhile (· ≠ 10) = 10 :: rest := by
    rw [List.dropWhile_append_of_pos hbody]
    simp
  have hshort : ¬ maxLineLength < (s ++ [13]).length + 1 := by
    simp only [List.length_append, List.length_singleton]
    omega
  rw [hsplit, readLine, htake, hdrop]
  simp only [if_neg hshort]
  simp

theorem formatInt_line
    {i : Int}
    (h : IsInt64 i)
    (rest : Bytes) :
    readLine (formatInt i ++ crlf ++ rest) = .ok (formatInt i, rest) := by
  apply readLine_append
  · intro hfeed
    exact absurd (formatInt_bytes hfeed) (by decide)
  · have hlength := formatInt_length h
    unfold maxLineLength
    omega

theorem isInt64_ofNat
    {n : Nat}
    (h : n ≤ maxBulkLength) :
    IsInt64 (n : Int) := by
  unfold maxBulkLength at h
  constructor <;> omega

theorem writeValue_pos
    (v : Value) :
    0 < (writeValue v).length := by
  cases v <;> simp [writeValue]

theorem writeValues_append
    (vs ws : List Value) :
    writeValues (vs ++ ws) = writeValues vs ++ writeValues ws := by
  induction vs with
  | nil =>
      rfl
  | cons v vs ih =>
      rw [List.cons_append, writeValues, writeValues, ih, List.append_assoc]

theorem readBulkString_append
    {s : GoString}
    (h : s.length ≤ maxBulkLength)
    (rest : Bytes) :
    readBulkString (formatInt s.length ++ crlf ++ (s ++ crlf) ++ rest) =
      .ok (.bulkString s, rest) := by
  have hint := isInt64_ofNat h
  have hrest : s ++ crlf ++ rest = s ++ (crlf ++ rest) :=
    List.append_assoc _ _ _
  have htake : (s ++ (crlf ++ rest)).take s.length = s :=
    List.take_left
  have hend : ((s ++ (crlf ++ rest)).drop s.length).take 2 = crlf := by
    rw [List.drop_left]
    rfl
  have hdrop : (s ++ (crlf ++ rest)).drop (s.length + 2) = rest := by
    rw [← List.drop_drop, List.drop_left]
    rfl
  have hlong : ¬ (s ++ (crlf ++ rest)).length < s.length + 2 := by
    simp [crlf]
  rw [List.append_assoc, readBulkString, formatInt_line hint]
  simp only [parseInt64_formatInt hint]
  rw [if_neg (by omega), if_neg (by omega), if_neg (by omega), hrest]
  simp only [Int.toNat_natCast, if_neg hlong, hend, htake, hdrop, ne_eq,
    not_true_eq_false, if_false]

theorem readNullBulkString_append
    (rest : Bytes) :
    readBulkString ([45, 49] ++ crlf ++ rest) = .ok (.nullBulkString, rest) := by
  have hline : readLine ([45, 49] ++ crlf ++ rest) = .ok ([45, 49], rest) :=
    readLine_append (by decide) (by decide) rest
  have hparse : parseInt64 [45, 49] = some (-1) := by decide
  rw [readBulkString, hline]
  simp [hparse]

mutual

/-- A safe value is read back in front of any input. -/
theorem readValue_writeValue
    (v : Value) (fuel : Nat) (rest : Bytes)
    (hwire : v.Wire)
    (hfuel : (writeValue v).length ≤ fuel) :
    readValue fuel (writeValue v ++ rest) = .ok (v, rest) := by
  cases fuel with
  | zero =>
      have hpos := writeValue_pos v
      omega
  | succ fuel =>
      cases v with
      | simpleString s =>
          simp only [writeValue, List.cons_append, readValue, if_true, readLineValue]
          rw [readLine_append hwire.1 hwire.2]
      | error s =>
          simp only [writeValue, List.cons_append, readValue, readLineValue]
          rw [readLine_append hwire.1 hwire.2]
          rfl
      | integer i =>
          simp only [writeValue, List.cons_append, readValue, readLineValue]
          rw [formatInt_line hwire]
          simp [parseInteger, parseInt64_formatInt hwire]
      | nullBulkString =>
          have hread := readNullBulkString_append rest
          simp only [writeValue, List.cons_append, readValue] at hread ⊢
          exact hread
      | bulkString s =>
          have hread := readBulkString_append hwire rest
          simp only [writeValue, List.cons_append, readValue]
          exact hread
      | array items =>
          obtain ⟨hcount, hitems⟩ := hwire
          have hbound : items.length ≤ maxBulkLength := by
            unfold maxArrayLength at hcount
            unfold maxBulkLength
            omega
          have hint := isInt64_ofNat hbound
          have hless : (writeValues items).length ≤ fuel := by
            simp only [writeValue, List.length_cons, List.length_append] at hfuel
            omega
          have hmany := readMany_writeValues items fuel rest hitems hless
          simp only [writeValue, List.cons_append, readValue]
          show readArray (readValue fuel) _ = _
          rw [List.append_assoc, readArray, formatInt_line hint]
          simp only [parseInt64_formatInt hint]
          rw [if_neg (by omega), if_neg (by omega)]
          simp [hmany]

/-- Safe values are read back one after the other. -/
theorem readMany_writeValues
    (vs : List Value) (fuel : Nat) (rest : Bytes)
    (hwire : Value.WireAll vs)
    (hfuel : (writeValues vs).length ≤ fuel) :
    readMany (readValue fuel) vs.length (writeValues vs ++ rest) = .ok (vs, rest) := by
  cases vs with
  | nil =>
      rfl
  | cons v vs =>
      simp only [writeValues, List.length_append] at hfuel
      have hfirst := readValue_writeValue v fuel (writeValues vs ++ rest) hwire.1 (by omega)
      have hothers := readMany_writeValues vs fuel rest hwire.2 (by omega)
      rw [writeValues, List.append_assoc, List.length_cons, readMany, hfirst]
      simp [hothers]

end

/-- Written values are read back, up to the bytes behind them that are no value. -/
theorem readLoop_writeValues
    {p : Bytes} {e : ReadEnd}
    (hp : readValue (p.length + 1) p = .error e)
    (vs : List Value) :
    ∀ fuel : Nat,
      Value.WireAll vs → (writeValues vs ++ p).length < fuel →
      readLoop fuel (writeValues vs ++ p) = (vs, e) := by
  induction vs with
  | nil =>
      intro fuel _ hfuel
      cases fuel with
      | zero => omega
      | succ fuel =>
          rw [writeValues, List.nil_append, readLoop]
          simp only [hp]
  | cons v vs ih =>
      intro fuel hwire hfuel
      cases fuel with
      | zero => omega
      | succ fuel =>
          have hpos := writeValue_pos v
          rw [writeValues, List.append_assoc] at hfuel ⊢
          rw [List.length_append] at hfuel
          have hfirst := readValue_writeValue v
            ((writeValue v ++ (writeValues vs ++ p)).length + 1)
            (writeValues vs ++ p) hwire.1 (by rw [List.length_append]; omega)
          have hrest := ih fuel hwire.2 (by omega)
          rw [readLoop]
          simp only [hfirst, hrest]

end RoundTrip

section Accepted

theorem readLine_line
    {bytes rest : Bytes} {s : GoString}
    (h : readLine bytes = .ok (s, rest)) :
    10 ∉ s ∧ s.length + 2 ≤ maxLineLength := by
  unfold readLine at h
  dsimp only at h
  split at h
  · cases h
  · split_ifs at h with hlong hend
    cases h
    have hlast := not_not.mp hend
    constructor
    · intro hfeed
      have hmem := List.mem_takeWhile_imp (List.dropLast_subset _ hfeed)
      simp at hmem
    · have hpos : 0 < (bytes.takeWhile (· ≠ 10)).length := by
        rw [List.length_pos_iff]
        intro hnil
        rw [hnil] at hlast
        cases hlast
      rw [List.length_dropLast]
      omega

theorem parseInt64_range
    {s : GoString} {i : Int}
    (h : parseInt64 s = some i) :
    IsInt64 i := by
  unfold parseInt64 at h
  split at h
  · obtain ⟨n, _, hn⟩ := Option.bind_eq_some_iff.mp h
    split at hn
    · cases hn
      constructor <;> omega
    · cases hn
  · obtain ⟨n, _, hn⟩ := Option.bind_eq_some_iff.mp h
    split at hn
    · cases hn
      constructor <;> omega
    · cases hn

/-! What a read that returned a value has done. -/

theorem readLineValue_ok
    {parse : GoString → Except ReadEnd Value} {bytes rest : Bytes} {v : Value}
    (h : readLineValue parse bytes = .ok (v, rest)) :
    ∃ line, readLine bytes = .ok (line, rest) ∧ parse line = .ok v := by
  unfold readLineValue at h
  cases hline : readLine bytes with
  | error e =>
      simp [hline] at h
  | ok result =>
      obtain ⟨line, tail⟩ := result
      simp only [hline] at h
      cases hv : parse line with
      | error e =>
          simp [hv] at h
      | ok w =>
          simp only [hv, Except.ok.injEq, Prod.mk.injEq] at h
          obtain ⟨rfl, rfl⟩ := h
          exact ⟨line, rfl, hv⟩

theorem readBulkString_ok
    {bytes rest : Bytes} {v : Value}
    (h : readBulkString bytes = .ok (v, rest)) :
    ∃ line tail,
      readLine bytes = .ok (line, tail) ∧
      ((v = .nullBulkString ∧ rest = tail) ∨
        ∃ n ≤ maxBulkLength,
          n + 2 ≤ tail.length ∧
          v = .bulkString (tail.take n) ∧
          rest = tail.drop (n + 2)) := by
  unfold readBulkString at h
  cases hline : readLine bytes with
  | error e =>
      simp [hline] at h
  | ok result =>
      obtain ⟨line, tail⟩ := result
      refine ⟨line, tail, rfl, ?_⟩
      simp only [hline] at h
      cases hparse : parseInt64 line with
      | none =>
          simp [hparse] at h
      | some length =>
          simp only [hparse] at h
          split_ifs at h with hneg hnull hmax hshort hend
          · cases h
            exact Or.inl ⟨rfl, rfl⟩
          · cases h
            exact Or.inr ⟨length.toNat, by omega, by omega, rfl, rfl⟩

theorem readMany_succ_ok
    {read : Bytes → Except ReadEnd (Value × Bytes)} {n : Nat}
    {bytes rest : Bytes} {vs : List Value}
    (h : readMany read (n + 1) bytes = .ok (vs, rest)) :
    ∃ v tail others,
      read bytes = .ok (v, tail) ∧
      readMany read n tail = .ok (others, rest) ∧
      vs = v :: others := by
  rw [readMany] at h
  cases hfirst : read bytes with
  | error e =>
      simp [hfirst] at h
  | ok result =>
      obtain ⟨v, tail⟩ := result
      simp only [hfirst] at h
      cases hrest : readMany read n tail with
      | error e =>
          simp [hrest] at h
      | ok more =>
          obtain ⟨others, tail'⟩ := more
          simp only [hrest, Except.ok.injEq, Prod.mk.injEq] at h
          obtain ⟨rfl, rfl⟩ := h
          exact ⟨v, tail, others, rfl, hrest, rfl⟩

theorem readArray_ok
    {read : Bytes → Except ReadEnd (Value × Bytes)} {bytes rest : Bytes} {v : Value}
    (h : readArray read bytes = .ok (v, rest)) :
    ∃ line tail n items,
      readLine bytes = .ok (line, tail) ∧
      n ≤ maxArrayLength ∧
      readMany read n tail = .ok (items, rest) ∧
      v = .array items := by
  unfold readArray at h
  cases hline : readLine bytes with
  | error e =>
      simp [hline] at h
  | ok result =>
      obtain ⟨line, tail⟩ := result
      simp only [hline] at h
      cases hparse : parseInt64 line with
      | none =>
          simp [hparse] at h
      | some length =>
          simp only [hparse] at h
          split_ifs at h with hneg hmax
          cases hmany : readMany read length.toNat tail with
          | error e =>
              simp [hmany] at h
          | ok more =>
              obtain ⟨items, tail'⟩ := more
              simp only [hmany, Except.ok.injEq, Prod.mk.injEq] at h
              obtain ⟨rfl, rfl⟩ := h
              exact ⟨line, tail, _, items, rfl, by omega, hmany, rfl⟩

/-- A value is a line, a bulk string or an array behind its type byte. -/
theorem readValue_ok
    {fuel : Nat} {bytes rest : Bytes} {v : Value}
    (h : readValue (fuel + 1) bytes = .ok (v, rest)) :
    ∃ kind tail,
      bytes = kind :: tail ∧
      ((∃ line, readLine tail = .ok (line, rest) ∧
          (v = .simpleString line ∨ v = .error line ∨
            ∃ i, parseInt64 line = some i ∧ v = .integer i)) ∨
        readBulkString tail = .ok (v, rest) ∨
        readArray (readValue fuel) tail = .ok (v, rest)) := by
  cases bytes with
  | nil =>
      cases h
  | cons kind tail =>
      refine ⟨kind, tail, rfl, ?_⟩
      rw [readValue] at h
      split_ifs at h
      · obtain ⟨line, hline, hv⟩ := readLineValue_ok h
        cases hv
        exact Or.inl ⟨line, hline, Or.inl rfl⟩
      · obtain ⟨line, hline, hv⟩ := readLineValue_ok h
        cases hv
        exact Or.inl ⟨line, hline, Or.inr (Or.inl rfl)⟩
      · obtain ⟨line, hline, hv⟩ := readLineValue_ok h
        unfold parseInteger at hv
        cases hparse : parseInt64 line with
        | none =>
            simp [hparse] at hv
        | some i =>
            simp only [hparse, Except.ok.injEq] at hv
            exact Or.inl ⟨line, hline, Or.inr (Or.inr ⟨i, hparse, hv.symm⟩)⟩
      · exact Or.inr (Or.inl h)
      · exact Or.inr (Or.inr h)

theorem readMany_wire
    {read : Bytes → Except ReadEnd (Value × Bytes)}
    (hread : ∀ bytes v rest, read bytes = .ok (v, rest) → v.Wire) :
    ∀ (n : Nat) {bytes rest : Bytes} {vs : List Value},
      readMany read n bytes = .ok (vs, rest) →
      vs.length = n ∧ Value.WireAll vs := by
  intro n
  induction n with
  | zero =>
      intro _ _ _ h
      cases h
      exact ⟨rfl, trivial⟩
  | succ n ih =>
      intro bytes rest vs h
      obtain ⟨v, tail, others, hfirst, hrest, rfl⟩ := readMany_succ_ok h
      obtain ⟨hlength, hall⟩ := ih hrest
      exact ⟨by simp [hlength], hread bytes v tail hfirst, hall⟩

/-- Whatever the reader returns can be written safely. -/
theorem readValue_wire
    (fuel : Nat) :
    ∀ (bytes : Bytes) (v : Value) (rest : Bytes),
      readValue fuel bytes = .ok (v, rest) → v.Wire := by
  induction fuel with
  | zero =>
      intro bytes v rest h
      cases h
  | succ fuel ih =>
      intro bytes v rest h
      obtain ⟨kind, tail, rfl, ⟨line, hline, hv⟩ | hbulk | harray⟩ := readValue_ok h
      · have hwire := readLine_line hline
        rcases hv with rfl | rfl | ⟨i, hparse, rfl⟩
        · exact hwire
        · exact hwire
        · exact parseInt64_range hparse
      · obtain ⟨line, rest', _, ⟨rfl, _⟩ | ⟨n, hn, _, rfl, _⟩⟩ := readBulkString_ok hbulk
        · trivial
        · exact (List.length_take_le _ _).trans hn
      · obtain ⟨line, rest', n, items, _, hn, hmany, rfl⟩ := readArray_ok harray
        obtain ⟨hlength, hall⟩ := readMany_wire ih n hmany
        exact ⟨hlength.le.trans hn, hall⟩

end Accepted

end Moxy
