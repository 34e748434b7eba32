import Moxy.Lib.Decimal
import Moxy.Lib.RuneRange

/-!
# Strings and bytes in JSON texts

A JSON string is written between quotes.  Control characters, quotes, backslashes, the
characters with a meaning in HTML and the two line separators are escaped, and a byte that
is not UTF-8 becomes the escaped replacement character.  A byte slice is written as the
padded base64 text of its bytes.

A string without such characters is written as it is (`jsonBody_plain`), and four bytes
of base64 stand for each started group of three (`base64_length`).
-/

namespace Moxy
namespace Lib

/-- The ASCII characters that are written as they are. -/
def PlainByte (b : UInt8) : Prop :=
  (0x20 ≤ b.toNat ∧ b.toNat < 0x80) ∧
    b ≠ 34 ∧ b ≠ 92 ∧ b ≠ 38 ∧ b ≠ 60 ∧ b ≠ 62

instance (b : UInt8) : Decidable (PlainByte b) :=
  inferInstanceAs (Decidable (_ ∧ _))

/-- An ASCII character inside a string. -/
def escapeByte (b : UInt8) : List UInt8 :=
  if PlainByte b then [b]
  else if b = 34 ∨ b = 92 then [92, b]
  else if b = 8 then [92, 98]
  else if b = 12 then [92, 102]
  else if b = 10 then [92, 110]
  else if b = 13 then [92, 114]
  else if b = 9 then [92, 116]
  else [92, 117, 48, 48, hexDigit (b.toNat / 16), hexDigit (b.toNat % 16)]

/-- The first rune of a string that does not start with ASCII. -/
def escapeSequence (b : UInt8) (rest : List UInt8) : List UInt8 :=
  let (r, width) := decodeRune b rest
  if r = runeError ∧ width = 1 then [92, 117, 102, 102, 102, 100]
  else if r = 0x2028 ∨ r = 0x2029 then [92, 117, 50, 48, 50, hexDigit (r % 16)]
  else (b :: rest).take width

/-- The characters of a string between its quotes. -/
def jsonBody : List UInt8 → List UInt8
  | [] => []
  | b :: rest =>
      if b.toNat < 0x80 then escapeByte b ++ jsonBody rest
      else escapeSequence b rest ++ jsonBody (rest.drop ((decodeRune b rest).2 - 1))
termination_by s => s.length
decreasing_by
  · rw [List.length_cons]
    omega
  · rw [List.length_drop, List.length_cons]
    omega

/-- A string. -/
def jsonString (s : List UInt8) : List UInt8 :=
  34 :: (jsonBody s ++ [34])

/-- The byte of a base64 digit. -/
def base64Digit (d : Nat) : UInt8 :=
  UInt8.ofNat
    (if d < 26 then 65 + d
    else if d < 52 then 71 + d
    else if d < 62 then d - 4
    else if d = 62 then 43
    else 47)

/-- Bytes in base64, padded. -/
def base64 : List UInt8 → List UInt8
  | [] => []
  | [a] => [base64Digit (a.toNat / 4), base64Digit (a.toNat % 4 * 16), 61, 61]
  | [a, b] =>
      [base64Digit (a.toNat / 4), base64Digit (a.toNat % 4 * 16 + b.toNat / 16),
        base64Digit (b.toNat % 16 * 4), 61]
  | a :: b :: c :: rest =>
      base64Digit (a.toNat / 4) :: base64Digit (a.toNat % 4 * 16 + b.toNat / 16) ::
        base64Digit (b.toNat % 16 * 4 + c.toNat / 64) :: base64Digit (c.toNat % 64) ::
        base64 rest

/-- A byte slice. -/
def jsonBytes (bytes : List UInt8) : List UInt8 :=
  34 :: (base64 bytes ++ [34])

theorem base64_length
    (bytes : List UInt8) :
    (base64 bytes).length = 4 * ((bytes.length + 2) / 3) := by
  fun_induction base64 bytes with
  | case1 => rfl
  | case2 | case3 => simp only [List.length_cons, List.length_nil]
  | case4 a b c rest ih =>
      simp only [List.length_cons, ih]
      omega

example : base64 [77, 111, 120, 121] = [84, 87, 57, 52, 101, 81, 61, 61] := by decide

theorem jsonBody_plain
    (s : List UInt8) (h : ∀ b ∈ s, PlainByte b) :
    jsonBody s = s := by
  induction s with
  | nil => rw [jsonBody]
  | cons b rest ih =>
      have hb := h b List.mem_cons_self
      rw [jsonBody, if_pos hb.1.2, escapeByte, if_pos hb,
        ih (fun c hc => h c (List.mem_cons_of_mem _ hc))]
      rfl

theorem jsonString_length
    {s : List UInt8}
    (h : ∀ b ∈ s, PlainByte b) :
    (jsonString s).length = s.length + 2 := by
  rw [jsonString, jsonBody_plain s h, List.length_cons, List.length_append]
  rfl

theorem jsonBytes_length
    (bytes : List UInt8) :
    (jsonBytes bytes).length = 4 * ((bytes.length + 2) / 3) + 2 := by
  rw [jsonBytes, List.length_cons, List.length_append, base64_length]
  rfl

end Lib
end Moxy
