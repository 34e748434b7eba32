import Mathlib.Algebra.Group.Int.Defs
import Mathlib.Algebra.Group.Nat.Defs
import Mathlib.Data.Option.Basic

/-!
# Numerals in byte strings

Digits as bytes, writing integers in base ten, and reading signed 64-bit integers: an
optional sign, at least one digit, nothing else, and a value in range.

`parseInt64_formatInt` is the round trip.  `formatInt_bytes` and
`formatInt_length` say what a numeral looks like, for formats that put one on a
line of bounded length.
-/

namespace Moxy
namespace Lib

/-- The byte of a digit. -/
def digitByte (d : Nat) : UInt8 :=
  UInt8.ofNat (48 + d)

/-- The byte of a lower-case hexadecimal digit. -/
def hexDigit (d : Nat) : UInt8 :=
  if d < 10 then digitByte d else UInt8.ofNat (87 + d)

/-- The digits of a number, most significant first; one unit of fuel for each. -/
def digitsFuel : Nat → Nat → List UInt8
  | 0, _ => []
  | fuel + 1, n =>
      if n < 10 then [digitByte n]
      else digitsFuel fuel (n / 10) ++ [digitByte (n % 10)]

/-- A natural number in base ten. -/
def formatNat (n : Nat) : List UInt8 :=
  digitsFuel (n + 1) n

/-- An integer in base ten. -/
def formatInt (i : Int) : List UInt8 :=
  if i < 0 then 45 :: formatNat i.natAbs else formatNat i.natAbs

/-- Read digits only. -/
def parseDigits : List UInt8 → Nat → Option Nat
  | [], acc => some acc
  | b :: rest, acc =>
      if 48 ≤ b.toNat ∧ b.toNat ≤ 57 then
        parseDigits rest (acc * 10 + (b.toNat - 48))
      else none

/-- Read at least one digit. -/
def parseNat (bytes : List UInt8) : Option Nat :=
  if bytes = [] then none else parseDigits bytes 0

/-- Read a signed integer of 64 bits in base ten. -/
def parseInt64 (bytes : List UInt8) : Option Int :=
  if bytes.head? = some 45 then
    (parseNat bytes.tail).bind
      (fun n => if n ≤ 2 ^ 63 then some (-(n : Int)) else none)
  else
    (parseNat (if bytes.head? = some 43 then bytes.tail else bytes)).bind
      (fun n => if n < 2 ^ 63 then some (n : Int) else none)

theorem digitByte_toNat
    {d : Nat}
    (h : d < 10) :
    (digitByte d).toNat = 48 + d := by
  simp only [digitByte, UInt8.toNat_ofNat']
  omega

theorem parseDigits_append_digit
    {d : Nat}
    (h : d < 10) :
    ∀ (bytes : List UInt8) (acc : Nat),
      parseDigits (bytes ++ [digitByte d]) acc =
        (parseDigits bytes acc).map (fun n => n * 10 + d) := by
  intro bytes
  induction bytes with
  | nil =>
      intro acc
      have hd := digitByte_toNat h
      simp only [List.nil_append, parseDigits, hd, Option.map_some]
      rw [if_pos (by omega), Nat.add_sub_cancel_left]
  | cons b rest ih =>
      intro acc
      simp only [List.cons_append, parseDigits]
      split
      · exact ih _
      · rfl

theorem parseDigits_digitsFuel
    {fuel n : Nat}
    (h : n < fuel) :
    parseDigits (digitsFuel fuel n) 0 = some n := by
  induction fuel generalizing n with
  | zero =>
      omega
  | succ fuel ih =>
      rw [digitsFuel]
      split
      · rename_i hsmall
        have hdigit := parseDigits_append_digit hsmall [] 0
        simpa [parseDigits] using hdigit
      · rw [parseDigits_append_digit (by omega), ih (by omega)]
        simp only [Option.map_some, Option.some.injEq]
        omega

theorem digitsFuel_ne_nil
    (fuel n : Nat) :
    digitsFuel (fuel + 1) n ≠ [] := by
  rw [digitsFuel]
  split <;> simp

theorem parseNat_formatNat
    (n : Nat) :
    parseNat (formatNat n) = some n := by
  rw [parseNat, formatNat, if_neg (digitsFuel_ne_nil n n)]
  exact parseDigits_digitsFuel (Nat.lt_succ_self n)

/-- A numeral without sign consists of digits. -/
theorem digitsFuel_bytes
    {fuel n : Nat} {b : UInt8}
    (h : b ∈ digitsFuel fuel n) :
    48 ≤ b.toNat ∧ b.toNat ≤ 57 := by
  induction fuel generalizing n with
  | zero =>
      simp [digitsFuel] at h
  | succ fuel ih =>
      rw [digitsFuel] at h
      split at h
      · rename_i hsmall
        rw [List.mem_singleton.mp h, digitByte_toNat hsmall]
        omega
      · rcases List.mem_append.mp h with hrest | hlast
        · exact ih hrest
        · rw [List.mem_singleton.mp hlast, digitByte_toNat (by omega)]
          omega

theorem digitsFuel_length
    {fuel n k : Nat}
    (h : n < 10 ^ (k + 1)) :
    (digitsFuel fuel n).length ≤ k + 1 := by
  induction fuel generalizing n k with
  | zero =>
      simp [digitsFuel]
  | succ fuel ih =>
      rw [digitsFuel]
      split
      · simp
      · cases k with
        | zero =>
            omega
        | succ k =>
            have hquotient : n / 10 < 10 ^ (k + 1) := by
              rw [Nat.pow_succ] at h
              omega
            rw [List.length_append, List.length_singleton]
            have hlength := ih hquotient
            omega

theorem formatNat_head
    (n : Nat) :
    (formatNat n).head? ≠ some 45 ∧ (formatNat n).head? ≠ some 43 := by
  constructor
  · intro h
    have hb := digitsFuel_bytes (List.mem_of_mem_head? h)
    exact absurd hb (by decide)
  · intro h
    have hb := digitsFuel_bytes (List.mem_of_mem_head? h)
    exact absurd hb (by decide)

/-- The range of signed 64-bit integers. -/
def IsInt64 (i : Int) : Prop :=
  -2 ^ 63 ≤ i ∧ i < 2 ^ 63

/-- What was written is read back. -/
theorem parseInt64_formatInt
    {i : Int}
    (h : IsInt64 i) :
    parseInt64 (formatInt i) = some i := by
  obtain ⟨hlow, hhigh⟩ := h
  unfold formatInt parseInt64
  split
  · simp only [List.head?_cons, if_true, List.tail_cons, parseNat_formatNat,
      Option.bind_some]
    rw [if_pos (by omega), Option.some.injEq]
    omega
  · obtain ⟨hminus, hplus⟩ := formatNat_head i.natAbs
    simp only [if_neg hminus, if_neg hplus, parseNat_formatNat, Option.bind_some]
    rw [if_pos (by omega), Option.some.injEq]
    omega

/-- A numeral consists of digits and a minus sign. -/
theorem formatInt_bytes
    {i : Int} {b : UInt8}
    (h : b ∈ formatInt i) :
    45 ≤ b.toNat ∧ b.toNat ≤ 57 := by
  have hdigits : b ∈ formatNat i.natAbs → 45 ≤ b.toNat ∧ b.toNat ≤ 57 := by
    intro hb
    have hrange := digitsFuel_bytes hb
    omega
  unfold formatInt at h
  split at h
  · rcases List.mem_cons.mp h with rfl | hb
    · decide
    · exact hdigits hb
  · exact hdigits h

theorem formatInt_length
    {i : Int}
    (h : IsInt64 i) :
    (formatInt i).length ≤ 20 := by
  obtain ⟨hlow, hhigh⟩ := h
  have hsize : i.natAbs < 10 ^ (18 + 1) := by
    omega
  have hlength := @digitsFuel_length (i.natAbs + 1) i.natAbs 18 hsize
  unfold formatInt formatNat
  split
  · rw [List.length_cons]
    omega
  · omega

end Lib
end Moxy
