import Mathlib.Algebra.Group.Nat.Defs
import Mathlib.Data.List.GetD

/-!
# Fixed-width words and checksums in byte strings

Two ingredients of framed byte formats: 32-bit words in little-endian order, and
the reflected CRC-32 with the IEEE polynomial.

A word is a natural number; writing it keeps its value modulo `2 ^ 32`.

Both detect the change of a single byte: a word is a number in base 256
(`uint32_set_ne`), and a step of the division can be undone, so a difference in the
remainder never goes away (`checksumIEEE_set_ne`).
-/

namespace Moxy
namespace Lib

/-- The four bytes of a word, least significant byte first. -/
def putUint32 (v : Nat) : List UInt8 :=
  [UInt8.ofNat v, UInt8.ofNat (v / 256), UInt8.ofNat (v / 65536),
    UInt8.ofNat (v / 16777216)]

/-- The word that the first four bytes hold; missing bytes count as zero. -/
def uint32 (bytes : List UInt8) : Nat :=
  (bytes.getD 0 0).toNat + 256 * (bytes.getD 1 0).toNat +
    65536 * (bytes.getD 2 0).toNat + 16777216 * (bytes.getD 3 0).toNat

@[simp] theorem putUint32_length
    (v : Nat) :
    (putUint32 v).length = 4 :=
  rfl

/-- A word is read back from any byte string that starts with it. -/
theorem uint32_putUint32
    {v : Nat}
    (h : v < 2 ^ 32)
    (rest : List UInt8) :
    uint32 (putUint32 v ++ rest) = v := by
  simp only [uint32, putUint32, List.cons_append, List.getD_cons_zero,
    List.getD_cons_succ, UInt8.toNat_ofNat']
  omega

@[simp] theorem drop_putUint32
    (v : Nat) (rest : List UInt8) :
    (putUint32 v ++ rest).drop 4 = rest :=
  rfl

/-- Only the first four bytes count. -/
theorem uint32_append
    {bytes : List UInt8}
    (h : 4 ≤ bytes.length)
    (rest : List UInt8) :
    uint32 (bytes ++ rest) = uint32 bytes := by
  have hget : ∀ i < 4, (bytes ++ rest).getD i 0 = bytes.getD i 0 := by
    intro i hi
    exact List.getD_append _ _ _ _ (by omega)
  simp only [uint32, hget 0 (by omega), hget 1 (by omega), hget 2 (by omega),
    hget 3 (by omega)]

theorem uint32_take
    {bytes : List UInt8} {n : Nat}
    (hn : 4 ≤ n)
    (h : n ≤ bytes.length) :
    uint32 (bytes.take n) = uint32 bytes := by
  have hlen : 4 ≤ (bytes.take n).length := by
    rw [List.length_take]
    omega
  rw [← uint32_append hlen (bytes.drop n), List.take_append_drop]

/-- A word whose bytes differ in one place is a different number. -/
theorem uint32_set_ne
    {bytes : List UInt8} {j : Nat} {old new : UInt8}
    (hlength : bytes.length = 4)
    (hold : bytes[j]? = some old)
    (hnew : new ≠ old) :
    uint32 (bytes.set j new) ≠ uint32 bytes := by
  have hne : new.toNat ≠ old.toNat := fun h => hnew (UInt8.toNat_inj.mp h)
  match bytes, hlength, j with
  | [a, b, c, d], _, 0 | [a, b, c, d], _, 1 | [a, b, c, d], _, 2 | [a, b, c, d], _, 3 =>
      cases hold
      simp only [List.set_cons_zero, List.set_cons_succ, uint32, List.getD_cons_zero,
        List.getD_cons_succ]
      omega
  | [a, b, c, d], _, j + 4 =>
      simp at hold

/-- One bit of the reflected division by the IEEE polynomial. -/
def crcBit (crc : UInt32) : UInt32 :=
  if crc &&& 1 = 1 then (crc >>> 1) ^^^ 0xEDB88320 else crc >>> 1

/-- Eight bits of the division: one byte enters the remainder. -/
def crcByte (crc : UInt32) (byte : UInt8) : UInt32 :=
  Nat.repeat crcBit 8 (crc ^^^ byte.toUInt32)

/-- The IEEE checksum of a byte string. -/
def checksumIEEE (bytes : List UInt8) : UInt32 :=
  bytes.foldl crcByte 0xFFFFFFFF ^^^ 0xFFFFFFFF

section Detection

theorem toNat_shiftRight_one
    (x : UInt32) :
    (x >>> 1).toNat = x.toNat / 2 := by
  simp [UInt32.toNat_shiftRight, Nat.shiftRight_eq_div_pow]

/-- A shifted word has its highest bit clear, and the polynomial has it set. -/
theorem shiftRight_xor_ne_polynomial
    (x y : UInt32) :
    (x >>> 1) ^^^ (0xEDB88320 : UInt32) ≠ y >>> 1 := by
  intro h
  have hhalf : ∀ z : UInt32, (z >>> 1).toNat < 2 ^ 31 := by
    intro z
    have hz := z.toNat_lt
    rw [toNat_shiftRight_one]
    omega
  have hpoly : (x >>> 1) ^^^ (y >>> 1) = 0xEDB88320 := by
    rw [← h, ← UInt32.xor_assoc, UInt32.xor_self, UInt32.zero_xor]
  have hlow := Nat.xor_lt_two_pow (hhalf x) (hhalf y)
  rw [← UInt32.toNat_xor, hpoly] at hlow
  exact absurd hlow (by decide)

/-- A word is determined by its lowest bit and the others. -/
theorem eq_of_shiftRight_eq
    {x y : UInt32}
    (hbit : x &&& 1 = 1 ↔ y &&& 1 = 1)
    (hshift : x >>> 1 = y >>> 1) :
    x = y := by
  have hlow : ∀ z : UInt32, z &&& 1 = 1 ↔ z.toNat % 2 = 1 := by
    intro z
    rw [← UInt32.toNat_inj, UInt32.toNat_and]
    simp [Nat.and_one_is_mod]
  have hhalves : x.toNat / 2 = y.toNat / 2 := by
    rw [← toNat_shiftRight_one, ← toNat_shiftRight_one, hshift]
  rw [hlow, hlow] at hbit
  exact UInt32.toNat_inj.mp (by omega)

/-- One bit of the division can be undone. -/
theorem crcBit_injective :
    Function.Injective crcBit := by
  intro x y h
  unfold crcBit at h
  split at h
  · rename_i hx
    split at h
    · rename_i hy
      exact eq_of_shiftRight_eq (by simp [hx, hy]) ((UInt32.xor_left_inj _).mp h)
    · exact absurd h (shiftRight_xor_ne_polynomial x y)
  · rename_i hx
    split at h
    · exact absurd h.symm (shiftRight_xor_ne_polynomial y x)
    · rename_i hy
      exact eq_of_shiftRight_eq (by simp [hx, hy]) h

theorem repeat_crcBit_injective
    (n : Nat) :
    Function.Injective (Nat.repeat crcBit n) := by
  induction n with
  | zero =>
      exact fun _ _ h => h
  | succ n ih =>
      exact fun _ _ h => ih (crcBit_injective h)

theorem crcByte_injective_left
    (byte : UInt8) :
    Function.Injective (fun crc => crcByte crc byte) :=
  fun _ _ h => (UInt32.xor_left_inj _).mp (repeat_crcBit_injective 8 h)

theorem crcByte_injective_right
    (crc : UInt32) :
    Function.Injective (crcByte crc) :=
  fun _ _ h => UInt8.toUInt32_inj.mp ((UInt32.xor_right_inj _).mp (repeat_crcBit_injective 8 h))

/-- Bytes that follow do not make different remainders equal. -/
theorem foldl_crcByte_injective
    (bytes : List UInt8) :
    Function.Injective (fun crc => bytes.foldl crcByte crc) := by
  induction bytes with
  | nil =>
      exact fun _ _ h => h
  | cons byte bytes ih =>
      exact fun _ _ h => crcByte_injective_left byte (ih h)

theorem checksumIEEE_middle_ne
    {old new : UInt8} (before after : List UInt8)
    (hnew : new ≠ old) :
    checksumIEEE (before ++ new :: after) ≠ checksumIEEE (before ++ old :: after) := by
  intro h
  have hfold := (UInt32.xor_left_inj _).mp h
  rw [List.foldl_append, List.foldl_append, List.foldl_cons, List.foldl_cons] at hfold
  exact hnew (crcByte_injective_right _ (foldl_crcByte_injective after hfold))

/-- Byte strings that differ in one place have different checksums. -/
theorem checksumIEEE_set_ne
    {bytes : List UInt8} {j : Nat} {old new : UInt8}
    (hold : bytes[j]? = some old)
    (hnew : new ≠ old) :
    checksumIEEE (bytes.set j new) ≠ checksumIEEE bytes := by
  obtain ⟨hj, hget⟩ := List.getElem?_eq_some_iff.mp hold
  have hbytes : bytes.take j ++ old :: bytes.drop (j + 1) = bytes := by
    rw [← hget, List.getElem_cons_drop, List.take_append_drop]
  have hne := checksumIEEE_middle_ne (bytes.take j) (bytes.drop (j + 1)) hnew
  rw [hbytes] at hne
  rw [List.set_eq_take_append_cons_drop, if_pos hj]
  exact hne

end Detection

-- The check value of the algorithm: the checksum of the nine ASCII digits 1 to 9.
example : checksumIEEE [49, 50, 51, 52, 53, 54, 55, 56, 57] = 0xCBF43926 := by
  decide +kernel

end Lib
end Moxy
