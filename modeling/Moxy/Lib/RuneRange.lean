import Mathlib.Data.List.Basic

/-!
# The runes of a byte string

A string is a byte sequence without any encoding promise.  Ranging over it decodes UTF-8:
a byte below `0x80` stands for itself, a well-formed sequence of two to four bytes is one
rune, and a byte that starts no well-formed sequence is the rune `0xFFFD` of width one.

No byte from `0x80` on takes part in a rune below `0x80` (`decodeSequence_high`).  So a test
that accepts only ASCII can be made on the bytes (`all_runes`).
-/

namespace Moxy
namespace Lib

/-- The rune in the place of a byte that is not UTF-8. -/
def runeError : Nat :=
  0xFFFD

/-- How many bytes follow a lead byte, and the range of the first of them. -/
def leadByte (b : Nat) : Option (Nat × Nat × Nat) :=
  if 0xC2 ≤ b ∧ b ≤ 0xDF then some (1, 0x80, 0xBF)
  else if b = 0xE0 then some (2, 0xA0, 0xBF)
  else if b = 0xED then some (2, 0x80, 0x9F)
  else if 0xE1 ≤ b ∧ b ≤ 0xEF then some (2, 0x80, 0xBF)
  else if b = 0xF0 then some (3, 0x90, 0xBF)
  else if 0xF1 ≤ b ∧ b ≤ 0xF3 then some (3, 0x80, 0xBF)
  else if b = 0xF4 then some (3, 0x80, 0x8F)
  else none

/-- A byte that continues a sequence. -/
def Continues (b : UInt8) : Prop :=
  0x80 ≤ b.toNat ∧ b.toNat ≤ 0xBF

instance (b : UInt8) : Decidable (Continues b) :=
  inferInstanceAs (Decidable (_ ∧ _))

/-- The rune of a sequence with the lead byte `b`, and its width. -/
def decodeSequence (b : UInt8) (rest : List UInt8) : Nat × Nat :=
  match leadByte b.toNat, rest with
  | some (1, low, high), b₁ :: _ =>
      if low ≤ b₁.toNat ∧ b₁.toNat ≤ high then
        (b.toNat % 32 * 64 + b₁.toNat % 64, 2)
      else (runeError, 1)
  | some (2, low, high), b₁ :: b₂ :: _ =>
      if (low ≤ b₁.toNat ∧ b₁.toNat ≤ high) ∧ Continues b₂ then
        (b.toNat % 16 * 4096 + b₁.toNat % 64 * 64 + b₂.toNat % 64, 3)
      else (runeError, 1)
  | some (3, low, high), b₁ :: b₂ :: b₃ :: _ =>
      if (low ≤ b₁.toNat ∧ b₁.toNat ≤ high) ∧ Continues b₂ ∧ Continues b₃ then
        (b.toNat % 8 * 262144 + b₁.toNat % 64 * 4096 + b₂.toNat % 64 * 64 +
          b₃.toNat % 64, 4)
      else (runeError, 1)
  | _, _ => (runeError, 1)

/-- The first rune and its width. -/
def decodeRune (b : UInt8) (rest : List UInt8) : Nat × Nat :=
  if b.toNat < 0x80 then (b.toNat, 1) else decodeSequence b rest

/-- The runes of a string, in order. -/
def runes : List UInt8 → List Nat
  | [] => []
  | b :: rest =>
      (decodeRune b rest).1 :: runes (rest.drop ((decodeRune b rest).2 - 1))
termination_by s => s.length
decreasing_by
  rw [List.length_drop, List.length_cons]
  omega

/-- Overlong sequences are not decoded. -/
theorem leadByte_bounds
    {b more low high : Nat}
    (h : leadByte b = some (more, low, high)) :
    high ≤ 0xBF ∧
    (more = 1 → 0xC2 ≤ b ∧ b ≤ 0xDF) ∧
    (more = 2 → 0xE0 ≤ b ∧ b ≤ 0xEF ∧ (b = 0xE0 → 0xA0 ≤ low)) ∧
    (more = 3 → 0xF0 ≤ b ∧ b ≤ 0xF4 ∧ (b = 0xF0 → 0x90 ≤ low)) := by
  rw [leadByte] at h
  split_ifs at h <;> cases h <;> omega

theorem decodeSequence_high
    (b : UInt8) (rest : List UInt8) :
    0x80 ≤ (decodeSequence b rest).1 := by
  have herror : 0x80 ≤ runeError := by decide
  fun_cases decodeSequence b rest with
  | case1 low high b₁ _ hlead =>
      obtain ⟨_, hbounds, _, _⟩ := leadByte_bounds hlead
      have hb := hbounds rfl
      show 0x80 ≤ b.toNat % 32 * 64 + b₁.toNat % 64
      omega
  | case3 low high b₁ b₂ _ hlead hrange =>
      obtain ⟨_, _, hbounds, _⟩ := leadByte_bounds hlead
      have hb := hbounds rfl
      show 0x80 ≤ b.toNat % 16 * 4096 + b₁.toNat % 64 * 64 + b₂.toNat % 64
      omega
  | case5 low high b₁ b₂ b₃ _ hlead hrange =>
      obtain ⟨_, _, _, hbounds⟩ := leadByte_bounds hlead
      have hb := hbounds rfl
      show 0x80 ≤ b.toNat % 8 * 262144 + b₁.toNat % 64 * 4096 + b₂.toNat % 64 * 64 +
        b₃.toNat % 64
      omega
  | case2 | case4 | case6 | case7 => exact herror

/-- A test that accepts only ASCII runes is a test of the bytes. -/
theorem all_runes
    {p : Nat → Bool} (hascii : ∀ r, p r = true → r < 0x80) (s : List UInt8) :
    (runes s).all p = s.all (fun b => p b.toNat) := by
  have hreject : ∀ r, 0x80 ≤ r → p r = false := by
    intro r hr
    by_contra hp
    have := hascii r (by simpa using hp)
    omega
  fun_induction runes s with
  | case1 => rfl
  | case2 b rest ih =>
      by_cases h : b.toNat < 0x80
      · have hrune : decodeRune b rest = (b.toNat, 1) := if_pos h
        rw [hrune] at ih ⊢
        rw [List.all_cons, List.all_cons, ih]
        rfl
      · have hrune : decodeRune b rest = decodeSequence b rest := if_neg h
        rw [List.all_cons, List.all_cons, hrune, hreject _ (decodeSequence_high b rest),
          hreject _ (Nat.le_of_not_lt h)]
        rfl

end Lib
end Moxy
