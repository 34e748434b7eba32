import Mathlib.Data.List.DropRight
import Moxy.Lib.Decimal

/-!
# Instants in the format of RFC 3339

An instant is a number of nanoseconds since the beginning of 1970, and a zone is an offset
in seconds.  `formatTime` writes the date and the time of day of an instant in a zone, a
fraction without its trailing zeros, and the zone.  It fails if the year does not have four
digits or the offset reaches a day.

`formatTime_ok` says that it does not fail otherwise, and `timeText_length` that 35 bytes
are enough.
-/

namespace Moxy
namespace Lib

/-- An integer in base ten, with leading zeros up to a width. -/
def padInt (width : Nat) (i : Int) : List UInt8 :=
  (if i < 0 then [45] else []) ++
    (List.replicate (width - (formatNat i.natAbs).length) 48 ++ formatNat i.natAbs)

/-- A day of the Gregorian calendar. -/
structure CivilDate where
  year : Int
  month : Int
  day : Int
deriving DecidableEq, Repr

/--
The date of a day, counted from the beginning of 1970.  The years are taken to begin in
March, in eras of 400 years.
-/
def civilDate (days : Int) : CivilDate :=
  let shifted := days + 719468
  let era := shifted / 146097
  let dayOfEra := shifted % 146097
  let yearOfEra :=
    (dayOfEra - dayOfEra / 1460 + dayOfEra / 36524 - dayOfEra / 146096) / 365
  let dayOfYear := dayOfEra - (365 * yearOfEra + yearOfEra / 4 - yearOfEra / 100)
  let monthOfYear := (5 * dayOfYear + 2) / 153
  let month := if monthOfYear < 10 then monthOfYear + 3 else monthOfYear - 9
  { year := yearOfEra + era * 400 + (if month ≤ 2 then 1 else 0)
    month := month
    day := dayOfYear - (153 * monthOfYear + 2) / 5 + 1 }

/-- Nanoseconds of a second. -/
def second : Int :=
  1000000000

/-- Nanoseconds of a day. -/
def dayLength : Int :=
  86400 * second

/-- An instant as a clock in a zone shows it. -/
def localTime (offset t : Int) : Int :=
  t + offset * second

/-- The date of an instant in a zone. -/
def localDate (offset t : Int) : CivilDate :=
  civilDate (localTime offset t / dayLength)

/-- Hours, minutes and seconds. -/
def clockText (secondOfDay : Int) : List UInt8 :=
  padInt 2 (secondOfDay / 3600) ++ 58 :: (padInt 2 (secondOfDay % 3600 / 60) ++
    58 :: padInt 2 (secondOfDay % 60))

/-- A fraction of a second without trailing zeros; nothing for a whole second. -/
def fractionText (nanoseconds : Int) : List UInt8 :=
  if nanoseconds = 0 then [] else 46 :: (padInt 9 nanoseconds).rdropWhile (· == 48)

/-- Whole minutes of an offset. -/
def zoneMinutes (offset : Int) : Int :=
  offset.tdiv 60

def zoneText (offset : Int) : List UInt8 :=
  if offset = 0 then [90]
  else
    (if zoneMinutes offset < 0 then 45 else 43) ::
      (padInt 2 ((zoneMinutes offset).natAbs / 60 : Nat) ++
        58 :: padInt 2 ((zoneMinutes offset).natAbs % 60 : Nat))

def dateText (date : CivilDate) : List UInt8 :=
  padInt 4 date.year ++ 45 :: (padInt 2 date.month ++ 45 :: padInt 2 date.day)

/-- The date, the time of day and the zone. -/
def timeText (offset t : Int) : List UInt8 :=
  let nanoOfDay := localTime offset t % dayLength
  dateText (localDate offset t) ++ 84 :: (clockText (nanoOfDay / second) ++
    (fractionText (nanoOfDay % second) ++ zoneText offset))

/-- Why an instant cannot be written. -/
inductive TimeError where
  | yearOutsideRange
  | zoneOutsideRange
deriving DecidableEq, Repr

/-- The text of an instant in a zone, if it has the format. -/
def formatTime (offset t : Int) : Except TimeError (List UInt8) :=
  let date := localDate offset t
  if date.year < 0 ∨ 9999 < date.year then .error .yearOutsideRange
  else if 24 ≤ (zoneMinutes offset).natAbs / 60 then .error .zoneOutsideRange
  else .ok (timeText offset t)

section Length

theorem padInt_length
    {width : Nat} {i : Int}
    (hlow : 0 ≤ i)
    (hhigh : i < 10 ^ (width + 1)) :
    (padInt (width + 1) i).length = width + 1 := by
  obtain ⟨n, rfl⟩ := Int.eq_ofNat_of_zero_le hlow
  have hsmall : n < 10 ^ (width + 1) := by exact_mod_cast hhigh
  have hdigits : (formatNat n).length ≤ width + 1 := digitsFuel_length hsmall
  rw [padInt, if_neg (by omega), List.nil_append, List.length_append, List.length_replicate,
    Int.natAbs_natCast]
  omega

theorem civilDate_bounds
    (days : Int) :
    (1 ≤ (civilDate days).month ∧ (civilDate days).month ≤ 12) ∧
    1 ≤ (civilDate days).day ∧ (civilDate days).day ≤ 31 := by
  simp only [civilDate]
  omega

example : civilDate 11016 = ⟨2000, 2, 29⟩ := by decide
example : civilDate (-719162) = ⟨1, 1, 1⟩ := by decide

theorem dateText_length
    {date : CivilDate}
    (hyear : 0 ≤ date.year ∧ date.year ≤ 9999)
    (hmonth : 1 ≤ date.month ∧ date.month ≤ 12)
    (hday : 1 ≤ date.day ∧ date.day ≤ 31) :
    (dateText date).length = 10 := by
  have hy : (padInt 4 date.year).length = 4 := padInt_length hyear.1 (by omega)
  have hm : (padInt 2 date.month).length = 2 := padInt_length (by omega) (by omega)
  have hd : (padInt 2 date.day).length = 2 := padInt_length (by omega) (by omega)
  simp only [dateText, List.length_append, List.length_cons, hy, hm, hd]

theorem clockText_length
    {secondOfDay : Int}
    (h : 0 ≤ secondOfDay ∧ secondOfDay < 86400) :
    (clockText secondOfDay).length = 8 := by
  have hhour : (padInt 2 (secondOfDay / 3600)).length = 2 :=
    padInt_length (by omega) (by omega)
  have hminute : (padInt 2 (secondOfDay % 3600 / 60)).length = 2 :=
    padInt_length (by omega) (by omega)
  have hsecond : (padInt 2 (secondOfDay % 60)).length = 2 :=
    padInt_length (by omega) (by omega)
  simp only [clockText, List.length_append, List.length_cons, hhour, hminute, hsecond]

theorem fractionText_length
    {nanoseconds : Int}
    (h : 0 ≤ nanoseconds ∧ nanoseconds < second) :
    (fractionText nanoseconds).length ≤ 10 := by
  have hdigits : (padInt 9 nanoseconds).length = 9 := padInt_length h.1 h.2
  have htrim := (List.rdropWhile_prefix (· == 48) (padInt 9 nanoseconds)).length_le
  rw [fractionText]
  split_ifs
  · decide
  · rw [List.length_cons]
    omega

theorem zoneText_length
    {offset : Int}
    (h : (zoneMinutes offset).natAbs / 60 < 24) :
    (zoneText offset).length ≤ 6 := by
  have hhour : (padInt 2 ((zoneMinutes offset).natAbs / 60 : Nat)).length = 2 :=
    padInt_length (by omega) (by omega)
  have hminute : (padInt 2 ((zoneMinutes offset).natAbs % 60 : Nat)).length = 2 :=
    padInt_length (by omega) (by omega)
  rw [zoneText]
  split_ifs
  · decide
  · simp only [List.length_append, List.length_cons, hhour, hminute]
    decide
  · simp only [List.length_append, List.length_cons, hhour, hminute]
    decide

theorem timeText_length
    {offset t : Int}
    (hyear : 0 ≤ (localDate offset t).year ∧ (localDate offset t).year ≤ 9999)
    (hzone : (zoneMinutes offset).natAbs / 60 < 24) :
    (timeText offset t).length ≤ 35 := by
  obtain ⟨hmonth, hday⟩ := civilDate_bounds (localTime offset t / dayLength)
  have hdate := dateText_length hyear hmonth hday
  have hlow : 0 ≤ localTime offset t % dayLength := Int.emod_nonneg _ (by decide)
  have hhigh : localTime offset t % dayLength < dayLength := Int.emod_lt_of_pos _ (by decide)
  have hclock := @clockText_length (localTime offset t % dayLength / second) (by
    simp only [dayLength, second] at hlow hhigh ⊢
    omega)
  have hfraction := @fractionText_length (localTime offset t % dayLength % second)
    ⟨Int.emod_nonneg _ (by decide), Int.emod_lt_of_pos _ (by decide)⟩
  have hzoneText := zoneText_length hzone
  simp only [timeText, List.length_append, List.length_cons]
  omega

theorem formatTime_ok
    {offset t : Int}
    (hyear : 0 ≤ (localDate offset t).year ∧ (localDate offset t).year ≤ 9999)
    (hzone : (zoneMinutes offset).natAbs / 60 < 24) :
    formatTime offset t = .ok (timeText offset t) := by
  rw [formatTime, if_neg (by omega), if_neg (by omega)]

end Length

end Lib
end Moxy
