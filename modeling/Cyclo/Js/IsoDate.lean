import Cyclo.Js.Date
import Cyclo.Js.Text

/-! The text of a date in the proleptic Gregorian calendar. -/
namespace Cyclo.Js

def digitUnit (n : ℕ) : CodeUnit := (0x30 + n % 10).toUInt16

/-- The last `width` decimal digits. -/
def padded : ℕ → ℕ → Str
  | 0, _ => []
  | width + 1, n => padded width (n / 10) ++ [digitUnit n]

structure CivilDate where
  year : ℤ
  month : ℕ
  day : ℕ
  deriving DecidableEq

/-- The civil date of a number of days since the epoch, counted in eras of 400 years that begin
on the first of March. -/
def civilDate (days : ℤ) : CivilDate :=
  let shifted := days + 719468
  let dayOfEra := (shifted % 146097).toNat
  let yearOfEra := (dayOfEra - dayOfEra / 1460 + dayOfEra / 36524 - dayOfEra / 146096) / 365
  let dayOfYear := dayOfEra - (365 * yearOfEra + yearOfEra / 4 - yearOfEra / 100)
  let shiftedMonth := (5 * dayOfYear + 2) / 153
  let month := if shiftedMonth < 10 then shiftedMonth + 3 else shiftedMonth - 9
  { year := yearOfEra + shifted / 146097 * 400 + if month ≤ 2 then 1 else 0
    month := month
    day := dayOfYear - (153 * shiftedMonth + 2) / 5 + 1 }

def yearText (year : ℤ) : Str :=
  if 0 ≤ year ∧ year ≤ 9999 then padded 4 year.toNat
  else (if year < 0 then 0x2d else 0x2b) :: padded 6 year.natAbs

/-- `date.toISOString()` -/
def toISOString (date : TimeValue) : Str :=
  let civil := civilDate (date.ms / 86400000)
  let time := (date.ms % 86400000).toNat
  yearText civil.year ++ [0x2d] ++ padded 2 civil.month ++ [0x2d] ++ padded 2 civil.day ++ [0x54] ++
    padded 2 (time / 3600000) ++ [0x3a] ++ padded 2 (time / 60000 % 60) ++ [0x3a] ++
    padded 2 (time / 1000 % 60) ++ [0x2e] ++ padded 3 (time % 1000) ++ [0x5a]

@[simp] theorem length_padded (width n : ℕ) : (padded width n).length = width := by
  induction width generalizing n with
  | zero => rfl
  | succ width ih => simp [padded, ih]

theorem length_toISOString (date : TimeValue) :
    0 < (toISOString date).length ∧ (toISOString date).length ≤ 27 := by
  have hyear : (yearText (civilDate (date.ms / 86400000)).year).length ≤ 7 := by
    unfold yearText
    split_ifs <;> simp
  simp only [toISOString, List.length_append, length_padded, List.length_cons, List.length_nil]
  omega

example : toISOString ⟨1709210096123, by decide⟩ = lit "2024-02-29T12:34:56.123Z" := by
  decide +kernel

end Cyclo.Js
