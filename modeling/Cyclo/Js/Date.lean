import Cyclo.Js.Number

/-! `Date` objects: a time value in whole milliseconds, absent for an invalid date. -/
namespace Cyclo.Js

/-- The largest distance of a time value from the epoch, in milliseconds. -/
def maxTime : ℤ := 8640000000000000

structure TimeValue where
  ms : ℤ
  inRange : |ms| ≤ maxTime
  deriving DecidableEq

namespace TimeValue

@[ext] theorem ext {s t : TimeValue} (h : s.ms = t.ms) : s = t := by
  cases s
  cases t
  cases h
  rfl

theorem bounds (t : TimeValue) : -maxTime ≤ t.ms ∧ t.ms ≤ maxTime := abs_le.mp t.inRange

theorem zero_inRange : |(0 : ℤ)| ≤ maxTime := by decide

def toNumber (t : TimeValue) : Number := .finite t.ms

end TimeValue

/-- `new Date(ms)` for whole milliseconds. -/
def dateOfInt (ms : ℤ) : Option TimeValue := if h : |ms| ≤ maxTime then some ⟨ms, h⟩ else none

def truncate (q : ℚ) : ℤ := if q < 0 then ⌈q⌉ else ⌊q⌋

/-- `new Date(value)`. -/
def dateOf (value : Number) : Option TimeValue :=
  if value.isFinite then dateOfInt (truncate value.value) else none

@[simp] theorem truncate_intCast (k : ℤ) : truncate (k : ℚ) = k := by
  simp [truncate]

theorem truncate_mono {p q : ℚ} (h : p ≤ q) : truncate p ≤ truncate q := by
  unfold truncate
  split_ifs with hp hq hq
  · exact Int.ceil_mono h
  · have h₁ : ⌈p⌉ ≤ 0 := Int.ceil_le.mpr (by exact_mod_cast hp.le)
    have h₂ : 0 ≤ ⌊q⌋ := Int.floor_nonneg.mpr (not_lt.mp hq)
    omega
  · linarith
  · exact Int.floor_mono h

theorem dateOf_intCast (k : ℤ) : dateOf (.finite k) = dateOfInt k := by
  simp [dateOf, Number.isFinite, Number.value]

theorem dateOfInt_eq_some {k : ℤ} {t : TimeValue} : dateOfInt k = some t ↔ t.ms = k := by
  unfold dateOfInt
  constructor
  · intro h
    split_ifs at h
    cases h
    rfl
  · rintro rfl
    exact dif_pos t.inRange

@[simp] theorem dateOfInt_ms (t : TimeValue) : dateOfInt t.ms = some t :=
  dateOfInt_eq_some.mpr rfl

end Cyclo.Js
