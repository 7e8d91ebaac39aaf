import Cyclo.Protocol.Errors

/-! Retry times over the wire: what the decoder returns for a valid timestamp, and which dates the
constructor encodes. -/
namespace Cyclo.Protocol
open Js

def minTimestampMs : ℤ := minTimestampSeconds * 1000

/-- One past the last millisecond of the Timestamp range, the first one of the year 10000. -/
def endTimestampMs : ℤ := (maxTimestampSeconds + 1) * 1000

/-- The conversion of `@bufbuild/protobuf`: floored seconds and the milliseconds left as nanos. -/
def WktConversion (timestampFromDate : TimeValue → Timestamp) : Prop :=
  ∀ date, timestampFromDate date = ⟨date.ms / 1000, date.ms % 1000 * 1000000⟩

def floorConversion (date : TimeValue) : Timestamp := ⟨date.ms / 1000, date.ms % 1000 * 1000000⟩

theorem Timestamp.valid_iff {value : Timestamp} : value.valid ↔
    minTimestampSeconds ≤ value.seconds ∧ value.seconds ≤ maxTimestampSeconds ∧
      0 ≤ value.nanos ∧ value.nanos ≤ 999999999 := by
  simp [Timestamp.valid, and_assoc]

/-- Nanoseconds are too coarse for binary64 to round a fraction of a millisecond away. -/
theorem ceil_div_million {n : ℤ} (h₀ : 0 ≤ n) (h₁ : n ≤ 999999999) :
    ((Number.finite n).div (.finite 1000000)).ceil = .finite ((n + 999999) / 1000000 : ℤ) := by
  rcases h₀.eq_or_lt with rfl | hpos
  · decide +kernel
  have hq : (0 : ℚ) < n := by exact_mod_cast hpos
  set k := (n + 999999) / 1000000 with hk
  have hk₀ : 1 ≤ k := by omega
  have hk₁ : k ≤ 1000 := by omega
  have hle : rounded (n / 1000000) ≤ k := by
    have hx : (n : ℚ) / 1000000 ≤ k := by
      rw [div_le_iff₀ (by norm_num)]
      exact_mod_cast (show n ≤ k * 1000000 by omega)
    calc rounded (n / 1000000) ≤ rounded k := rounded_mono hx
      _ = k := rounded_intCast (by rw [abs_le]; constructor <;> omega)
  -- a dyadic number between the previous integer and the quotient
  have hlt : (k : ℚ) - 1 < rounded (n / 1000000) := by
    have hx : (((k - 1) * 2 ^ 20 + 1 : ℤ) : ℚ) * 2 ^ (-20 : ℤ) ≤ n / 1000000 := by
      rw [zpow_neg, ← div_eq_mul_inv, div_le_div_iff₀ (by positivity) (by norm_num)]
      norm_cast
      omega
    have hd := rounded_dyadic (k := (k - 1) * 2 ^ 20 + 1) (e := -20) (by norm_num)
      (by rw [abs_lt]; constructor <;> omega)
    have hm := rounded_mono hx
    rw [hd] at hm
    have hgap : (k : ℚ) - 1 < (((k - 1) * 2 ^ 20 + 1 : ℤ) : ℚ) * 2 ^ (-20 : ℤ) := by
      rw [zpow_neg, ← div_eq_mul_inv, lt_div_iff₀ (by positivity)]
      push_cast
      norm_num
    exact hgap.trans_le hm
  have hpos' : 0 < rounded (n / 1000000) := by
    have : (1 : ℚ) ≤ k := by exact_mod_cast hk₀
    linarith
  have hbound : |rounded (n / 1000000)| < 2 ^ 1024 := by
    rw [abs_of_pos hpos']
    calc rounded (n / 1000000) ≤ (k : ℚ) := hle
      _ ≤ 2 ^ 10 := by
        norm_num
        exact_mod_cast (show k ≤ 1024 by omega)
      _ < 2 ^ 1024 := pow_lt_pow_right₀ (by norm_num) (by norm_num)
  have hdiv : (Number.finite n).div (.finite 1000000) = .finite (rounded (n / 1000000)) := by
    rw [Number.div_finite hq.ne' (by norm_num), Number.round_eq_finite hbound (.inl hpos')]
  have hceil : ⌈rounded ((n : ℚ) / 1000000)⌉ = k := by
    rw [Int.ceil_eq_iff]
    exact ⟨hlt, hle⟩
  rw [hdiv, Number.ceil, hceil, if_neg (by omega)]

/-- Decoding is exact up to the millisecond that the nanoseconds are rounded up to. -/
theorem Timestamp.toDate_eq {value : Timestamp} (h : value.valid) :
    value.toDate = dateOfInt (value.seconds * 1000 + (value.nanos + 999999) / 1000000) := by
  obtain ⟨hs₀, hs₁, hn₀, hn₁⟩ := Timestamp.valid_iff.mp h
  unfold minTimestampSeconds at hs₀
  unfold maxTimestampSeconds at hs₁
  have hsec : (Number.round value.seconds).mul (.finite 1000) =
      .finite (value.seconds * 1000 : ℤ) := by
    rw [Number.round_intCast (by rw [abs_le]; constructor <;> omega)]
    exact Number.mul_intCast (k := 1000) (by norm_num) (by rw [abs_le]; constructor <;> omega)
  rw [Timestamp.toDate, ceil_div_million hn₀ hn₁, hsec,
    Number.add_intCast (by rw [abs_le]; constructor <;> omega), dateOf_intCast]

/-- The millisecond a valid timestamp is read as. -/
def Timestamp.milliseconds (value : Timestamp) : ℤ :=
  value.seconds * 1000 + (value.nanos + 999999) / 1000000

theorem Timestamp.milliseconds_bounds {value : Timestamp} (h : value.valid) :
    minTimestampMs ≤ value.milliseconds ∧ value.milliseconds ≤ endTimestampMs := by
  obtain ⟨hs₀, hs₁, hn₀, hn₁⟩ := Timestamp.valid_iff.mp h
  unfold minTimestampMs endTimestampMs minTimestampSeconds maxTimestampSeconds
    Timestamp.milliseconds at *
  omega

theorem Timestamp.toDate_eq_some {value : Timestamp} (h : value.valid) {date : TimeValue} :
    value.toDate = some date ↔ date.ms = value.milliseconds := by
  rw [Timestamp.toDate_eq h, dateOfInt_eq_some]
  rfl

section
variable {timestampFromDate : TimeValue → Timestamp} (hconv : WktConversion timestampFromDate)
include hconv

theorem valid_timestampFromDate (date : TimeValue) :
    (timestampFromDate date).valid ↔ minTimestampMs ≤ date.ms ∧ date.ms < endTimestampMs := by
  rw [Timestamp.valid_iff, hconv date]
  unfold minTimestampMs endTimestampMs minTimestampSeconds maxTimestampSeconds
  dsimp only
  omega

theorem toDate_timestampFromDate {date : TimeValue} (h : (timestampFromDate date).valid) :
    (timestampFromDate date).toDate = some date := by
  rw [Timestamp.toDate_eq_some h, Timestamp.milliseconds, hconv date]
  dsimp only
  omega

/-- The typed error that the constructor returns for a date. -/
def exhaustedError (timestamp : Timestamp) : ConnectError where
  code := .resourceExhausted
  message := exhaustedMessage
  details := [⟨exhaustionTypeName, some (some timestamp)⟩]

omit hconv in
theorem resourceExhaustedRetryAt_exhaustedError {timestamp : Timestamp} (h : timestamp.valid) :
    resourceExhaustedRetryAt (.connect (exhaustedError timestamp)) = timestamp.toDate := by
  simp [resourceExhaustedRetryAt, exhaustedError, validTimestamp, h]

/-- A date is encoded exactly when it lies in the Timestamp range. -/
theorem createResourceExhaustedError_eq_ok {date : TimeValue}
    (h : minTimestampMs ≤ date.ms ∧ date.ms < endTimestampMs) :
    createResourceExhaustedError timestampFromDate (some date) =
      .ok (exhaustedError (timestampFromDate date)) := by
  have hv := (valid_timestampFromDate hconv date).mpr h
  simp [createResourceExhaustedError, validTimestamp, hv, exhaustedError]

theorem createResourceExhaustedError_eq_error {date : TimeValue}
    (h : ¬ (minTimestampMs ≤ date.ms ∧ date.ms < endTimestampMs)) :
    createResourceExhaustedError timestampFromDate (some date) =
      .error (.rangeError "retryAt is outside the protobuf Timestamp range") := by
  have hv := mt (valid_timestampFromDate hconv date).mp h
  simp [createResourceExhaustedError, validTimestamp, hv]

/-- What the constructor encodes is read back as the same date. -/
theorem resourceExhaustedRetryAt_create {date : TimeValue} {error : ConnectError}
    (h : createResourceExhaustedError timestampFromDate (some date) = .ok error) :
    resourceExhaustedRetryAt (.connect error) = some date := by
  by_cases hr : minTimestampMs ≤ date.ms ∧ date.ms < endTimestampMs
  · rw [createResourceExhaustedError_eq_ok hconv hr] at h
    cases h
    have hv := (valid_timestampFromDate hconv date).mpr hr
    rw [resourceExhaustedRetryAt_exhaustedError hv, toDate_timestampFromDate hconv hv]
  · rw [createResourceExhaustedError_eq_error hconv hr] at h
    cases h

end

/-- A retry time read from an error is the millisecond of one valid typed timestamp. -/
theorem resourceExhaustedRetryAt_eq_some {thrown : Thrown} {date : TimeValue}
    (h : resourceExhaustedRetryAt thrown = some date) :
    ∃ error timestamp, thrown = .connect error ∧ error.code = .resourceExhausted ∧
      (error.details.filter (·.typeName = exhaustionTypeName)).filterMap Detail.exhaustion =
        [some timestamp] ∧ timestamp.valid ∧ date.ms = timestamp.milliseconds := by
  cases thrown with
  | connect error =>
    rw [resourceExhaustedRetryAt] at h
    split_ifs at h with hc
    dsimp only at h
    split_ifs at h
    split at h
    · rename_i retryAt heq
      split_ifs at h with hv
      cases retryAt with
      | none => cases h
      | some timestamp =>
        exact ⟨error, timestamp, rfl, not_not.mp hc, heq, hv, (Timestamp.toDate_eq_some hv).mp h⟩
    · cases h
  | typeError _ | rangeError _ | error _ => cases h

end Cyclo.Protocol
