import Cyclo.Pooler.Pool
import Cyclo.Protocol.RetryTime

/-! Typed exhaustion over several hops: which retry times one component reads can be sent on by
the next and recorded by a pool. -/
namespace Cyclo.Pooler
open Js Protocol

/-- The timestamp of the one typed detail of an error. -/
def typedTimestamp : Thrown → Option Timestamp
  | .connect error =>
    match (error.details.filter (·.typeName = exhaustionTypeName)).filterMap Detail.exhaustion with
    | [some timestamp] => some timestamp
    | _ => none
  | _ => none

/-- The timestamp, rounded up to a millisecond, is not before the epoch and not in the year
10000. -/
def Composable (timestamp : Timestamp) : Prop :=
  (0 ≤ timestamp.seconds ∨ (timestamp.seconds = -1 ∧ 999000000 < timestamp.nanos)) ∧
    ¬ (timestamp.seconds = maxTimestampSeconds ∧ 999000000 < timestamp.nanos)

theorem composable_iff {timestamp : Timestamp} (h : timestamp.valid) :
    Composable timestamp ↔ 0 ≤ timestamp.milliseconds ∧ timestamp.milliseconds < endTimestampMs := by
  obtain ⟨hs₀, hs₁, hn₀, hn₁⟩ := Timestamp.valid_iff.mp h
  unfold Composable Timestamp.milliseconds endTimestampMs maxTimestampSeconds at *
  omega

namespace Pool
variable {scheduler : Scheduler} {attempt : Attempt} {member : Str} {date : TimeValue}

theorem markExhausted_eq_ok (hsel : attempt.selected = some member) (h : 0 ≤ date.ms) :
    markExhausted scheduler attempt (some date) =
      .ok ({ attempt with selected := none }, cool scheduler member date) := by
  rw [markExhausted, hsel]
  dsimp only
  rw [timestamp_getTime h]
  rfl

theorem markExhausted_eq_error (hsel : attempt.selected = some member) (h : date.ms < 0) :
    markExhausted scheduler attempt (some date) =
      .error (.typeError "retry time must be a valid absolute timestamp") := by
  rw [markExhausted, hsel]
  dsimp only
  rw [timestamp_negative h]
  rfl

end Pool

theorem milliseconds_of_typedTimestamp {thrown : Thrown} {timestamp : Timestamp} {date : TimeValue}
    (ht : typedTimestamp thrown = some timestamp) (h : resourceExhaustedRetryAt thrown = some date) :
    timestamp.valid ∧ date.ms = timestamp.milliseconds := by
  obtain ⟨error, timestamp', rfl, -, hdetails, hvalid, hms⟩ := resourceExhaustedRetryAt_eq_some h
  rw [typedTimestamp, hdetails] at ht
  cases ht
  exact ⟨hvalid, hms⟩

/-- A retry time read from an error is encoded again as the same date, and recorded by every
attempt with a selected member, exactly when its timestamp is composable. -/
theorem exhaustion_composes (timestampFromDate : TimeValue → Timestamp)
    (hconv : WktConversion timestampFromDate) {thrown : Thrown} {timestamp : Timestamp}
    {date : TimeValue} (ht : typedTimestamp thrown = some timestamp)
    (h : resourceExhaustedRetryAt thrown = some date) :
    ((∃ error, createResourceExhaustedError timestampFromDate (some date) = .ok error ∧
        resourceExhaustedRetryAt (.connect error) = some date) ∧
      ∀ (scheduler : Scheduler) (attempt : Attempt) (member : Str),
        attempt.selected = some member →
          Pool.markExhausted scheduler attempt (some date) =
            .ok ({ attempt with selected := none }, Pool.cool scheduler member date)) ↔
      Composable timestamp := by
  obtain ⟨hvalid, hms⟩ := milliseconds_of_typedTimestamp ht h
  rw [composable_iff hvalid, ← hms]
  constructor
  · rintro ⟨⟨error, herror, -⟩, hmark⟩
    constructor
    · by_contra hneg
      have hm := hmark Scheduler.initial ⟨[], [], some []⟩ [] rfl
      rw [Pool.markExhausted_eq_error rfl (not_le.mp hneg)] at hm
      cases hm
    · by_contra hend
      rw [createResourceExhaustedError_eq_error hconv fun hr => hend hr.2] at herror
      cases herror
  · rintro ⟨h₀, h₁⟩
    have hmin : minTimestampMs ≤ date.ms := le_trans (by decide) h₀
    have hok := createResourceExhaustedError_eq_ok hconv ⟨hmin, h₁⟩
    refine ⟨⟨_, hok, resourceExhaustedRetryAt_create hconv hok⟩, ?_⟩
    intro scheduler attempt member hsel
    exact Pool.markExhausted_eq_ok hsel h₀

theorem exhaustion_composes_one_second :
    ∃ date, resourceExhaustedRetryAt (.connect (exhaustedError ⟨1, 500000⟩)) = some date ∧
      (∃ error, createResourceExhaustedError floorConversion (some date) = .ok error ∧
        resourceExhaustedRetryAt (.connect error) = some date) := by
  have hd : resourceExhaustedRetryAt (.connect (exhaustedError ⟨1, 500000⟩)) =
      some ⟨1001, by decide⟩ := by decide +kernel
  have h := exhaustion_composes floorConversion
    (fun _ => rfl) (by decide +kernel : typedTimestamp (.connect (exhaustedError ⟨1, 500000⟩)) =
      some ⟨1, 500000⟩) hd
  exact ⟨_, hd, (h.mpr (by unfold Composable; decide)).1⟩

/-- The last nanosecond of the Timestamp range is read as a date that is not encoded again, and
the second before the epoch as one that no attempt records. -/
theorem exhaustion_limits :
    (∃ date, resourceExhaustedRetryAt
        (.connect (exhaustedError ⟨253402300799, 999999999⟩)) = some date ∧
      createResourceExhaustedError floorConversion (some date) =
        .error (.rangeError "retryAt is outside the protobuf Timestamp range")) ∧
    (∃ date, resourceExhaustedRetryAt (.connect (exhaustedError ⟨-1, 0⟩)) = some date ∧
      Pool.markExhausted Scheduler.initial ⟨[lit "a"], [lit "a"], some (lit "a")⟩ (some date) =
        .error (.typeError "retry time must be a valid absolute timestamp")) := by
  constructor
  · refine ⟨⟨253402300800000, by decide⟩, by decide +kernel, ?_⟩
    exact createResourceExhaustedError_eq_error (fun _ => rfl) (by decide)
  · exact ⟨⟨-1000, by decide⟩, by decide +kernel, Pool.markExhausted_eq_error rfl (by decide)⟩

end Cyclo.Pooler
