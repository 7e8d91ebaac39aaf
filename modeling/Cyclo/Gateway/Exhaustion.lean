import Cyclo.Gateway.PiAdapter
import Cyclo.Protocol.RetryTime

/-! An exhausted account becomes the typed error before any response, as far as the retry time
can be encoded. -/
namespace Cyclo.Gateway
open Js Protocol

/-- The retry time asked for, at least a second from now, lies in the Timestamp range; where it is
no date at all the time a minute from now does. -/
def RetryEncodable (now : TimeValue) (wait : Number) : Prop :=
  match dateOf (now.toNumber.add (Number.max (.finite 1000) wait)) with
  | some retryAt => minTimestampMs ≤ retryAt.ms ∧ retryAt.ms < endTimestampMs
  | none => minTimestampMs ≤ now.ms + defaultExhaustionRetryMs

/-- The first event of a native stream is an error event that passes the guard and reports an
exhausted account. -/
structure ReportsExhaustion (api : Str) (credential : Credential) (steps : List NativeStep)
    (response : Option NativeResponse) (event : Json) : Prop where
  first : ∃ (before : List NativeResponse) (rest : List NativeStep),
    steps = before.map NativeStep.response ++ .event (some event) :: rest ∧
      response = before.getLast?
  passes : ((credentialReflectionGuard credential).check event.wire).isSome
  error : (event.field (lit "type")).bind Json.asString = some (lit "error")
  status : nativeErrorStatus api response event = some (.finite 429)

/-- No response, and the typed error with a retry time at least a second from now. -/
def RaisesExhausted (now : TimeValue) (outcome : List Response × Option Thrown) : Prop :=
  ∃ error retryAt, outcome = ([], some (.connect error)) ∧ error.code = .resourceExhausted ∧
    resourceExhaustedRetryAt (.connect error) = some retryAt ∧ now.ms + 1000 ≤ retryAt.ms

/-- A wait of at least a second is a number of milliseconds from 1000 on, or no time at all. -/
theorem max_thousand (wait : Number) :
    Number.max (.finite 1000) wait = .nan ∨ Number.max (.finite 1000) wait = .infinite false ∨
      ∃ w, Number.max (.finite 1000) wait = .finite w ∧ 1000 ≤ w := by
  cases wait with
  | nan => exact .inl rfl
  | infinite s =>
    cases s
    · exact .inr (.inl rfl)
    · exact .inr (.inr ⟨1000, rfl, le_rfl⟩)
  | negativeZero => exact .inr (.inr ⟨1000, by decide +kernel, le_rfl⟩)
  | finite q =>
    refine .inr (.inr ?_)
    by_cases h : (1000 : ℚ) < q
    · exact ⟨q, by simp [Number.max, Number.lt, Number.value, h], h.le⟩
    · exact ⟨1000, by simp [Number.max, Number.lt, Number.value, h], le_rfl⟩

theorem dateOf_add_max {now retryAt : TimeValue} {wait : Number}
    (h : dateOf (now.toNumber.add (Number.max (.finite 1000) wait)) = some retryAt) :
    now.ms + 1000 ≤ retryAt.ms := by
  rcases max_thousand wait with hm | hm | ⟨w, hm, hw⟩
  · rw [hm] at h
    cases h
  · rw [hm] at h
    cases h
  · rw [hm, TimeValue.toNumber, Number.add, dateOf] at h
    split_ifs at h with hf
    rw [dateOfInt_eq_some] at h
    have hb := now.bounds
    unfold maxTime at hb
    have hle : rounded ((now.ms + 1000 : ℤ) : ℚ) ≤ rounded (now.ms + w) := by
      refine rounded_mono ?_
      push_cast
      linarith
    rw [rounded_intCast (by rw [abs_le]; constructor <;> omega)] at hle
    have ht := truncate_mono hle
    rw [truncate_intCast] at ht
    rw [h, Number.round_value hf]
    exact ht

theorem dateOf_minute {now : TimeValue} (h : now.ms + 60000 < endTimestampMs) :
    ∃ retryAt, dateOf (now.toNumber.add (.finite defaultExhaustionRetryMs)) = some retryAt ∧
      retryAt.ms = now.ms + 60000 := by
  have hb := now.bounds
  unfold endTimestampMs maxTimestampSeconds at h
  unfold maxTime at hb
  have hr : |now.ms + 60000| ≤ maxTime := by
    unfold maxTime
    rw [abs_le]
    constructor <;> omega
  refine ⟨⟨now.ms + 60000, hr⟩, ?_, rfl⟩
  rw [TimeValue.toNumber, defaultExhaustionRetryMs,
    Number.add_intCast (by rw [abs_le]; constructor <;> omega), dateOf_intCast, dateOfInt_eq_some]

/-- The retry time of a reported exhaustion is a date a second from now or later, and whether it
lies in the Timestamp range is decided by the wait. -/
theorem providerExhaustionRetryAt_eq (dateParse : Str → Option TimeValue) {now : TimeValue}
    {api : Str} {response : Option NativeResponse} {event : Json}
    (herror : (event.field (lit "type")).bind Json.asString = some (lit "error"))
    (hstatus : nativeErrorStatus api response event = some (.finite 429))
    (hclock : now.ms + 60000 < endTimestampMs) :
    ∃ retryAt, providerExhaustionRetryAt dateParse now api response event = some (some retryAt) ∧
      now.ms + 1000 ≤ retryAt.ms ∧
      (RetryEncodable now (exhaustionWaitMs dateParse now api response event) ↔
        minTimestampMs ≤ retryAt.ms ∧ retryAt.ms < endTimestampMs) := by
  unfold providerExhaustionRetryAt RetryEncodable
  rw [if_pos ⟨herror, hstatus⟩]
  cases hd : dateOf (now.toNumber.add
      (Number.max (.finite 1000) (exhaustionWaitMs dateParse now api response event))) with
  | some retryAt => exact ⟨retryAt, rfl, dateOf_add_max hd, Iff.rfl⟩
  | none =>
    obtain ⟨retryAt, hr, hms⟩ := dateOf_minute hclock
    refine ⟨retryAt, congrArg some hr, by omega, ?_⟩
    unfold defaultExhaustionRetryMs
    rw [hms]
    exact ⟨fun h => ⟨h, hclock⟩, fun h => h.1⟩

section
variable (dateParse : Str → Option TimeValue) (now : TimeValue)

theorem relay_responses (api : Str) (throws : Bool) (guard : Guard) (emitted : Bool)
    (steps : List NativeStep) (before : List NativeResponse) (response : Option NativeResponse) :
    relay dateParse now api throws guard response emitted
        (before.map NativeStep.response ++ steps) =
      relay dateParse now api throws guard (before.getLast?.or response) emitted steps := by
  induction before generalizing response with
  | nil => rfl
  | cons value before ih =>
    change relay dateParse now api throws guard (some value) emitted
      (before.map NativeStep.response ++ steps) = _
    rw [ih]
    cases before with
    | nil => rfl
    | cons next before =>
      have hlast := List.getLast?_eq_some_getLast (List.cons_ne_nil next before)
      rw [List.getLast?_cons_cons, hlast]
      rfl

/-- Once a response was relayed the loop does not report exhaustion. -/
theorem relay_emitted (api : Str) (throws : Bool) (steps : List NativeStep) (guard : Guard)
    (response : Option NativeResponse) (retryAt : Option TimeValue) :
    (relay dateParse now api throws guard response true steps).2 ≠
      some (.resourceExhaustion retryAt) := by
  induction steps generalizing guard response with
  | nil =>
    rw [relay]
    split_ifs <;> simp
  | cons step steps ih =>
    rcases step with value | event
    · exact ih guard (some value)
    rcases event with - | event
    · simp [relay]
    rw [relay]
    split
    · simp
    · exact ih _ response

theorem relay_exhaustion_first (api : Str) (throws : Bool) (steps : List NativeStep)
    (guard : Guard) (response : Option NativeResponse) (retryAt : Option TimeValue)
    (h : (relay dateParse now api throws guard response false steps).2 =
      some (.resourceExhaustion retryAt)) :
    (relay dateParse now api throws guard response false steps).1 = [] := by
  induction steps generalizing guard response with
  | nil => rfl
  | cons step steps ih =>
    rcases step with value | event
    · exact ih guard (some value) h
    rcases event with - | event
    · rfl
    rw [relay] at h ⊢
    split at h
    · rfl
    · split at h
      · rfl
      · exact absurd h (relay_emitted dateParse now api throws steps _ response retryAt)

variable (timestampFromDate : TimeValue → Timestamp)
  (streamers : Str → Option (Json → GatewayOptions → Native))

/-- The native stream that a request opens, if it gets that far. -/
def nativeOf (api : Str) (payload : Option Json) (credential : Credential) : Option Native :=
  match streamers api, piCallFrame payload with
  | some stream, .ok frame =>
    some (stream frame.context (gatewayOptions frame.options credential.apiKey api))
  | _, _ => none

theorem dispatch_eq {api : Str} {payload : Option Json} {credential : Credential} {native : Native}
    (h : nativeOf streamers api payload credential = some native) :
    dispatch dateParse now timestampFromDate streamers api payload credential =
      ((relay dateParse now api native.throws (credentialReflectionGuard credential) none false
          native.steps).1,
        (relay dateParse now api native.throws (credentialReflectionGuard credential) none false
          native.steps).2.map (raised timestampFromDate native.signal)) := by
  unfold nativeOf at h
  unfold dispatch
  split at h
  · rename_i stream frame hs hf
    cases h
    rw [hs]
    dsimp only
    rw [hf]
  · cases h

/-- An exhausted account reported by the first event raises the typed error, with a retry time at
least a second from now, exactly when the retry time can be encoded. Nothing but the caller's own
abort reason reads as the typed error once a response was yielded. -/
theorem exhaustion_typed (hconv : WktConversion timestampFromDate) :
    (∀ api payload credential native response event,
      nativeOf streamers api payload credential = some native →
      ReportsExhaustion api credential native.steps response event →
      now.ms + 60000 < endTimestampMs →
        (RaisesExhausted now
            (dispatch dateParse now timestampFromDate streamers api payload credential) ↔
          RetryEncodable now (exhaustionWaitMs dateParse now api response event))) ∧
    (∀ api payload credential native thrown,
      nativeOf streamers api payload credential = some native →
      (dispatch dateParse now timestampFromDate streamers api payload credential).2 = some thrown →
      (resourceExhaustedRetryAt thrown).isSome →
        (dispatch dateParse now timestampFromDate streamers api payload credential).1 = [] ∨
          ∃ reason, native.signal = .abortedWith reason ∧ thrown = .connect reason) := by
  constructor
  · intro api payload credential native response event hnative hreport hclock
    obtain ⟨before, rest, hsteps, hresponse⟩ := hreport.first
    obtain ⟨guard, hguard⟩ := Option.isSome_iff_exists.mp hreport.passes
    obtain ⟨retryAt, hretry, hlater, hfits⟩ :=
      providerExhaustionRetryAt_eq dateParse hreport.error hreport.status hclock
    have hrelay : relay dateParse now api native.throws (credentialReflectionGuard credential) none
        false native.steps = ([], some (.resourceExhaustion (some retryAt))) := by
      rw [hsteps, relay_responses, Option.or_none, ← hresponse, relay, hguard]
      dsimp only
      rw [if_neg (by simp), hretry]
    rw [dispatch_eq dateParse now timestampFromDate streamers hnative, hrelay, hfits]
    dsimp only [Option.map_some]
    rw [raised]
    constructor
    · rintro ⟨error, date, heq, -⟩
      by_contra hrange
      rw [createResourceExhaustedError_eq_error hconv hrange] at heq
      simp at heq
    · intro hrange
      have hok := createResourceExhaustedError_eq_ok hconv hrange
      refine ⟨exhaustedError (timestampFromDate retryAt), retryAt, ?_, rfl, ?_, hlater⟩
      · rw [hok]
      · exact resourceExhaustedRetryAt_create hconv hok
  · intro api payload credential native thrown hnative hthrown htyped
    rw [dispatch_eq dateParse now timestampFromDate streamers hnative] at hthrown ⊢
    obtain ⟨failure, hfailure, hraised⟩ := Option.map_eq_some_iff.mp hthrown
    cases failure with
    | resourceExhaustion retryAt =>
      exact .inl (relay_exhaustion_first dateParse now api _ _ _ _ retryAt hfailure)
    | gatewayResponse message =>
      rw [← hraised] at htyped
      simp [raised, resourceExhaustedRetryAt] at htyped
    | upstream =>
      rw [raised] at hraised
      cases hsig : native.signal with
      | abortedWith reason =>
        rw [hsig] at hraised
        exact .inr ⟨reason, rfl, hraised.symm⟩
      | live | aborted =>
        rw [hsig] at hraised
        rw [← hraised] at htyped
        simp [upstreamFailure, resourceExhaustedRetryAt] at htyped

end

/-- A native stream that reports an exhausted account with one `retry-after` header. -/
def exhaustedNative (retryAfter : String) : Native where
  steps := [
    .response ⟨some (.finite 429), fun name =>
      if name = lit "retry-after" then some (lit retryAfter) else none⟩,
    .event (some (.obj [(lit "type", .str (lit "error"))]))]
  throws := false
  signal := .live

def emptyCall : Option Json := some (.obj [(lit "context", .null)])

def plainCredential : Credential := ⟨some (lit "key"), none⟩

theorem reportsExhaustion_exhaustedNative (retryAfter : String) :
    ReportsExhaustion codex plainCredential (exhaustedNative retryAfter).steps
      (some ⟨some (.finite 429), fun name =>
        if name = lit "retry-after" then some (lit retryAfter) else none⟩)
      (.obj [(lit "type", .str (lit "error"))]) where
  first := ⟨[_], [], rfl, rfl⟩
  passes := by decide +kernel
  error := by decide +kernel
  status := rfl

theorem exhaustion_typed_two_hours :
    RaisesExhausted ⟨0, by decide⟩ (dispatch (fun _ => none) ⟨0, by decide⟩ floorConversion
      (fun _ => some fun _ _ => exhaustedNative "7200") codex emptyCall plainCredential) := by
  have h := (exhaustion_typed (fun _ => none) ⟨0, by decide⟩ floorConversion
    (fun _ => some fun _ _ => exhaustedNative "7200") (fun _ => rfl)).1 codex emptyCall
    plainCredential (exhaustedNative "7200") _ _ (by rfl)
    (reportsExhaustion_exhaustedNative "7200") (by decide)
  refine h.mpr ?_
  have hd : dateOf ((TimeValue.toNumber ⟨0, by decide⟩).add (Number.max (.finite 1000)
      (exhaustionWaitMs (fun _ => none) ⟨0, by decide⟩ codex
        (some ⟨some (.finite 429), fun name =>
          if name = lit "retry-after" then some (lit "7200") else none⟩)
        (.obj [(lit "type", .str (lit "error"))])))) = some ⟨7200000, by decide⟩ := by
    decide +kernel
  rw [RetryEncodable, hd]
  decide

/-- A `retry-after` of 253402300800 seconds ends in an untyped error instead. -/
theorem far_retry_untyped :
    nativeOf (fun _ => some fun _ _ => exhaustedNative "253402300800") codex emptyCall
        plainCredential = some (exhaustedNative "253402300800") ∧
    (∃ response event, ReportsExhaustion codex plainCredential
      (exhaustedNative "253402300800").steps response event) ∧
    (0 : ℤ) + 60000 < endTimestampMs ∧
    (dispatch (fun _ => none) ⟨0, by decide⟩ floorConversion
        (fun _ => some fun _ _ => exhaustedNative "253402300800") codex emptyCall
        plainCredential).2 =
      some (.rangeError "retryAt is outside the protobuf Timestamp range") ∧
    ¬ RaisesExhausted ⟨0, by decide⟩ (dispatch (fun _ => none) ⟨0, by decide⟩ floorConversion
      (fun _ => some fun _ _ => exhaustedNative "253402300800") codex emptyCall
        plainCredential) := by
  have h : (dispatch (fun _ => none) ⟨0, by decide⟩ floorConversion
      (fun _ => some fun _ _ => exhaustedNative "253402300800") codex emptyCall
      plainCredential).2 =
        some (.rangeError "retryAt is outside the protobuf Timestamp range") := by
    decide +kernel
  refine ⟨by rfl, ⟨_, _, reportsExhaustion_exhaustedNative _⟩, by decide, h, ?_⟩
  rintro ⟨error, retryAt, heq, -⟩
  rw [heq] at h
  simp at h

end Cyclo.Gateway
