import Cyclo.Gateway.UsageLedger
import Cyclo.Js.JsonText

/-! The lines that the gateway appends to the usage ledger, and how the report reads them. -/
namespace Cyclo.Gateway
open Js Protocol

def recordMembers (record : UsageRecord) : List (Str × Str) :=
  [(lit "timestamp", Json.quote record.timestamp),
    (lit "model", Json.quote record.model),
    (lit "outcome", Json.quote record.outcome),
    (lit "latency_ms", Json.integerText record.latencyMs),
    (lit "input_tokens", Json.integerText record.inputTokens),
    (lit "output_tokens", Json.integerText record.outputTokens),
    (lit "cached_input_tokens", Json.integerText record.cachedInputTokens),
    (lit "reasoning_tokens", Json.integerText record.reasoningTokens)]

/-- `JSON.stringify(record)` -/
def recordText (record : UsageRecord) : Str := Json.objectText (recordMembers record)

/-- A request whose usage is recorded. Its model is one of the gateway's catalogue, and its usage is
that of the last event that reported one. -/
structure Request where
  account : Str
  model : Str
  isAccount : isProviderPrefix account = true
  isModel : isLocalModelId model = true
  started : TimeValue
  clock : Clock
  outcome : Outcome
  event : Option Json

namespace Request

def publicModel (request : Request) : Str := request.account ++ 0x2f :: request.model

def record (request : Request) : UsageRecord :=
  usageRecord request.clock request.publicModel request.started request.outcome
    (request.event.bind eventUsage)

end Request

/-- The ledger after the records of these requests were appended. -/
def ledgerOf (requests : List Request) : Bytes :=
  requests.flatMap fun request => Str.utf8 (recordText request.record) ++ [newline]

/-- The natural number that a recorded count stands for. -/
def count (x : Number) : ℕ := x.value.num.toNat

/-- A recorded token count is a safe integer, whatever the upstream reported. -/
theorem count_safeNumber (value : Option Number) : count (safeNumber value) ≤ maxSafeInteger := by
  cases value with
  | none => exact Nat.zero_le _
  | some x =>
    unfold safeNumber
    dsimp only
    split_ifs with h
    · rw [Bool.and_eq_true, Bool.not_eq_true'] at h
      obtain ⟨hvalue, hlt⟩ := Number.value_of_isSafeInteger h.1
      rw [hvalue, ← Int.cast_abs] at hlt
      have hint : |x.value.num| < 2 ^ 53 := by exact_mod_cast hlt
      have := le_abs_self x.value.num
      unfold count maxSafeInteger
      omega
    · exact Nat.zero_le _

/-- The properties of the document that a record is written as. -/
def recordEntries (record : UsageRecord) : List (Str × Json) :=
  let number := fun x : Number => Json.num (Number.round (count x : ℚ))
  [(lit "timestamp", .str record.timestamp), (lit "model", .str record.model),
    (lit "outcome", .str record.outcome), (lit "latency_ms", number record.latencyMs),
    (lit "input_tokens", number record.inputTokens),
    (lit "output_tokens", number record.outputTokens),
    (lit "cached_input_tokens", number record.cachedInputTokens),
    (lit "reasoning_tokens", number record.reasoningTokens)]

theorem map_fst_recordEntries (record : UsageRecord) :
    (recordEntries record).map Prod.fst = usageRecordFields := rfl

theorem parse_recordText (record : UsageRecord) :
    Json.parse (recordText record) = some (.obj (recordEntries record)) := by
  have hnumber : ∀ (name : Str) (x : Number) {members : List (Str × Str)}
      {entries : List (Str × Json)}, Json.ReadsMembers members entries →
      Json.ReadsMembers ((name, Json.integerText x) :: members)
        ((name, .num (Number.round (count x : ℚ))) :: entries) :=
    fun name x _ _ h => .cons ⟨rfl, Json.reads_naturalText (count x)⟩ h
  have htext : ∀ (name s : Str) {members : List (Str × Str)} {entries : List (Str × Json)},
      Json.ReadsMembers members entries →
      Json.ReadsMembers ((name, Json.quote s) :: members) ((name, .str s) :: entries) :=
    fun name s _ _ h => .cons ⟨rfl, Json.reads_quote s⟩ h
  refine Json.parse_objectText (htext _ _ (htext _ _ (htext _ _ (hnumber _ _ (hnumber _ _
    (hnumber _ _ (hnumber _ _ (hnumber _ _ .nil)))))))) (List.cons_ne_nil _ _) ?_ ?_
  · change usageRecordFields.Nodup
    decide
  · change ∀ key ∈ usageRecordFields, Json.arrayIndex key = none
    decide +kernel

theorem splitPublicModelId_publicModel (request : Request) :
    splitPublicModelId request.publicModel = some ⟨request.account, request.model⟩ := by
  unfold splitPublicModelId Request.publicModel
  rw [splitAtSlash_append (slash_not_mem request.isAccount)]
  simp [request.isAccount, request.isModel]

theorem validOutcome_text (outcome : Outcome) : validOutcome (some outcome.text) = true := by
  cases outcome with
  | rpc code => cases code <;> decide +kernel
  | credentialUnavailable | internal | ok | clientAbandoned => decide +kernel

theorem length_text (outcome : Outcome) : outcome.text.length ≤ 22 := by
  cases outcome with
  | rpc code => cases code <;> decide +kernel
  | credentialUnavailable | internal | ok | clientAbandoned => decide +kernel

theorem checkedField_round {entries : List (Str × Json)} {name : String} {n : ℕ} (line : ℕ)
    (h : (Json.obj entries).field (lit name) = some (.num (Number.round (n : ℚ)))) :
    checkedField (.obj entries) name line =
      if hn : n ≤ maxSafeInteger then .ok ⟨n, hn⟩
      else .error s!"usage audit record {line} has an invalid {name}" := by
  have hread : ((some (Json.num (Number.round (n : ℚ)))).bind Json.asNumber).bind Number.toSafeCount =
      (Number.round (n : ℚ)).toSafeCount := rfl
  unfold checkedField
  rw [h, hread, Number.toSafeCount_round]
  split_ifs <;> rfl

namespace Request

/-- What the report reads from the record of a request with an accepted latency. -/
def read (request : Request) (latencyMs : SafeCount) : ValidRecord where
  provider := request.account
  model := request.publicModel
  outcome := request.outcome.text
  latencyMs := latencyMs
  inputTokens := ⟨count request.record.inputTokens, count_safeNumber _⟩
  outputTokens := ⟨count request.record.outputTokens, count_safeNumber _⟩
  cachedInputTokens := ⟨count request.record.cachedInputTokens, count_safeNumber _⟩
  reasoningTokens := ⟨count request.record.reasoningTokens, count_safeNumber _⟩

end Request

section
variable {dateParse : Str → Option TimeValue}

theorem validateUsageRecord_entries {record : UsageRecord} {route : PublicModelId} (line : ℕ)
    (htimestamp : validTimestampText dateParse (some record.timestamp) = true)
    (houtcome : validOutcome (some record.outcome) = true)
    (hmodel : splitPublicModelId record.model = some route)
    (hinput : count record.inputTokens ≤ maxSafeInteger)
    (houtput : count record.outputTokens ≤ maxSafeInteger)
    (hcached : count record.cachedInputTokens ≤ maxSafeInteger)
    (hreasoning : count record.reasoningTokens ≤ maxSafeInteger) :
    validateUsageRecord dateParse (.obj (recordEntries record)) line =
      (checkedField (.obj (recordEntries record)) "latency_ms" line).map fun latencyMs =>
        ⟨route.provider, record.model, record.outcome, latencyMs, ⟨_, hinput⟩, ⟨_, houtput⟩,
          ⟨_, hcached⟩, ⟨_, hreasoning⟩⟩ := by
  have hfields : ((recordEntries record).map Prod.fst).isPerm usageRecordFields = true := by
    rw [map_fst_recordEntries]
    exact List.isPerm_iff.mpr (List.Perm.refl _)
  have hin : checkedField (.obj (recordEntries record)) "input_tokens" line = _ :=
    checkedField_round line rfl
  have hout : checkedField (.obj (recordEntries record)) "output_tokens" line = _ :=
    checkedField_round line rfl
  have hcache : checkedField (.obj (recordEntries record)) "cached_input_tokens" line = _ :=
    checkedField_round line rfl
  have hreason : checkedField (.obj (recordEntries record)) "reasoning_tokens" line = _ :=
    checkedField_round line rfl
  have hroute : ((Json.obj (recordEntries record)).field (lit "model")).bind Json.asString =
      some record.model := rfl
  rw [dif_pos hinput] at hin
  rw [dif_pos houtput] at hout
  rw [dif_pos hcached] at hcache
  rw [dif_pos hreasoning] at hreason
  unfold validateUsageRecord
  dsimp only
  rw [if_neg (not_not.mpr hfields)]
  change (if ¬ validTimestampText dateParse (some record.timestamp) then _ else
    if ¬ validOutcome (some record.outcome) then _ else _) = _
  rw [if_neg (not_not.mpr htimestamp), if_neg (not_not.mpr houtcome)]
  cases checkedField (.obj (recordEntries record)) "latency_ms" line with
  | error message => rfl
  | ok latencyMs =>
    simp only [hin, hout, hcache, hreason, hroute, Option.bind_some, hmodel]
    rfl

theorem validateUsageRecord_record (hdate : ∀ date, (dateParse (toISOString date)).isSome)
    (request : Request) (line : ℕ) :
    validateUsageRecord dateParse (.obj (recordEntries request.record)) line =
      (checkedField (.obj (recordEntries request.record)) "latency_ms" line).map request.read := by
  have htimestamp : validTimestampText dateParse (some request.record.timestamp) = true := by
    have hlength := (length_toISOString request.clock.date).1
    have hne : toISOString request.clock.date ≠ [] := List.ne_nil_of_length_pos hlength
    have htext : request.record.timestamp = toISOString request.clock.date := rfl
    rw [htext, validTimestampText, hdate, Bool.and_true]
    exact decide_eq_true hne
  exact validateUsageRecord_entries line htimestamp (validOutcome_text request.outcome)
    (splitPublicModelId_publicModel request) (count_safeNumber _) (count_safeNumber _)
    (count_safeNumber _) (count_safeNumber _)

/-- The size of a record whose latency has up to `k + 1` digits. -/
theorem memberFits_record (request : Request) {k : ℕ}
    (hlatency : count request.record.latencyMs < 10 ^ (k + 1)) :
    List.Forall₂ Json.MemberFits (recordMembers request.record)
      [281, 6653, 251, 118 + k, 133, 133, 133, 133] := by
  have htokens : ∀ (name : Str) (x : Number), name.length ≤ 19 → count x ≤ maxSafeInteger →
      Json.MemberFits (name, Json.integerText x) 133 := by
    intro name x hname hcount
    have hdigits : count x < 10 ^ 16 := by
      unfold maxSafeInteger at hcount
      omega
    exact Json.memberFits hname (Json.fits_naturalText hdigits)
  have htext : ∀ (name s : Str) (n : ℕ), name.length ≤ 19 → s.length ≤ n →
      Json.MemberFits (name, Json.quote s) (119 + 6 * n) := by
    intro name s n hname hs
    exact Json.memberFits hname ((Json.fits_quote s).mono (show _ ≤ 6 * n + 2 by omega)) |>.mono
      (by omega)
  have hmodel : request.publicModel.length ≤ 1089 := by
    have haccount := request.isAccount
    have hlocal := request.isModel
    rw [isProviderPrefix, Bool.and_eq_true, Bool.and_eq_true, decide_eq_true_eq] at haccount
    rw [isLocalModelId, Bool.and_eq_true, Bool.and_eq_true, decide_eq_true_eq] at hlocal
    have h1 := haccount.1.1
    have h2 := hlocal.1.1
    unfold maxProviderPrefixLength at h1
    unfold maxLocalModelIdUnits at h2
    rw [Request.publicModel, List.length_append, List.length_cons]
    omega
  have htimestamp := (length_toISOString request.clock.date).2
  have hlatencyMember : Json.MemberFits
      (lit "latency_ms", Json.integerText request.record.latencyMs) (118 + k) :=
    (Json.memberFits (m := 19) (by decide) (Json.fits_naturalText hlatency)).mono (by omega)
  exact .cons (htext (lit "timestamp") _ _ (by decide) htimestamp)
    (.cons (htext (lit "model") _ _ (by decide) hmodel)
    (.cons (htext (lit "outcome") _ _ (by decide) (length_text request.outcome))
    (.cons hlatencyMember
    (.cons (htokens (lit "input_tokens") request.record.inputTokens (by decide) (count_safeNumber _))
    (.cons (htokens (lit "output_tokens") request.record.outputTokens (by decide)
      (count_safeNumber _))
    (.cons (htokens (lit "cached_input_tokens") request.record.cachedInputTokens (by decide)
      (count_safeNumber _))
    (.cons (htokens (lit "reasoning_tokens") request.record.reasoningTokens (by decide)
      (count_safeNumber _)) .nil)))))))

theorem fits_recordText (request : Request) {k : ℕ}
    (hlatency : count request.record.latencyMs < 10 ^ (k + 1)) :
    Str.Fits (recordText request.record) (8000 + k) := by
  refine (Json.fits_objectText (memberFits_record request hlatency)).mono ?_
  simp only [List.sum_cons, List.sum_nil, recordMembers, List.length_cons, List.length_nil]
  omega

theorem latency_lt (request : Request) :
    count request.record.latencyMs < 10 ^ (count request.record.latencyMs + 1) :=
  (Nat.lt_succ_self _).trans (Nat.lt_pow_self (by norm_num))

theorem recordText_head (record : UsageRecord) : (recordText record).head? = some 0x7b := rfl

/-- The last byte of a record closes its object. -/
theorem stripReturn_recordText (request : Request) :
    stripReturn (Str.utf8 (recordText request.record)) = Str.utf8 (recordText request.record) := by
  have hlast : (Str.utf8 (recordText request.record)).getLast? = some 0x7d :=
    Json.getLast?_objectText (memberFits_record request (latency_lt request))
  unfold stripReturn
  rw [hlast, if_neg (by decide)]

theorem decodeUtf8_recordText (request : Request) :
    decodeUtf8 (Str.utf8 (recordText request.record)) = some (recordText request.record) := by
  refine (fits_recordText request (latency_lt request)).decode ?_
  rw [recordText_head]
  decide

variable (dateParse) in
/-- The line of a request adds what the report reads of it. -/
theorem addUsageLine_record (hdate : ∀ date, (dateParse (toISOString date)).isSome)
    (request : Request) (report : UsageReport) (line : ℕ)
    (h : count request.record.latencyMs ≤ maxSafeInteger) :
    addUsageLine dateParse decodeUtf8 Json.parse maxUsageRecordBytes report
        (stripReturn (Str.utf8 (recordText request.record))) line =
      addUsageRecord report (request.read ⟨_, h⟩) line := by
  have hdigits : count request.record.latencyMs < 10 ^ 16 := by
    unfold maxSafeInteger at h
    omega
  have hlength : (Str.utf8 (recordText request.record)).length ≤ maxUsageRecordBytes :=
    (fits_recordText request hdigits).length.trans (by decide)
  have hdecode := decodeUtf8_recordText request
  have hvalid := validateUsageRecord_record hdate request line
  rw [checkedField_round line rfl, dif_pos h] at hvalid
  have hne : Str.utf8 (recordText request.record) ≠ [] := by
    intro hnil
    rw [hnil] at hdecode
    have hempty : decodeUtf8 [] = some [] := rfl
    rw [hempty] at hdecode
    cases hdecode
  unfold addUsageLine
  rw [stripReturn_recordText request, if_neg hne, if_neg (not_lt.mpr hlength), hdecode]
  dsimp only
  rw [parse_recordText]
  dsimp only
  rw [hvalid]
  rfl

/-- A latency beyond the safe integers is refused. -/
theorem addUsageLine_unsafe (hdate : ∀ date, (dateParse (toISOString date)).isSome)
    {request : Request} {report t : UsageReport} {line : ℕ}
    (h : ¬ count request.record.latencyMs ≤ maxSafeInteger) :
    addUsageLine dateParse decodeUtf8 Json.parse maxUsageRecordBytes report
        (stripReturn (Str.utf8 (recordText request.record))) line ≠ .ok t := by
  have hvalid := validateUsageRecord_record hdate request line
  rw [checkedField_round line rfl, dif_neg h] at hvalid
  unfold addUsageLine
  rw [stripReturn_recordText request, decodeUtf8_recordText]
  split_ifs
  · simp
  · simp
  · dsimp only
    rw [parse_recordText]
    dsimp only
    rw [hvalid]
    intro hok
    cases hok

end

end Cyclo.Gateway
