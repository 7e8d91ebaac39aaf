import Cyclo.Gateway.UsageRecord
import Cyclo.Js.SafeInteger
import Cyclo.Js.Utf8
import Cyclo.Protocol.Ids

/-! The usage report: aggregation of the ledger's records, read as a stream of chunks. The text
decoder, `JSON.parse`, `Date.parse` and the collation of `localeCompare` are parameters. -/
namespace Cyclo.Gateway
open Js Protocol

def newline : UInt8 := 0x0a

def carriageReturn : UInt8 := 0x0d

def maxUsageRecordBytes : ℕ := 16 * 1024

def usageRecordFields : List Str :=
  ["timestamp", "model", "outcome", "latency_ms", "input_tokens", "output_tokens",
    "cached_input_tokens", "reasoning_tokens"].map lit

/-- `Map.prototype.set`. -/
def mapSet {α : Type*} (key : Str) (value : α) : List (Str × α) → List (Str × α)
  | [] => [(key, value)]
  | (k, v) :: rest => if k = key then (key, value) :: rest else (k, v) :: mapSet key value rest

structure Counters where
  requests : SafeCount
  latencyMs : SafeCount
  inputTokens : SafeCount
  outputTokens : SafeCount
  totalTokens : SafeCount
  cachedInputTokens : SafeCount
  reasoningTokens : SafeCount
  outcomes : List (Str × SafeCount)
  deriving DecidableEq

def emptyCounters : Counters := ⟨.zero, .zero, .zero, .zero, .zero, .zero, .zero, []⟩

structure UsageReport where
  totals : Counters
  byProvider : List (Str × Counters)
  byModel : List (Str × Counters)
  deriving DecidableEq

def emptyUsageReport : UsageReport := ⟨emptyCounters, [], []⟩

/-- What `addUsageLine` reads of a validated record. -/
structure ValidRecord where
  provider : Str
  model : Str
  outcome : Str
  latencyMs : SafeCount
  inputTokens : SafeCount
  outputTokens : SafeCount
  cachedInputTokens : SafeCount
  reasoningTokens : SafeCount

/-- `/^[^\u0000-\u001f\u007f]+$/u` -/
def safeText (text : Str) : Bool := text ≠ [] && text.all fun c => 0x1f < c && c ≠ 0x7f

section
variable (dateParse : Str → Option TimeValue)

def validTimestampText : Option Str → Bool
  | some timestamp => timestamp ≠ [] && (dateParse timestamp).isSome
  | none => false

def validOutcome : Option Str → Bool
  | some outcome => outcome.length ≤ 128 && safeText outcome
  | none => false

def checkedField (record : Json) (name : String) (line : ℕ) : Except String SafeCount :=
  match ((record.field (lit name)).bind Json.asNumber).bind Number.toSafeCount with
  | some count => .ok count
  | none => .error s!"usage audit record {line} has an invalid {name}"

/-- The two sorted lists of names are compared as permutations of each other. -/
def validateUsageRecord (record : Json) (line : ℕ) : Except String ValidRecord :=
  match record with
  | .obj entries =>
    let text := fun name => (record.field (lit name)).bind Json.asString
    if ¬ (entries.map Prod.fst).isPerm usageRecordFields then
      .error s!"usage audit record {line} has an invalid schema"
    else if ¬ validTimestampText dateParse (text "timestamp") then
      .error s!"usage audit record {line} has an invalid timestamp"
    else if ¬ validOutcome (text "outcome") then
      .error s!"usage audit record {line} has an invalid outcome"
    else do
      let latencyMs ← checkedField record "latency_ms" line
      let inputTokens ← checkedField record "input_tokens" line
      let outputTokens ← checkedField record "output_tokens" line
      let cachedInputTokens ← checkedField record "cached_input_tokens" line
      let reasoningTokens ← checkedField record "reasoning_tokens" line
      match text "model", (text "model").bind splitPublicModelId with
      | some model, some route =>
        .ok ⟨route.provider, model, (text "outcome").getD [], latencyMs, inputTokens,
          outputTokens, cachedInputTokens, reasoningTokens⟩
      | _, _ => .error s!"usage audit record {line} has an invalid provider/model"
  | _ => .error s!"usage audit record {line} must be an object"

def checkedAdd (left right : SafeCount) (line : ℕ) : Except String SafeCount :=
  match (left.toNumber.add right.toNumber).toSafeCount with
  | some sum => .ok sum
  | none => .error s!"usage audit counters overflow at record {line}"

def addCounters (target : Counters) (record : ValidRecord) (line : ℕ) : Except String Counters := do
  let requests ← checkedAdd target.requests .one line
  let latencyMs ← checkedAdd target.latencyMs record.latencyMs line
  let inputTokens ← checkedAdd target.inputTokens record.inputTokens line
  let outputTokens ← checkedAdd target.outputTokens record.outputTokens line
  let cachedInputTokens ← checkedAdd target.cachedInputTokens record.cachedInputTokens line
  let reasoningTokens ← checkedAdd target.reasoningTokens record.reasoningTokens line
  let tokens ← checkedAdd record.inputTokens record.outputTokens line
  let totalTokens ← checkedAdd target.totalTokens tokens line
  let outcome ← checkedAdd ((target.outcomes.lookup record.outcome).getD .zero) .one line
  return ⟨requests, latencyMs, inputTokens, outputTokens, totalTokens, cachedInputTokens,
    reasoningTokens, mapSet record.outcome outcome target.outcomes⟩

def addGroup (groups : List (Str × Counters)) (key : Str) (record : ValidRecord) (line : ℕ) :
    Except String (List (Str × Counters)) := do
  let counters ← addCounters ((groups.lookup key).getD emptyCounters) record line
  return mapSet key counters groups

/-- The accumulator of a report under construction. Its groups are in the order of insertion. -/
def addUsageRecord (report : UsageReport) (record : ValidRecord) (line : ℕ) :
    Except String UsageReport := do
  let totals ← addCounters report.totals record line
  let providers ← addGroup report.byProvider record.provider record line
  let models ← addGroup report.byModel record.model record line
  return ⟨totals, providers, models⟩

variable (decodeText : Bytes → Option Str) (jsonParse : Str → Option Json)

def addUsageLine (maxRecordBytes : ℕ) (report : UsageReport) (bytes : Bytes) (line : ℕ) :
    Except String UsageReport :=
  if bytes = [] then .error s!"usage audit record {line} is empty"
  else if maxRecordBytes < bytes.length then
    .error s!"usage audit record {line} exceeds {maxRecordBytes} bytes"
  else
    match decodeText bytes with
    | none => .error s!"usage audit record {line} is not valid UTF-8"
    | some text =>
      match jsonParse text with
      | none => .error s!"usage audit record {line} is not valid JSON"
      | some record => do
        let record ← validateUsageRecord dateParse record line
        addUsageRecord report record line

structure Reader where
  report : UsageReport
  pending : Bytes
  oversized : Bool
  line : ℕ

def Reader.initial : Reader := ⟨emptyUsageReport, [], false, 0⟩

variable (maxRecordBytes : ℕ)

/-- A fragment of a line. -/
def Reader.extend (reader : Reader) (fragment : Bytes) : Reader :=
  if reader.oversized then reader
  else if maxRecordBytes + 1 < reader.pending.length + fragment.length then
    { reader with pending := [], oversized := true }
  else { reader with pending := reader.pending ++ fragment }

def stripReturn (record : Bytes) : Bytes :=
  if record.getLast? = some carriageReturn then record.dropLast else record

/-- The end of a line. -/
def Reader.endLine (reader : Reader) : Except String Reader :=
  let line := reader.line + 1
  if reader.oversized then
    .error s!"usage audit record {line} exceeds {maxRecordBytes} bytes"
  else do
    let report ← addUsageLine dateParse decodeText jsonParse maxRecordBytes reader.report
      (stripReturn reader.pending) line
    return ⟨report, [], false, line⟩

/-- The loop over the lines of one chunk. -/
def readChunk (reader : Reader) (chunk : Bytes) : Except String Reader :=
  if chunk = [] then .ok reader
  else
    let fragment := chunk.takeWhile (· ≠ newline)
    let reader := reader.extend maxRecordBytes fragment
    match _hrest : chunk.dropWhile (· ≠ newline) with
    | [] => .ok reader
    | _ :: rest => do
      let reader ← reader.endLine dateParse decodeText jsonParse maxRecordBytes
      readChunk reader rest
termination_by chunk.length
decreasing_by
  have hle := (List.dropWhile_suffix (l := chunk) (· ≠ newline)).length_le
  rw [_hrest, List.length_cons] at hle
  omega

variable (localeLe : Str → Str → Bool)

/-- The groups of the report in their displayed order. -/
def sortedGroups (groups : List (Str × Counters)) : List (Str × Counters) :=
  groups.mergeSort fun left right => localeLe left.1 right.1

def finishUsageReport (report : UsageReport) : UsageReport :=
  ⟨report.totals, sortedGroups localeLe report.byProvider, sortedGroups localeLe report.byModel⟩

/-- `aggregateUsageFile`: the ledger is absent, or a snapshot of it arrives in chunks. A positive
`maxRecordBytes` is checked first. -/
def aggregateUsageFile (stream : Option (List Bytes)) : Except String UsageReport :=
  match stream with
  | none => .ok emptyUsageReport
  | some chunks =>
    if chunks.flatten = [] then .ok emptyUsageReport
    else do
      let reader ← chunks.foldlM (readChunk dateParse decodeText jsonParse maxRecordBytes)
        Reader.initial
      return finishUsageReport localeLe reader.report

end
end Cyclo.Gateway
