import Cyclo.Js.Json
import Cyclo.Protocol.Errors

/-! The gateway's adapter to native provider requests: the dispatch loop with its credential
reflection guard and its mapping of upstream failures. -/
namespace Cyclo.Gateway
open Js Protocol

def defaultExhaustionRetryMs : ℤ := 60000

/-- What `onResponse` hands over: the status when it is a number, and the header lookup. -/
structure NativeResponse where
  status : Option Number
  headers : Str → Option Str

/-- The credential values the guard reads, absent where they are not strings. -/
structure Credential where
  apiKey : Option Str
  secretValues : Option (List (Option Str))

structure Frame where
  context : Json
  options : List (Str × Json)

/-- The options of a native request. The remaining ones are forwarded as they are. -/
structure GatewayOptions where
  inference : List (Str × Json)
  apiKey : Option Str
  maxRetries : ℕ
  transport : Option Str

/-- One step of a native stream. An event is absent when `JSON.stringify` does not encode it. -/
inductive NativeStep where
  | response (value : NativeResponse)
  | event (value : Option Json)

/-- The caller's signal when a failure of the upstream is mapped. -/
inductive Signal where
  | live
  | abortedWith (reason : ConnectError)
  | aborted

/-- A native stream: its steps, and whether it then throws. -/
structure Native where
  steps : List NativeStep
  throws : Bool
  signal : Signal

structure Usage where
  inputTokens : Number
  outputTokens : Number
  cachedInputTokens : Number
  reasoningTokens : Number
  deriving DecidableEq

/-- A relayed response. Its payload is the document that the payload text spells. -/
structure Response where
  payload : Json
  usage : Option Usage

/-- Failures inside the dispatch loop. -/
inductive Failure where
  | gatewayResponse (message : String)
  | resourceExhaustion (retryAt : Option TimeValue)
  | upstream

def piCallFrame (payload : Option Json) : Except Thrown Frame :=
  match payload with
  | none => .error (.connect { code := .invalidArgument, message := "Pi payload is not valid JSON" })
  | some frame =>
    match frame.plainObject, frame.field (lit "context") with
    | true, some context =>
      match frame.field (lit "options") with
      | none => .ok ⟨context, []⟩
      | some (.obj options) => .ok ⟨context, options⟩
      | some _ => .error
          (.connect { code := .invalidArgument, message := "Pi call options are not an object" })
    | _, _ =>
      .error (.connect { code := .invalidArgument, message := "Pi payload has no call frame" })

def ownedOptions : List Str :=
  ["apiKey", "signal", "headers", "env", "client", "onPayload", "onResponse", "transport",
    "timeoutMs", "websocketConnectTimeoutMs", "maxRetries", "maxRetryDelayMs"].map lit

def codex : Str := lit "openai-codex-responses"

def gatewayOptions (options : List (Str × Json)) (apiKey : Option Str) (api : Str) :
    GatewayOptions where
  inference := options.filter fun option => option.1 ∉ ownedOptions
  apiKey := apiKey
  maxRetries := 0
  transport := if api = codex then some (lit "sse") else none

def headerValue (headers : Str → Option Str) (name : String) : Option Str := headers (lit name)

/-- `retryAfterMs(headers, nowMs)`; `dateParse` is `Date.parse`, absent for NaN. -/
def retryAfterMs (dateParse : Str → Option TimeValue) (headers : Str → Option Str)
    (nowMs : TimeValue) : Option Number :=
  let fromHeader :=
    match (headerValue headers "retry-after").map Str.trim with
    | none | some [] => none
    | some value =>
      let seconds := Str.toNumber value
      if seconds.isFinite then some (Number.max (.finite 0) (seconds.mul (.finite 1000)))
      else (dateParse value).map fun date =>
        Number.max (.finite 0) (date.toNumber.sub nowMs.toNumber)
  match headerValue headers "retry-after-ms" with
  | none => fromHeader
  | some text =>
    let milliseconds := Str.toNumber text
    if Str.trim text ≠ [] ∧ milliseconds.isFinite then some (Number.max (.finite 0) milliseconds)
    else fromHeader

def errorMessage (event : Json) : Option Str :=
  ((event.field (lit "error")).bind (Json.field (lit "errorMessage"))).bind Json.asString

/-- `/^429(?:\s|$)/u` -/
def startsWith429 (message : Str) : Bool :=
  match message with
  | 0x34 :: 0x32 :: 0x39 :: rest => rest.head?.all Str.isSpace
  | _ => false

def nativeErrorStatus (api : Str) (response : Option NativeResponse) (event : Json) :
    Option Number :=
  match (response.bind NativeResponse.status).filter Number.isInteger with
  | some status => some status
  | none =>
    match errorMessage event with
    | none => none
    | some message =>
      if api = lit "anthropic-messages" ∧ startsWith429 message then some (.finite 429)
      else if api = lit "openai-responses" ∧ message.startsWith (lit "OpenAI API error (429):") then
        some (.finite 429)
      else none

/-- The digits of a match of `/\bTry again in ~(\d+) min\./u` that starts here. -/
def codexMatchHere (message : Str) : Option Str :=
  let start := lit "Try again in ~"
  if message.startsWith start then
    let (digits, rest) := Str.splitDigits (message.drop start.length)
    if digits ≠ [] ∧ rest.startsWith (lit " min.") then some digits else none
  else none

/-- The first match; `afterWord` says that a word character precedes. -/
def codexMatch : Bool → Str → Option Str
  | _, [] => none
  | afterWord, c :: message =>
    (if afterWord then none else codexMatchHere (c :: message)).or
      (codexMatch (Str.isWordUnit c) message)

def codexResetWaitMs (event : Json) : Option Number :=
  match (errorMessage event).bind (codexMatch false) with
  | none => none
  | some digits =>
    let minutes := Str.toNumber digits
    if minutes.isSafeInteger then some ((Number.max (.finite 1) minutes).mul (.finite 60000))
    else none

section
variable (dateParse : Str → Option TimeValue) (now : TimeValue)

def exhaustionWaitMs (api : Str) (response : Option NativeResponse) (event : Json) : Number :=
  ((response.bind fun r => retryAfterMs dateParse r.headers now).or
    (if api = codex then codexResetWaitMs event else none)).getD (.finite defaultExhaustionRetryMs)

/-- The retry time of an exhausted account. The inner absence is an invalid date. -/
def providerExhaustionRetryAt (api : Str) (response : Option NativeResponse) (event : Json) :
    Option (Option TimeValue) :=
  if (event.field (lit "type")).bind Json.asString = some (lit "error") ∧
      nativeErrorStatus api response event = some (.finite 429) then
    match dateOf (now.toNumber.add
        (Number.max (.finite 1000) (exhaustionWaitMs dateParse now api response event))) with
    | some retryAt => some (some retryAt)
    | none => some (dateOf (now.toNumber.add (.finite defaultExhaustionRetryMs)))
  else none

end

def safeTokens (value : Option Json) : Number :=
  match value.bind Json.asNumber with
  | some n => if n.isSafeInteger && !n.lt (.finite 0) then n else .finite 0
  | none => .finite 0

def eventUsage (event : Json) : Option Usage :=
  let kind := (event.field (lit "type")).bind Json.asString
  let usage :=
    if kind = some (lit "done") then
      (event.field (lit "message")).bind (Json.field (lit "usage"))
    else if kind = some (lit "error") then
      (event.field (lit "error")).bind (Json.field (lit "usage"))
    else none
  match usage with
  | some (.obj entries) =>
    let tokens := fun name => safeTokens ((Json.obj entries).field (lit name))
    some {
      inputTokens := ((tokens "input").add (tokens "cacheRead")).add (tokens "cacheWrite")
      outputTokens := tokens "output"
      cachedInputTokens := tokens "cacheRead"
      reasoningTokens := tokens "reasoning" }
  | _ => none

/-- Nodes and object keys of a document. -/
def nodes : Json → ℕ
  | .arr items => 1 + nodesOfItems items
  | .obj entries => 1 + nodesOfEntries entries
  | _ => 1
where
  nodesOfItems : List Json → ℕ
    | [] => 0
    | v :: vs => 1 + nodes v + nodesOfItems vs
  nodesOfEntries : List (Str × Json) → ℕ
    | [] => 0
    | (_, v) :: es => 1 + nodes v + nodesOfEntries es

/-- The pushes of the loop over the entries, the last entry first and its child before its key. -/
def pushEntries (entries : List (Str × Json)) (pending : List Json) : List Json :=
  entries.foldr (fun entry pending => .str entry.1 :: entry.2 :: pending) pending

theorem sum_nodes_pushEntries (entries : List (Str × Json)) (pending : List Json) :
    ((pushEntries entries pending).map nodes).sum =
      nodes.nodesOfEntries entries + (pending.map nodes).sum := by
  induction entries with
  | nil => simp [pushEntries, nodes.nodesOfEntries]
  | cons e es ih =>
    change nodes (.str e.1) + (nodes e.2 + ((pushEntries es pending).map nodes).sum) = _
    rw [ih]
    simp only [nodes, nodes.nodesOfEntries]
    omega

theorem nodesOfEntries_indexed (i : ℕ) (items : List Json) :
    nodes.nodesOfEntries (Json.indexed i items) = nodes.nodesOfItems items := by
  induction items generalizing i with
  | nil => rfl
  | cons v vs ih => simp [Json.indexed, nodes.nodesOfEntries, nodes.nodesOfItems, ih]

theorem nodesOfEntries_entries (v : Json) : nodes.nodesOfEntries v.entries < nodes v := by
  cases v with
  | arr items =>
    rw [Json.entries, nodesOfEntries_indexed, nodes]
    omega
  | obj entries =>
    rw [Json.entries, nodes]
    omega
  | null | bool _ | num _ | str _ => simp [Json.entries, nodes, nodes.nodesOfEntries]

def collectFragments (pending : List Json) (fragments : List Str) : List Str :=
  match pending with
  | [] => fragments
  | .str value :: pending => collectFragments pending (fragments ++ [value])
  | value :: pending => collectFragments (pushEntries value.entries pending) fragments
termination_by (pending.map nodes).sum
decreasing_by
  · simp [nodes]
  · rw [sum_nodes_pushEntries, List.map_cons, List.sum_cons]
    have := nodesOfEntries_entries value
    omega

def stringFragments (document : Json) : List Str := collectFragments [document] []

/-- `Set.prototype.add`. -/
def addTo (set : List ℕ) (value : ℕ) : List ℕ := if value ∈ set then set else set ++ [value]

/-- The loop over the matches that were there before the fragment. -/
def advanceExisting (secret fragment : Str) : List ℕ → List ℕ → Bool × List ℕ
  | [], partials => (false, partials)
  | matched :: existing, partials =>
    let remainder : Str := secret.drop matched
    if fragment.startsWith remainder then (true, partials)
    else advanceExisting secret fragment existing
      (if remainder.startsWith fragment then addTo partials (matched + fragment.length)
       else partials)

/-- Whether a fragment completes the secret, and the lengths of the matches left open. -/
def advancesToCredential (secret : Str) (partials : List ℕ) (fragment : Str) : Bool × List ℕ :=
  if fragment.includes secret then (true, partials)
  else
    match advanceExisting secret fragment partials partials with
    | (true, partials) => (true, partials)
    | (false, partials) =>
      let limit := min (secret.length - 1) fragment.length
      (false, (List.range' 1 limit).foldl (fun partials length =>
        if fragment.endsWith (secret.take length) then addTo partials length else partials)
        partials)

/-- Each secret with its open matches. -/
abbrev Guard := List (Str × List ℕ)

def credentialSecrets (credential : Credential) : List Str :=
  ((credential.apiKey :: credential.secretValues.getD []).filterMap id
    |>.filter (· ≠ [])).eraseDups

def credentialReflectionGuard (credential : Credential) : Guard :=
  (credentialSecrets credential).map fun secret => (secret, [])

/-- One fragment against every secret; nothing is left when one of them is completed. -/
def advanceSecrets (fragment : Str) : Guard → Option Guard
  | [] => some []
  | (secret, partials) :: rest =>
    match advancesToCredential secret partials fragment with
    | (true, _) => none
    | (false, partials) => (advanceSecrets fragment rest).map ((secret, partials) :: ·)

def checkFragments (guard : Guard) (fragments : List Str) : Option Guard :=
  fragments.foldlM (fun guard fragment => advanceSecrets fragment guard) guard

/-- `check(payload)`; the guard throws where nothing is returned. -/
def Guard.check (guard : Guard) (payload : Json) : Option Guard :=
  checkFragments guard (stringFragments payload)

section
variable (dateParse : Str → Option TimeValue) (now : TimeValue)

/-- The loop over the native stream: the responses yielded, and the failure that ends it. -/
def relay (api : Str) (throws : Bool) (guard : Guard) (response : Option NativeResponse)
    (emitted : Bool) : List NativeStep → List Response × Option Failure
  | [] => ([], if throws then some .upstream else none)
  | .response value :: steps => relay api throws guard (some value) emitted steps
  | .event none :: _ => ([], some (.gatewayResponse "upstream emitted a non-JSON Pi event"))
  | .event (some event) :: steps =>
    match guard.check event.wire with
    | none => ([], some (.gatewayResponse
        "upstream response contained gateway authentication material"))
    | some guard =>
      match if emitted then none else providerExhaustionRetryAt dateParse now api response event with
      | some retryAt => ([], some (.resourceExhaustion retryAt))
      | none =>
        let (responses, failure) := relay api throws guard response true steps
        (⟨event.wire, eventUsage event⟩ :: responses, failure)

def upstreamFailure : Signal → ConnectError
  | .live => { code := .unavailable, message := "upstream inference failed" }
  | .abortedWith reason => reason
  | .aborted => { code := .canceled, message := "request canceled" }

/-- The error a failure of the loop is rethrown as. -/
def raised (timestampFromDate : TimeValue → Timestamp) (signal : Signal) : Failure → Thrown
  | .resourceExhaustion retryAt =>
    match createResourceExhaustedError timestampFromDate retryAt with
    | .ok error => .connect error
    | .error thrown => thrown
  | .gatewayResponse message => .connect { code := .dataLoss, message := message }
  | .upstream => .connect (upstreamFailure signal)

/-- `dispatch`: the responses yielded in order, and the error raised after them if any. -/
def dispatch (timestampFromDate : TimeValue → Timestamp)
    (streamers : Str → Option (Json → GatewayOptions → Native))
    (api : Str) (payload : Option Json) (credential : Credential) :
    List Response × Option Thrown :=
  match streamers api with
  | none => ([], some (.connect
      { code := .unavailable, message := "model adapter is unavailable" }))
  | some stream =>
    match piCallFrame payload with
    | .error thrown => ([], some thrown)
    | .ok frame =>
      let native := stream frame.context (gatewayOptions frame.options credential.apiKey api)
      let (responses, failure) := relay dateParse now api native.throws
        (credentialReflectionGuard credential) none false native.steps
      (responses, failure.map (raised timestampFromDate native.signal))

end

end Cyclo.Gateway
