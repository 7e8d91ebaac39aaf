import Cyclo.Gateway.PiAdapter
import Cyclo.Js.IsoDate

/-! The usage record of one inference request. -/
namespace Cyclo.Gateway
open Js Protocol

def codeNumber : Code → ℕ
  | .canceled => 1
  | .unknown => 2
  | .invalidArgument => 3
  | .deadlineExceeded => 4
  | .notFound => 5
  | .alreadyExists => 6
  | .permissionDenied => 7
  | .resourceExhausted => 8
  | .failedPrecondition => 9
  | .aborted => 10
  | .outOfRange => 11
  | .unimplemented => 12
  | .internal => 13
  | .unavailable => 14
  | .dataLoss => 15
  | .unauthenticated => 16

inductive Outcome where
  | credentialUnavailable
  | rpc (code : Code)
  | internal
  | ok
  | clientAbandoned
  deriving DecidableEq

def Outcome.text : Outcome → Str
  | .credentialUnavailable => lit "credential_unavailable"
  | .rpc code => lit "rpc_" ++ lit (Nat.repr (codeNumber code))
  | .internal => lit "internal"
  | .ok => lit "ok"
  | .clientAbandoned => lit "client_abandoned"

/-- `failure instanceof ConnectError ? rpc_code : failure ? "internal" : "ok"`. -/
def Outcome.ofFailure : Option Thrown → Outcome
  | some (.connect error) => .rpc error.code
  | some _ => .internal
  | none => .ok

structure UsageRecord where
  timestamp : Str
  model : Str
  outcome : Str
  latencyMs : Number
  inputTokens : Number
  outputTokens : Number
  cachedInputTokens : Number
  reasoningTokens : Number

def safeNumber (value : Option Number) : Number :=
  match value with
  | none => .finite 0
  | some number => if number.isSafeInteger && !number.lt (.finite 0) then number else .finite 0

/-- The clock when a record is made: `new Date()` and `Date.now()`. -/
structure Clock where
  date : TimeValue
  now : TimeValue

def usageRecord (clock : Clock) (model : Str) (started : TimeValue) (outcome : Outcome)
    (usage : Option Usage) : UsageRecord where
  timestamp := toISOString clock.date
  model := model
  outcome := outcome.text
  latencyMs := Number.max (.finite 0) (clock.now.toNumber.sub started.toNumber)
  inputTokens := safeNumber (usage.map Usage.inputTokens)
  outputTokens := safeNumber (usage.map Usage.outputTokens)
  cachedInputTokens := safeNumber (usage.map Usage.cachedInputTokens)
  reasoningTokens := safeNumber (usage.map Usage.reasoningTokens)

end Cyclo.Gateway
