import Cyclo.Js.Date

/-! Connect errors and the typed absolute retry time of an exhausted provider. -/
namespace Cyclo.Protocol
open Js

inductive Code where
  | canceled | unknown | invalidArgument | deadlineExceeded | notFound | alreadyExists
  | permissionDenied | resourceExhausted | failedPrecondition | aborted | outOfRange
  | unimplemented | internal | unavailable | dataLoss | unauthenticated
  deriving DecidableEq

/-- `google.protobuf.Timestamp` as the wire decoder leaves it. -/
structure Timestamp where
  seconds : ℤ
  nanos : ℤ
  deriving DecidableEq

/-- An error detail under its type name. `exhaustion` is what `findDetails` reads from it as a
`ResourceExhaustion`: nothing when the bytes do not decode, and else its `retryAt`. -/
structure Detail where
  typeName : String
  exhaustion : Option (Option Timestamp)
  deriving DecidableEq

structure ConnectError where
  code : Code
  message : String
  details : List Detail := []
  deriving DecidableEq

/-- What JavaScript code throws. -/
inductive Thrown where
  | connect (error : ConnectError)
  | typeError (message : String)
  | rangeError (message : String)
  | error (message : String)
  deriving DecidableEq

def exhaustedMessage : String := "provider resource exhausted"

def minTimestampSeconds : ℤ := -62135596800

def maxTimestampSeconds : ℤ := 253402300799

def exhaustionTypeName : String := "cyclo.provider.v1.ResourceExhaustion"

def Timestamp.valid (value : Timestamp) : Bool :=
  minTimestampSeconds ≤ value.seconds && value.seconds ≤ maxTimestampSeconds &&
    0 ≤ value.nanos && value.nanos ≤ 999999999

def validTimestamp (value : Option Timestamp) : Bool := value.any Timestamp.valid

/-- The error that `createResourceExhaustedError` returns, or what it throws instead. The
conversion of a date is the protobuf runtime's. -/
def createResourceExhaustedError (timestampFromDate : TimeValue → Timestamp)
    (retryAt : Option TimeValue) : Except Thrown ConnectError :=
  match retryAt with
  | none => .error (.typeError "retryAt must be a valid Date")
  | some date =>
    let timestamp := timestampFromDate date
    if validTimestamp (some timestamp) then
      .ok {
        code := .resourceExhausted
        message := exhaustedMessage
        details := [⟨exhaustionTypeName, some (some timestamp)⟩] }
    else .error (.rangeError "retryAt is outside the protobuf Timestamp range")

/-- `new Date(Number(seconds) * 1_000 + Math.ceil(nanos / 1_000_000))`. -/
def Timestamp.toDate (value : Timestamp) : Option TimeValue :=
  dateOf (((Number.round value.seconds).mul (.finite 1000)).add
    ((Number.finite value.nanos).div (.finite 1000000)).ceil)

def resourceExhaustedRetryAt : Thrown → Option TimeValue
  | .connect error =>
    if error.code ≠ .resourceExhausted then none
    else
      let rawDetails := error.details.filter (·.typeName = exhaustionTypeName)
      if rawDetails.length ≠ 1 then none
      else
        match rawDetails.filterMap Detail.exhaustion with
        | [retryAt] =>
          if validTimestamp retryAt then retryAt.bind Timestamp.toDate else none
        | _ => none
  | _ => none

end Cyclo.Protocol
