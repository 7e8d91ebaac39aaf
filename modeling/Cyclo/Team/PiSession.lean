import Cyclo.Process.Machine
import Mathlib.Logic.Function.Basic

/-! The client of the interactive agent's Pi process: a reader thread classifies the lines that Pi
writes, and hands their outcomes to the prompt that is registered. -/
namespace Cyclo.Team.PiRpc
open Process

variable {Id : Type} [DecidableEq Id]

/-- How the wait of a prompt ends: settled, or with an exception. -/
inductive Outcome where
  | settled
  | rejected (message : String)
  | failed
  | exited
  | unwritten
  deriving DecidableEq

/-- A line from Pi. The id of a response is nothing where it is missing or null. -/
inductive Line (Id : Type) where
  | malformed
  | response (id : Option Id) (rejects : Bool) (error : Option String)
  | settled
  | other
  deriving DecidableEq

/-- `rejected` and `settled`, with the active request. -/
def Line.outcome (activeRequest : Option Id) : Line Id → Option Outcome
  | .response id rejects error =>
    if id = activeRequest && rejects then some (.rejected (error.getD "Pi rejected the prompt"))
    else none
  | .settled => some .settled
  | _ => none

/-- The outcomes that lines have. -/
def Outcome.ofLine : Outcome → Bool
  | .settled => true
  | .rejected _ => true
  | _ => false

/-- Where the reader goes on behind `_complete_active`. -/
inductive Next where
  | reading
  | reporting
  | ended
  deriving DecidableEq

inductive Reader (Id : Type) where
  | reading
  | taken (line : Line Id)
  | rendering (outcome : Option Outcome)
  | completing (outcome : Outcome) (next : Next)
  | putting (call : ℕ) (outcome : Outcome) (next : Next)
  | failing
  | reporting
  | finishing
  | ended
  deriving DecidableEq

def Next.reader : Next → Reader Id
  | .reading => .reading
  | .reporting => .reporting
  | .ended => .ended

/-- A call of `run_prompt`. -/
inductive Call where
  | idle
  | locked
  | registered
  | waiting
  | leaving (outcome : Outcome)
  | done (outcome : Outcome)
  deriving DecidableEq

/-- The call is inside `with self._prompt_lock`. -/
def Call.holdsLock : Call → Bool
  | .idle => false
  | .done _ => false
  | _ => true

def Call.isRegistered : Call → Bool
  | .registered => true
  | .waiting => true
  | .leaving _ => true
  | _ => false

/-- The call waits for its queue, or is about to. -/
def Call.awaits : Call → Bool
  | .registered => true
  | .waiting => true
  | _ => false

/-- A session. Calls are known by their number, and a result queue by its call. -/
structure Session (Id : Type) where
  activeRequest : Option Id
  activeResult : Option ℕ
  error : Bool
  eof : Bool
  reader : Reader Id
  promptLock : Option ℕ
  calls : ℕ → Call
  queues : ℕ → Option Outcome

def Session.initial : Session Id where
  activeRequest := none
  activeResult := none
  error := false
  eof := false
  reader := .reading
  promptLock := none
  calls _ := .idle
  queues _ := none

/-- The steps: what the reader does between and inside its critical sections, and likewise the
calls. Writing to Pi, by a prompt or by `send_message`, changes nothing here. -/
inductive Action (Id : Type) where
  | take (line : Line Id)
  | close
  | breakOff
  | classify
  | render (accepted : Bool)
  | look
  | put (call : ℕ) (outcome : Outcome)
  | fail
  | report
  | finish
  | acquire (call : ℕ)
  | refuse (call : ℕ)
  | register (call : ℕ)
  | send (call : ℕ) (written : Bool)
  | receive (call : ℕ)
  | unregister (call : ℕ)
  deriving DecidableEq

section
variable (request : ℕ → Id)

def Session.setCall (s : Session Id) (c : ℕ) (call : Call) : Session Id :=
  { s with calls := Function.update s.calls c call }

/-- Which queue `_complete_active` puts into, if any. -/
def Session.completeActive (s : Session Id) (outcome : Outcome) (next : Next) : Reader Id :=
  match s.activeResult with
  | none => next.reader
  | some c => .putting c outcome next

/-- One step, for calls with the given request ids. -/
def step (s : Session Id) : Action Id → Option (Session Id)
  | .take line => if s.reader = .reading then some { s with reader := .taken line } else none
  | .close => if s.reader = .reading then some { s with reader := .finishing } else none
  | .breakOff => if s.reader = .reading then some { s with reader := .failing } else none
  | .classify =>
    match s.reader with
    | .taken .malformed => some { s with reader := .failing }
    | .taken line => some { s with reader := .rendering (line.outcome s.activeRequest) }
    | _ => none
  | .render accepted =>
    match s.reader with
    | .rendering outcome =>
      some { s with reader :=
        match accepted, outcome with
        | false, _ => .failing
        | true, none => .reading
        | true, some outcome => .completing outcome .reading }
    | _ => none
  | .look =>
    match s.reader with
    | .completing outcome next => some { s with reader := s.completeActive outcome next }
    | _ => none
  | .put c outcome =>
    match s.reader with
    | .putting c' outcome' next =>
      if c' = c ∧ outcome' = outcome then
        some { s with
          reader := next.reader
          queues := if s.queues c = none then Function.update s.queues c (some outcome)
            else s.queues }
      else none
    | _ => none
  | .fail =>
    if s.reader = .failing then
      some { s with error := true, reader := .completing .failed .reporting }
    else none
  | .report => if s.reader = .reporting then some { s with reader := .finishing } else none
  | .finish =>
    if s.reader = .finishing then some { s with eof := true, reader := .completing .exited .ended }
    else none
  | .acquire c =>
    if s.calls c = .idle ∧ s.promptLock = none then
      some { s.setCall c .locked with promptLock := some c }
    else none
  | .refuse c =>
    if s.calls c = .locked ∧ (s.error || s.eof) = true then
      some { s.setCall c (.done (if s.error then .failed else .exited)) with promptLock := none }
    else none
  | .register c =>
    if s.calls c = .locked ∧ (s.error || s.eof) = false then
      some { s.setCall c .registered with
        activeRequest := some (request c)
        activeResult := some c
        queues := Function.update s.queues c none }
    else none
  | .send c written =>
    if s.calls c = .registered then
      some (s.setCall c (if written then .waiting else .leaving .unwritten))
    else none
  | .receive c =>
    match s.calls c, s.queues c with
    | .waiting, some outcome =>
      some { s.setCall c (.leaving outcome) with queues := Function.update s.queues c none }
    | _, _ => none
  | .unregister c =>
    match s.calls c with
    | .leaving outcome =>
      some { s.setCall c (.done outcome) with
        activeRequest := if s.activeResult = some c then none else s.activeRequest
        activeResult := if s.activeResult = some c then none else s.activeResult
        promptLock := none }
    | _ => none

/-- The outcome that the reader holds for whoever is registered when it is handed on. -/
def Reader.undelivered (id : Id) : Reader Id → Bool
  | .taken line => (line.outcome (some id)).isSome
  | .rendering (some outcome) => outcome.ofLine
  | .completing outcome _ => outcome.ofLine
  | _ => false

/-- No call registers while the reader holds an outcome of a line taken before. -/
def Orderly (s : Session Id) : Action Id → Prop
  | .register c => s.reader.undelivered (request c) = false
  | _ => True

instance (s : Session Id) : ∀ a, Decidable (Orderly request s a)
  | .register c => inferInstanceAs (Decidable (s.reader.undelivered (request c) = false))
  | .take _ | .close | .breakOff | .classify | .render _ | .look | .put _ _ | .fail | .report
  | .finish | .acquire _ | .refuse _ | .send _ _ | .receive _ | .unregister _ => .isTrue trivial

end

end Cyclo.Team.PiRpc
