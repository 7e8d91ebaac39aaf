import Cyclo.Gateway.UsageRecord
import Cyclo.Process.Machine

/-! The gateway's `infer`: an async generator that holds the last response of the backend back
until the usage record of the request is written. -/
namespace Cyclo.Gateway.Infer
open Js Protocol Process

/-- What is thrown: an error, or a value that a test for truth takes for no failure at all. -/
inductive Raised where
  | error (thrown : Thrown)
  | falsy
  deriving DecidableEq

/-- `failure = error`, as the tests of `failure` read it. -/
def Raised.failure : Raised → Option Thrown
  | .error thrown => some thrown
  | .falsy => none

/-- What a request exchanges with the backend, the usage audit and its consumer. -/
inductive Event where
  | routed
  | pulled (response : Response)
  | attempt (outcome : Outcome) (usage : Option Usage)
  | recorded
  | unrecorded
  | yielded (payload : Json)
  | threw (error : Raised)
  | done

/-- How the body leaves the outer `try`. -/
inductive Completion where
  | returned
  | thrown (error : Raised)

/-- The `await` or `yield` at which the generator stands. -/
inductive Location where
  | created
  | resolving
  | unavailable
  | pulling
  | relaying (response : Response)
  | closing (completion : Completion)
  | recording
  | lastResponse
  | leaving (completion : Completion)
  | finished

structure Generator where
  location : Location
  usage : Option Usage
  failure : Option Thrown
  pendingResponse : Option Response
  auditAttempted : Bool
  aborted : Bool
  log : List Event

def create (aborted : Bool) : Generator where
  location := .created
  usage := none
  failure := none
  pendingResponse := none
  auditAttempted := false
  aborted := aborted
  log := []

/-- The moves of the surroundings. The consumer calls `next`, `stop` for `return`, or `throw`;
calls made while the generator runs are queued until it stands at a `yield`. The others settle
what the generator awaits: the credential, the backend's next response, the close of the backend's
stream, and the append to the usage ledger. The caller's signal may abort at any time. -/
inductive Label where
  | next
  | stop
  | throw (error : Raised)
  | resolved
  | unresolved
  | response (value : Response)
  | ended
  | thrown (error : Raised)
  | closed
  | closeThrown (error : Raised)
  | audited
  | auditFailed
  | abort

def unknownModel : Thrown := .connect { code := .notFound, message := "unknown model" }

def credentialUnavailable : Thrown :=
  .connect { code := .unavailable, message := "gateway credential unavailable" }

def inferenceFailed : Thrown :=
  .connect { code := .internal, message := "gateway inference failed" }

def auditUnavailable : Thrown :=
  .connect { code := .internal, message := "gateway usage audit unavailable" }

namespace Generator

def emit (g : Generator) (event : Event) : Generator := { g with log := g.log ++ [event] }

def goto (g : Generator) (location : Location) : Generator := { g with location := location }

def complete (g : Generator) : Completion → Generator
  | .returned => (g.emit .done).goto .finished
  | .thrown error => (g.emit (.threw error)).goto .finished

/-- `writeOutcome`, up to the settlement of the append. -/
def writeOutcome (g : Generator) (outcome : Outcome) : Generator :=
  { g with auditAttempted := true }.emit (.attempt outcome g.usage)

/-- The outer `finally`. -/
def exit (g : Generator) (completion : Completion) : Generator :=
  if g.auditAttempted then g.complete completion
  else (g.writeOutcome (if g.aborted then .rpc .canceled else .clientAbandoned)).goto
    (.leaving completion)

/-- The end of the inner `try`. -/
def record (g : Generator) (failure : Option Thrown) : Generator :=
  { g with failure := failure }.writeOutcome (.ofFailure failure) |>.goto .recording

/-- One turn of the `for await` loop, up to its `yield`. -/
def receive (g : Generator) (response : Response) : Generator :=
  let g := { g with usage := response.usage.or g.usage }.emit (.pulled response)
  match g.pendingResponse with
  | some pending => (g.emit (.yielded pending.payload)).goto (.relaying response)
  | none => { g with pendingResponse := some response }

/-- After the record of a stream that was read. -/
def afterRecord (g : Generator) : Generator :=
  match g.failure with
  | some (.connect error) => g.exit (.thrown (.error (.connect error)))
  | some _ => g.exit (.thrown (.error inferenceFailed))
  | none =>
    match g.pendingResponse with
    | some pending => (g.emit (.yielded pending.payload)).goto .lastResponse
    | none => g.exit .returned

end Generator

section
variable {ρ : Type*} (routes : Str → Option ρ) (model : Str)

def step (g : Generator) (label : Label) : Option Generator :=
  match g.location, label with
  | _, .abort => some { g with aborted := true }
  | .created, .next => some <|
    match routes model with
    | none => g.complete (.thrown (.error unknownModel))
    | some _ => (g.emit .routed).goto .resolving
  | .created, .stop => some (g.complete .returned)
  | .created, .throw error => some (g.complete (.thrown error))
  | .resolving, .resolved => some (g.goto .pulling)
  | .resolving, .unresolved =>
    some ((g.emit (.attempt .credentialUnavailable none)).goto .unavailable)
  | .unavailable, .audited => some ((g.emit .recorded).complete
    (.thrown (.error credentialUnavailable)))
  | .unavailable, .auditFailed => some ((g.emit .unrecorded).complete
    (.thrown (.error auditUnavailable)))
  | .pulling, .response value => some (g.receive value)
  | .pulling, .ended => some (g.record none)
  | .pulling, .thrown error => some (g.record error.failure)
  | .relaying response, .next =>
    some ({ g with pendingResponse := some response }.goto .pulling)
  | .relaying _, .stop => some (g.goto (.closing .returned))
  | .relaying _, .throw error => some (g.goto (.closing (.thrown error)))
  | .closing .returned, .closed => some (g.exit .returned)
  | .closing .returned, .closeThrown error => some (g.record error.failure)
  -- The consumer's error takes precedence over one of the close, and the inner `catch` takes it.
  | .closing (.thrown error), .closed => some (g.record error.failure)
  | .closing (.thrown error), .closeThrown _ => some (g.record error.failure)
  | .recording, .audited => some (g.emit .recorded).afterRecord
  | .recording, .auditFailed => some ((g.emit .unrecorded).exit (.thrown (.error auditUnavailable)))
  | .lastResponse, .next => some (g.exit .returned)
  | .lastResponse, .stop => some (g.exit .returned)
  | .lastResponse, .throw error => some (g.exit (.thrown error))
  | .leaving completion, .audited => some ((g.emit .recorded).complete completion)
  | .leaving _, .auditFailed => some ((g.emit .unrecorded).complete
    (.thrown (.error auditUnavailable)))
  | _, _ => none

end

def pulled (log : List Event) : List Response :=
  log.filterMap fun event => match event with
    | .pulled response => some response
    | _ => none

def yielded (log : List Event) : List Json :=
  log.filterMap fun event => match event with
    | .yielded payload => some payload
    | _ => none

def attempts (log : List Event) : ℕ :=
  log.countP fun event => match event with
    | .attempt _ _ => true
    | _ => false

/-- The conversation while responses are relayed, the last one held back. -/
def relayLog : Option Response → List Response → List Event
  | _, [] => []
  | pending, response :: rest =>
    .pulled response :: (pending.map fun p => Event.yielded p.payload).toList ++
      relayLog (some response) rest

/-- What follows the attempt to record a request whose responses were `rs`. -/
inductive Ending (rs : List Response) : List Event → Prop where
  | waiting : Ending rs []
  | unrecorded : Ending rs [.unrecorded, .threw (.error auditUnavailable)]
  | threw (error : Raised) : Ending rs [.recorded, .threw error]
  | done : Ending rs [.recorded, .done]
  | last (response : Response) (hlast : rs.getLast? = some response) :
    Ending rs [.recorded, .yielded response.payload]
  | lastDone (response : Response) (hlast : rs.getLast? = some response) :
    Ending rs [.recorded, .yielded response.payload, .done]
  | lastThrew (response : Response) (hlast : rs.getLast? = some response) (error : Raised) :
    Ending rs [.recorded, .yielded response.payload, .threw error]

/-- The conversation of a request whose route was resolved, before and after the attempt to record
it. -/
inductive Conversation (rs : List Response) : Bool → List Event → Prop where
  | before : Conversation rs false (.routed :: relayLog none rs)
  | after (outcome : Outcome) (usage : Option Usage) (tail : List Event)
    (hending : Ending rs tail) :
    Conversation rs true (.routed :: relayLog none rs ++ .attempt outcome usage :: tail)

/-- What holds of a generator at each place where it waits. -/
def Held (g : Generator) : Prop :=
  match g.location with
  | .created => g.log = [] ∧ g.failure = none ∧ g.pendingResponse = none ∧ g.auditAttempted = false
  | .resolving =>
    g.log = [.routed] ∧ g.failure = none ∧ g.pendingResponse = none ∧ g.auditAttempted = false
  | .unavailable => g.log = [.routed, .attempt .credentialUnavailable none]
  | .pulling => ∃ rs, g.log = .routed :: relayLog none rs ∧ g.pendingResponse = rs.getLast? ∧
      g.failure = none ∧ g.auditAttempted = false
  | .relaying response => ∃ rs, g.log = .routed :: relayLog none (rs ++ [response]) ∧
      g.failure = none ∧ g.auditAttempted = false
  | .closing completion => completion ≠ .thrown .falsy ∧
      ∃ rs, g.log = .routed :: relayLog none rs ∧ g.failure = none ∧ g.auditAttempted = false
  | .recording => ∃ rs outcome usage,
      g.log = .routed :: relayLog none rs ++ [.attempt outcome usage] ∧ g.auditAttempted = true ∧
        (g.failure = none → g.pendingResponse = rs.getLast?)
  | .lastResponse => ∃ rs outcome usage response, rs.getLast? = some response ∧
      g.log = .routed :: relayLog none rs ++
        [.attempt outcome usage, .recorded, .yielded response.payload] ∧ g.auditAttempted = true
  | .leaving _ => ∃ rs outcome usage,
      g.log = .routed :: relayLog none rs ++ [.attempt outcome usage]
  | .finished => .routed ∉ g.log ∧ attempts g.log = 0 ∨ ∃ rs outcome usage tail,
      g.log = .routed :: relayLog none rs ++ .attempt outcome usage :: tail ∧
        Ending rs tail ∧ tail ≠ []

theorem relayLog_append (pending : Option Response) (rs : List Response) (response : Response) :
    relayLog pending (rs ++ [response]) = relayLog pending rs ++ .pulled response ::
      ((rs.getLast?.or pending).map fun p => Event.yielded p.payload).toList := by
  induction rs generalizing pending with
  | nil => simp [relayLog]
  | cons r rs ih =>
    rw [List.cons_append, relayLog, relayLog, ih]
    cases rs with
    | nil => simp
    | cons q rs =>
      have hlast := List.getLast?_eq_some_getLast (List.cons_ne_nil q rs)
      rw [List.getLast?_cons_cons, hlast]
      simp

section
variable {ρ : Type*} (routes : Str → Option ρ) (model : Str)

theorem held_create (aborted : Bool) : Held (create aborted) := ⟨rfl, rfl, rfl, rfl⟩

theorem held_record {g : Generator} {rs : List Response} (failure : Option Thrown)
    (hlog : g.log = .routed :: relayLog none rs)
    (hpending : failure = none → g.pendingResponse = rs.getLast?) : Held (g.record failure) := by
  refine ⟨rs, .ofFailure failure, g.usage, ?_, rfl, hpending⟩
  simp [Generator.record, Generator.writeOutcome, Generator.emit, Generator.goto, hlog]

theorem held_receive {g : Generator} {rs : List Response} (response : Response)
    (hat : g.location = .pulling) (hlog : g.log = .routed :: relayLog none rs)
    (hpending : g.pendingResponse = rs.getLast?) (hfailure : g.failure = none)
    (hattempted : g.auditAttempted = false) : Held (g.receive response) := by
  unfold Generator.receive Generator.emit Generator.goto
  dsimp only
  rw [hpending]
  cases hlast : rs.getLast? with
  | none =>
    simp only [Held, hat]
    refine ⟨rs ++ [response], ?_, by simp, hfailure, hattempted⟩
    rw [hlog, relayLog_append, hlast]
    simp
  | some pending =>
    refine ⟨rs, ?_, hfailure, hattempted⟩
    simp only
    rw [hlog, relayLog_append, hlast]
    simp

/-- The end of a request after the attempt to record it. -/
theorem held_complete {g : Generator} {rs : List Response} {outcome : Outcome}
    {usage : Option Usage} {tail : List Event} (completion : Completion)
    (hlog : g.log = .routed :: relayLog none rs ++ .attempt outcome usage :: tail)
    (hdone : completion = .returned → Ending rs (tail ++ [.done]))
    (hthrew : ∀ error, completion = .thrown error → Ending rs (tail ++ [.threw error])) :
    Held (g.complete completion) := by
  cases completion with
  | returned =>
    refine .inr ⟨rs, outcome, usage, tail ++ [.done], ?_, hdone rfl, by simp⟩
    simp [Generator.complete, Generator.emit, Generator.goto, hlog]
  | thrown error =>
    refine .inr ⟨rs, outcome, usage, tail ++ [.threw error], ?_, hthrew error rfl, by simp⟩
    simp [Generator.complete, Generator.emit, Generator.goto, hlog]

theorem emit_recording {g : Generator} {rs : List Response} {outcome : Outcome}
    {usage : Option Usage} (event : Event)
    (hlog : g.log = .routed :: relayLog none rs ++ [.attempt outcome usage]) :
    (g.emit event).log = .routed :: relayLog none rs ++ [.attempt outcome usage, event] := by
  simp [Generator.emit, hlog]

theorem exit_of_attempted {g : Generator} (completion : Completion)
    (hattempted : g.auditAttempted = true) : g.exit completion = g.complete completion :=
  if_pos hattempted

/-- A request that ends before its route is resolved. -/
theorem held_unrouted {g : Generator} (completion : Completion) (hlog : g.log = []) :
    Held (g.complete completion) := by
  cases completion with
  | returned =>
    left
    simp [Generator.complete, Generator.emit, Generator.goto, hlog, attempts]
  | thrown error =>
    left
    simp [Generator.complete, Generator.emit, Generator.goto, hlog, attempts]

theorem held_afterRecord {g : Generator} {rs : List Response} {outcome : Outcome}
    {usage : Option Usage}
    (hlog : g.log = .routed :: relayLog none rs ++ [.attempt outcome usage, .recorded])
    (hattempted : g.auditAttempted = true)
    (hpending : g.failure = none → g.pendingResponse = rs.getLast?) : Held g.afterRecord := by
  unfold Generator.afterRecord
  split
  · rw [exit_of_attempted _ hattempted]
    exact held_complete _ hlog (fun h => by cases h) fun _ _ => .threw _
  · rw [exit_of_attempted _ hattempted]
    exact held_complete _ hlog (fun h => by cases h) fun _ _ => .threw _
  · rename_i hfailure
    have hlast := hpending hfailure
    split
    · rename_i pending hsome
      refine ⟨rs, outcome, usage, pending, hlast.symm.trans hsome, ?_, hattempted⟩
      simp [Generator.emit, Generator.goto, hlog]
    · rw [exit_of_attempted _ hattempted]
      exact held_complete _ hlog (fun _ => .done) fun _ h => by cases h

/-- No falsy value is thrown where a response is being relayed: by the consumer, or by the close of
the backend's stream after the consumer stopped. -/
def Truthy (g : Generator) (label : Label) : Prop :=
  match g.location, label with
  | .relaying _, .throw .falsy => False
  | .closing .returned, .closeThrown .falsy => False
  | _, _ => True

instance (g : Generator) (label : Label) : Decidable (Truthy g label) := by
  unfold Truthy
  split <;> infer_instance

theorem Raised.failure_ne_none {error : Raised} (h : error ≠ .falsy) : error.failure ≠ none := by
  cases error with
  | error thrown => exact Option.some_ne_none thrown
  | falsy => exact absurd rfl h

theorem held_step {g t : Generator} {label : Label} (hg : Held g) (htruthy : Truthy g label)
    (h : step routes model g label = some t) : Held t := by
  unfold step at h
  unfold Held at hg
  unfold Truthy at htruthy
  split at h <;> cases h
  · exact hg
  all_goals rename_i hat; rw [hat] at hg htruthy; dsimp only at hg
  -- The body has not begun.
  · obtain ⟨hlog, hrest⟩ := hg
    split
    · exact held_unrouted _ hlog
    · exact ⟨by simp [Generator.emit, Generator.goto, hlog], hrest⟩
  · exact held_unrouted _ hg.1
  · exact held_unrouted _ hg.1
  -- The credential.
  · obtain ⟨hlog, hfailure, hpending, hattempted⟩ := hg
    exact ⟨[], hlog, hpending, hfailure, hattempted⟩
  · show (g.emit _).log = _
    simp [Generator.emit, hg.1]
  · have hlog : g.log = .routed :: relayLog none [] ++ [.attempt .credentialUnavailable none] := hg
    exact held_complete _ (emit_recording _ hlog) (fun h => by cases h) fun _ _ => .threw _
  · have hlog : g.log = .routed :: relayLog none [] ++ [.attempt .credentialUnavailable none] := hg
    exact held_complete _ (emit_recording _ hlog) (fun h => by cases h)
      fun _ h => by cases h; exact .unrecorded
  -- The loop over the backend's responses.
  · obtain ⟨rs, hlog, hpending, hfailure, hattempted⟩ := hg
    exact held_receive _ hat hlog hpending hfailure hattempted
  · obtain ⟨rs, hlog, hpending, -⟩ := hg
    exact held_record none hlog fun _ => hpending
  · obtain ⟨rs, hlog, hpending, -⟩ := hg
    exact held_record _ hlog fun _ => hpending
  · obtain ⟨rs, hlog, hfailure, hattempted⟩ := hg
    exact ⟨rs ++ [_], hlog, by simp [Generator.goto], hfailure, hattempted⟩
  · obtain ⟨rs, hg⟩ := hg
    exact ⟨nofun, rs ++ [_], hg⟩
  · obtain ⟨rs, hg⟩ := hg
    refine ⟨?_, rs ++ [_], hg⟩
    rintro ⟨⟩
    exact htruthy
  -- The close of the backend's stream.
  · obtain ⟨-, rs, hlog, -, hattempted⟩ := hg
    unfold Generator.exit
    rw [if_neg (by simp [hattempted])]
    refine ⟨rs, if g.aborted then .rpc .canceled else .clientAbandoned, g.usage, ?_⟩
    simp [Generator.writeOutcome, Generator.emit, Generator.goto, hlog]
  · obtain ⟨-, rs, hlog, -⟩ := hg
    refine held_record _ hlog fun hnone => absurd hnone (Raised.failure_ne_none ?_)
    rintro rfl
    exact htruthy
  · obtain ⟨hne, rs, hlog, -⟩ := hg
    refine held_record _ hlog fun hnone => absurd hnone (Raised.failure_ne_none ?_)
    exact fun herror => hne (congrArg _ herror)
  · obtain ⟨hne, rs, hlog, -⟩ := hg
    refine held_record _ hlog fun hnone => absurd hnone (Raised.failure_ne_none ?_)
    exact fun herror => hne (congrArg _ herror)
  -- The record of the stream.
  · obtain ⟨rs, outcome, usage, hlog, hattempted, hpending⟩ := hg
    exact held_afterRecord (emit_recording _ hlog) hattempted hpending
  · obtain ⟨rs, outcome, usage, hlog, hattempted, -⟩ := hg
    rw [exit_of_attempted (g := g.emit .unrecorded) _ hattempted]
    exact held_complete _ (emit_recording _ hlog) (fun h => by cases h)
      fun _ h => by cases h; exact .unrecorded
  -- The last response.
  · obtain ⟨rs, outcome, usage, response, hlast, hlog, hattempted⟩ := hg
    rw [exit_of_attempted _ hattempted]
    exact held_complete _ hlog (fun _ => .lastDone response hlast) fun _ h => by cases h
  · obtain ⟨rs, outcome, usage, response, hlast, hlog, hattempted⟩ := hg
    rw [exit_of_attempted _ hattempted]
    exact held_complete _ hlog (fun _ => .lastDone response hlast) fun _ h => by cases h
  · obtain ⟨rs, outcome, usage, response, hlast, hlog, hattempted⟩ := hg
    rw [exit_of_attempted _ hattempted]
    exact held_complete _ hlog (fun h => by cases h) fun _ _ => .lastThrew response hlast _
  -- The record in the `finally`.
  · obtain ⟨rs, outcome, usage, hlog⟩ := hg
    exact held_complete _ (emit_recording _ hlog) (fun _ => .done) fun _ _ => .threw _
  · obtain ⟨rs, outcome, usage, hlog⟩ := hg
    exact held_complete _ (emit_recording _ hlog) (fun h => by cases h)
      fun _ h => by cases h; exact .unrecorded

theorem held_run {aborted : Bool} {labels : List Label} {g : Generator}
    (hall : Throughout (step routes model) Truthy (create aborted) labels)
    (h : run (step routes model) (create aborted) labels = some g) : Held g :=
  run_allowed_invariant (fun _ _ _ => held_step routes model) (held_create aborted) hall h

end

@[simp] theorem pulled_append (l k : List Event) : pulled (l ++ k) = pulled l ++ pulled k :=
  List.filterMap_append

@[simp] theorem yielded_append (l k : List Event) : yielded (l ++ k) = yielded l ++ yielded k :=
  List.filterMap_append

@[simp] theorem attempts_append (l k : List Event) : attempts (l ++ k) = attempts l + attempts k :=
  List.countP_append

theorem pulled_relayLog (pending : Option Response) (rs : List Response) :
    pulled (relayLog pending rs) = rs := by
  induction rs generalizing pending with
  | nil => rfl
  | cons r rs ih =>
    rw [relayLog, pulled_append, ih]
    cases pending <;> rfl

theorem attempts_relayLog (pending : Option Response) (rs : List Response) :
    attempts (relayLog pending rs) = 0 := by
  induction rs generalizing pending with
  | nil => rfl
  | cons r rs ih =>
    rw [relayLog, attempts_append, ih]
    cases pending <;> rfl

theorem yielded_relayLog (pending : Option Response) (rs : List Response) :
    yielded (relayLog pending rs) = ((pending.toList ++ rs).map Response.payload).dropLast := by
  induction rs generalizing pending with
  | nil => cases pending <;> rfl
  | cons r rs ih =>
    rw [relayLog, yielded_append, ih]
    cases pending <;> rfl

/-- A response is relayed only after the next one came. -/
theorem relayLog_yield {pending : Option Response} {rs : List Response} {before after : List Event}
    {payload : Json} (h : relayLog pending rs = before ++ .yielded payload :: after) :
    (yielded before).length + 1 < pending.toList.length + (pulled before).length := by
  induction rs generalizing pending before with
  | nil => simp [relayLog] at h
  | cons r rs ih =>
    rw [relayLog, List.cons_append] at h
    rcases before with - | ⟨first, before⟩
    · cases h
    injection h with hfirst h
    subst hfirst
    cases pending with
    | none =>
      have hlt := ih (show relayLog (some r) rs = before ++ .yielded payload :: after from h)
      simp only [pulled, yielded, List.filterMap_cons, Option.toList, List.length_cons,
        List.length_nil] at hlt ⊢
      omega
    | some p =>
      rcases before with - | ⟨second, before⟩
      · simp [pulled, yielded]
      injection h with hsecond h
      subst hsecond
      have hlt := ih (show relayLog (some r) rs = before ++ .yielded payload :: after from h)
      simp only [pulled, yielded, List.filterMap_cons, Option.toList, List.length_cons,
        List.length_nil] at hlt ⊢
      omega

/-- Whether the request still waits for its credential, its backend or its consumer, and no record
was attempted. -/
def Location.unrecorded : Location → Bool
  | .created | .resolving | .pulling | .relaying _ | .closing _ => true
  | _ => false

theorem conversation_of_held {g : Generator} (hg : Held g) (hrouted : .routed ∈ g.log) :
    ∃ rs, Conversation rs (!g.location.unrecorded) g.log := by
  unfold Held at hg
  cases hat : g.location with
  | created =>
    rw [hat] at hg
    rw [hg.1] at hrouted
    cases hrouted
  | resolving =>
    rw [hat] at hg
    rw [hg.1]
    exact ⟨[], .before⟩
  | unavailable =>
    rw [hat] at hg
    rw [hg]
    exact ⟨[], .after _ _ [] .waiting⟩
  | pulling =>
    rw [hat] at hg
    obtain ⟨rs, hlog, -⟩ := hg
    rw [hlog]
    exact ⟨rs, .before⟩
  | relaying response =>
    rw [hat] at hg
    obtain ⟨rs, hlog, -⟩ := hg
    rw [hlog]
    exact ⟨rs ++ [response], .before⟩
  | closing completion =>
    rw [hat] at hg
    obtain ⟨-, rs, hlog, -⟩ := hg
    rw [hlog]
    exact ⟨rs, .before⟩
  | recording =>
    rw [hat] at hg
    obtain ⟨rs, outcome, usage, hlog, -⟩ := hg
    rw [hlog]
    exact ⟨rs, .after _ _ [] .waiting⟩
  | lastResponse =>
    rw [hat] at hg
    obtain ⟨rs, outcome, usage, response, hlast, hlog, -⟩ := hg
    rw [hlog]
    exact ⟨rs, .after _ _ _ (.last response hlast)⟩
  | leaving completion =>
    rw [hat] at hg
    obtain ⟨rs, outcome, usage, hlog⟩ := hg
    rw [hlog]
    exact ⟨rs, .after _ _ [] .waiting⟩
  | finished =>
    rw [hat] at hg
    rcases hg with ⟨hno, -⟩ | ⟨rs, outcome, usage, tail, hlog, hending, -⟩
    · exact absurd hrouted hno
    · rw [hlog]
      exact ⟨rs, .after _ _ _ hending⟩

theorem mem_relayLog {pending : Option Response} {rs : List Response} {event : Event}
    (h : event ∈ relayLog pending rs) :
    (∃ response, event = .pulled response) ∨ ∃ payload, event = .yielded payload := by
  induction rs generalizing pending with
  | nil => cases h
  | cons r rs ih =>
    rw [relayLog, List.mem_append, List.mem_cons] at h
    rcases h with (h | h) | h
    · exact .inl ⟨r, h⟩
    · cases pending with
      | none => cases h
      | some p => exact .inr ⟨p.payload, by simpa using h⟩
    · exact ih h

theorem not_mem_relaying {rs : List Response} {event : Event}
    (h : event = .recorded ∨ event = .unrecorded) : event ∉ .routed :: relayLog none rs := by
  intro hmem
  rcases List.mem_cons.mp hmem with he | hm
  · rcases h with rfl | rfl <;> cases he
  · rcases mem_relayLog hm with ⟨_, he⟩ | ⟨_, he⟩ <;> rcases h with rfl | rfl <;> cases he

theorem yielded_relaying (rs : List Response) :
    yielded (.routed :: relayLog none rs) = (rs.map Response.payload).dropLast := by
  have h := yielded_relayLog none rs
  rwa [Option.toList_none, List.nil_append] at h

theorem pulled_relaying (rs : List Response) : pulled (.routed :: relayLog none rs) = rs :=
  pulled_relayLog none rs

theorem attempts_relaying (rs : List Response) : attempts (.routed :: relayLog none rs) = 0 :=
  attempts_relayLog none rs

theorem Ending.yield {rs : List Response} {tail before after : List Event} {payload : Json}
    (h : Ending rs tail) (htail : tail = before ++ .yielded payload :: after) :
    .recorded ∈ before := by
  rcases before with - | ⟨first, before⟩
  · cases h <;> cases htail
  cases h with
  | waiting => cases htail
  | unrecorded =>
    injection htail with hfirst hrest
    have hmem : Event.yielded payload ∈ [Event.threw (.error auditUnavailable)] := by
      rw [hrest]
      simp
    simp at hmem
  | threw _ | done | last _ _ | lastDone _ _ | lastThrew _ _ _ =>
    injection htail with hfirst hrest
    rw [← hfirst]
    exact List.mem_cons_self

namespace Conversation
variable {rs : List Response} {recorded : Bool} {log : List Event}

theorem pulled_eq (h : Conversation rs recorded log) : pulled log = rs := by
  cases h with
  | before => exact pulled_relaying rs
  | after outcome usage tail hending =>
    rw [pulled_append, pulled_relaying]
    cases hending <;> exact List.append_nil rs

theorem attempts_eq (h : Conversation rs recorded log) :
    attempts log = if recorded then 1 else 0 := by
  cases h with
  | before => exact attempts_relaying rs
  | after outcome usage tail hending =>
    rw [attempts_append, attempts_relaying]
    cases hending <;> rfl

/-- All responses but the last are relayed, and the last one at most after the record. -/
theorem yielded_eq (h : Conversation rs recorded log) :
    yielded log = (rs.map Response.payload).dropLast ∨
      yielded log = rs.map Response.payload ∧ .unrecorded ∉ log := by
  cases h with
  | before => exact .inl (yielded_relaying rs)
  | after outcome usage tail hending =>
    have hall : ∀ response, rs.getLast? = some response →
        (rs.map Response.payload).dropLast ++ [response.payload] = rs.map Response.payload := by
      intro response hlast
      obtain ⟨init, rfl⟩ := List.getLast?_eq_some_iff.mp hlast
      simp
    have hno : Event.unrecorded ∉ .routed :: relayLog none rs := not_mem_relaying (.inr rfl)
    rw [yielded_append, yielded_relaying]
    cases hending with
    | waiting | unrecorded | threw _ | done => exact .inl (List.append_nil _)
    | last response hlast | lastDone response hlast | lastThrew response hlast error =>
      refine .inr ⟨hall response hlast, ?_⟩
      rw [List.mem_append, not_or]
      exact ⟨hno, by simp⟩

/-- A yield before the record is not that of the last response. -/
theorem yield_before (h : Conversation rs recorded log) {before after : List Event}
    {payload : Json} (hlog : log = before ++ .yielded payload :: after) :
    .recorded ∈ before ∨ (yielded before).length + 1 < (pulled before).length := by
  have hrelay : ∀ after, .routed :: relayLog none rs = before ++ .yielded payload :: after →
      (yielded before).length + 1 < (pulled before).length := by
    intro after h
    rcases before with - | ⟨first, before⟩
    · cases h
    injection h with hfirst h
    subst hfirst
    have hlt := relayLog_yield h
    rwa [Option.toList_none, List.length_nil, Nat.zero_add] at hlt
  cases h with
  | before => exact .inr (hrelay after hlog)
  | after outcome usage tail hending =>
    rcases List.append_eq_append_iff.mp hlog with ⟨mid, hbefore, hrest⟩ | ⟨mid, hrelaying, hrest⟩
    · rcases mid with - | ⟨first, mid⟩
      · cases hrest
      injection hrest with hfirst htail
      subst hbefore
      exact .inl (List.mem_append_right _ (List.mem_cons_of_mem _ (hending.yield htail)))
    · rcases mid with - | ⟨first, mid⟩
      · cases hrest
      injection hrest with hfirst hafter
      subst hfirst
      exact .inr (hrelay mid hrelaying)

theorem unrecorded_last (h : Conversation rs recorded log) (hfailed : .unrecorded ∈ log) :
    log.getLast? = some (.threw (.error auditUnavailable)) := by
  cases h with
  | before => exact absurd hfailed (not_mem_relaying (.inr rfl))
  | after outcome usage tail hending =>
    rcases List.mem_append.mp hfailed with hm | hm
    · exact absurd hm (not_mem_relaying (.inr rfl))
    · cases hending with
      | unrecorded =>
        rw [List.getLast?_append]
        rfl
      | waiting | threw _ | done | last _ _ | lastDone _ _ | lastThrew _ _ _ => simp at hm

end Conversation

/-- What holds of a conversation: one record is attempted, at the latest when the stream is over.
All responses but the last are relayed unchanged and in order, and the last one only after the
record succeeded; when the record fails the request ends in an error instead. -/
structure Audited (g : Generator) : Prop where
  once : attempts g.log = if g.location.unrecorded then 0 else 1
  heldBack : ∀ before payload after, g.log = before ++ .yielded payload :: after →
    .recorded ∈ before ∨ (yielded before).length + 1 < (pulled before).length
  refused : .unrecorded ∈ g.log →
    yielded g.log = ((pulled g.log).map Response.payload).dropLast ∧
      g.log.getLast? = some (.threw (.error auditUnavailable))
  relayed : ((pulled g.log).map Response.payload).dropLast <+: yielded g.log ∧
    yielded g.log <+: (pulled g.log).map Response.payload

theorem audited_of_held {g : Generator} (hg : Held g) (hrouted : .routed ∈ g.log) : Audited g := by
  obtain ⟨rs, hc⟩ := conversation_of_held hg hrouted
  constructor
  · rw [hc.attempts_eq]
    cases g.location.unrecorded <;> rfl
  · exact fun before payload after => hc.yield_before
  · intro hfailed
    rw [hc.pulled_eq]
    refine ⟨?_, hc.unrecorded_last hfailed⟩
    rcases hc.yielded_eq with hy | ⟨-, hno⟩
    · exact hy
    · exact absurd hfailed hno
  · rw [hc.pulled_eq]
    rcases hc.yielded_eq with hy | ⟨hy, -⟩
    · rw [hy]
      exact ⟨List.prefix_refl _, List.dropLast_prefix _⟩
    · rw [hy]
      exact ⟨List.dropLast_prefix _, List.prefix_refl _⟩

/-- The error that the client gets for the failure of a stream. -/
def rethrown : Thrown → Thrown
  | .connect error => .connect error
  | _ => inferenceFailed

section
variable {ρ : Type*} (routes : Str → Option ρ) (model : Str)

/-- The moves are possible, and add these events up to this place. -/
def Leads (g : Generator) (labels : List Label) (events : List Event) (location : Location) :
    Prop :=
  ∃ t, run (step routes model) g labels = some t ∧ t.log = g.log ++ events ∧
    t.location = location

/-- The moves attempt one record; what follows it is as given when the append succeeds, and the
error of the audit when it fails. -/
structure Settles (g : Generator) (labels : List Label) (outcome : Outcome)
    (usage : Option Usage) (events : List Event) (location : Location) : Prop where
  audited : Leads routes model g (labels ++ [.audited])
    (.attempt outcome usage :: .recorded :: events) location
  auditFailed : Leads routes model g (labels ++ [.auditFailed])
    [.attempt outcome usage, .unrecorded, .threw (.error auditUnavailable)] .finished

/-- What follows the record of a stream that is over: its last response, if it had any. -/
def Settles.last (g : Generator) (label : Label) : Prop :=
  match (pulled g.log).getLast? with
  | some last => Settles routes model g [label] .ok g.usage [.yielded last.payload] .lastResponse
  | none => Settles routes model g [label] .ok g.usage [.done] .finished

/-- What a request does next, at each place where its credential, its backend or its consumer is
to move. -/
structure Progresses (g : Generator) : Prop where
  resolved : g.location = .resolving → Leads routes model g [.resolved] [] .pulling
  unresolved : g.location = .resolving → Settles routes model g [.unresolved]
    .credentialUnavailable none [.threw (.error credentialUnavailable)] .finished
  first : ∀ response, g.location = .pulling → pulled g.log = [] →
    Leads routes model g [.response response] [.pulled response] .pulling
  later : ∀ response last, g.location = .pulling → (pulled g.log).getLast? = some last →
    Leads routes model g [.response response] [.pulled response, .yielded last.payload]
      (.relaying response)
  exhausted : ∀ label, g.location = .pulling → label = .ended ∨ label = .thrown .falsy →
    Settles.last routes model g label
  failed : ∀ error, g.location = .pulling → Settles routes model g [.thrown (.error error)]
    (.ofFailure (some error)) g.usage [.threw (.error (rethrown error))] .finished
  relayed : ∀ response, g.location = .relaying response → Leads routes model g [.next] [] .pulling
  stopped : ∀ response, g.location = .relaying response →
    Leads routes model g [.stop] [] (.closing .returned)
  thrown : ∀ response error, g.location = .relaying response →
    Leads routes model g [.throw error] [] (.closing (.thrown error))
  closed : g.location = .closing .returned → Settles routes model g [.closed]
    (if g.aborted then .rpc .canceled else .clientAbandoned) g.usage [.done] .finished
  closeFailed : ∀ error, g.location = .closing .returned →
    Settles routes model g [.closeThrown (.error error)] (.ofFailure (some error)) g.usage
      [.threw (.error (rethrown error))] .finished
  closedAfter : ∀ error close, g.location = .closing (.thrown (.error error)) →
    close = .closed ∨ (∃ other, close = .closeThrown other) →
    Settles routes model g [close] (.ofFailure (some error)) g.usage
      [.threw (.error (rethrown error))] .finished
  appended : ∀ append, g.location = .recording ∨ g.location = .unavailable ∨
    (∃ completion, g.location = .leaving completion) → append = .audited ∨ append = .auditFailed →
    ∃ events location, Leads routes model g [append] events location ∧
      (location = .lastResponse ∨ location = .finished)
  ended : ∀ call, g.location = .lastResponse → call = .next ∨ call = .stop →
    Leads routes model g [call] [.done] .finished
  endThrown : ∀ error, g.location = .lastResponse →
    Leads routes model g [.throw error] [.threw error] .finished

variable {routes model} {g t : Generator} {label : Label} {events : List Event}
  {location : Location}

theorem leads_one (hs : step routes model g label = some t) (hlog : t.log = g.log ++ events)
    (hat : t.location = location) : Leads routes model g [label] events location :=
  ⟨t, by simp [hs], hlog, hat⟩

theorem leads_two {append : Label} (hs : step routes model g label = some t)
    (h : Leads routes model t [append] events location) {first : List Event}
    (hlog : t.log = g.log ++ first) :
    Leads routes model g [label, append] (first ++ events) location := by
  obtain ⟨u, hu, hulog, hat⟩ := h
  refine ⟨u, by simpa [hs] using hu, ?_, hat⟩
  rw [hulog, hlog, List.append_assoc]

theorem complete_location (g : Generator) (completion : Completion) :
    (g.complete completion).location = .finished := by
  cases completion <;> rfl

/-- The last event of a request. -/
def Completion.event : Completion → Event
  | .returned => .done
  | .thrown error => .threw error

theorem complete_log (g : Generator) (completion : Completion) :
    (g.complete completion).log = g.log ++ [completion.event] := by
  cases completion <;> rfl

/-- A step depends on the place, and on the rest of the generator as it is. -/
theorem step_at (hat : g.location = location) :
    step routes model g label = step routes model (g.goto location) label := by
  cases hat
  rfl

variable (routes model) in
/-- The append of a stream that was read fails. -/
theorem recording_auditFailed (hat : g.location = .recording) (hattempted : g.auditAttempted = true) :
    Leads routes model g [.auditFailed] [.unrecorded, .threw (.error auditUnavailable)]
      .finished := by
  have hs : step routes model g .auditFailed =
      some ((g.emit .unrecorded).exit (.thrown (.error auditUnavailable))) := by
    unfold step
    rw [hat]
  rw [exit_of_attempted (g := g.emit .unrecorded) _ hattempted] at hs
  refine leads_one hs ?_ (complete_location _ _)
  rw [complete_log]
  simp [Generator.emit, Completion.event]

variable (routes model) in
theorem recording_audited (hat : g.location = .recording) :
    step routes model g .audited = some (g.emit .recorded).afterRecord := by
  unfold step
  rw [hat]

theorem record_log (g : Generator) (failure : Option Thrown) :
    (g.record failure).log = g.log ++ [.attempt (.ofFailure failure) g.usage] := rfl

theorem afterRecord_failed {error : Thrown} (hfailure : g.failure = some error)
    (hattempted : g.auditAttempted = true) :
    g.afterRecord = g.complete (.thrown (.error (rethrown error))) := by
  unfold Generator.afterRecord
  rw [hfailure]
  cases error <;> exact exit_of_attempted _ hattempted

/-- A stream that failed is recorded so, and its error is given to the client. -/
theorem settles_failed {error : Thrown}
    (hs : step routes model g label = some (g.record (some error))) :
    Settles routes model g [label] (.ofFailure (some error)) g.usage
      [.threw (.error (rethrown error))] .finished where
  audited := by
    refine leads_two hs ?_ (record_log g (some error))
    refine leads_one (recording_audited routes model rfl) ?_ ?_
    · rw [afterRecord_failed rfl rfl, complete_log]
      simp [Generator.emit, Completion.event]
    · rw [afterRecord_failed rfl rfl]
      exact complete_location _ _
  auditFailed := leads_two hs (recording_auditFailed routes model rfl rfl) (record_log g (some error))

/-- A stream that is over is recorded so, and then its last response is given to the client. -/
theorem settles_over (hs : step routes model g label = some (g.record none))
    (hpending : g.pendingResponse = (pulled g.log).getLast?) :
    Settles.last routes model g label := by
  have hrefused := leads_two hs (recording_auditFailed routes model (g := g.record none) rfl rfl)
    (record_log g none)
  unfold Settles.last
  cases hlast : (pulled g.log).getLast? with
  | some last =>
    have hafter : ((g.record none).emit .recorded).afterRecord =
        (((g.record none).emit .recorded).emit (.yielded last.payload)).goto .lastResponse := by
      rw [Generator.afterRecord]
      simp [Generator.record, Generator.writeOutcome, Generator.emit, Generator.goto,
        hpending, hlast]
    refine ⟨leads_two hs (leads_one (recording_audited routes model rfl) ?_ ?_) (record_log g none),
      hrefused⟩
    · rw [hafter]
      simp [Generator.emit, Generator.goto]
    · rw [hafter]
      rfl
  | none =>
    have hafter : ((g.record none).emit .recorded).afterRecord =
        ((g.record none).emit .recorded).complete .returned := by
      rw [← exit_of_attempted .returned (show ((g.record none).emit .recorded).auditAttempted =
        true from rfl), Generator.afterRecord]
      simp [Generator.record, Generator.writeOutcome, Generator.emit, Generator.goto,
        hpending, hlast]
    refine ⟨leads_two hs (leads_one (recording_audited routes model rfl) ?_ ?_) (record_log g none),
      hrefused⟩
    · rw [hafter, complete_log]
      simp [Generator.emit, Completion.event]
    · rw [hafter]
      exact complete_location _ _

/-- One append, after which the request ends. -/
theorem settles_complete {outcome : Outcome} {usage : Option Usage} (completion : Completion)
    (hs : step routes model g label = some t) (hlog : t.log = g.log ++ [.attempt outcome usage])
    (haudited : step routes model t .audited = some ((t.emit .recorded).complete completion))
    (hfailed : step routes model t .auditFailed =
      some ((t.emit .unrecorded).complete (.thrown (.error auditUnavailable)))) :
    Settles routes model g [label] outcome usage [completion.event] .finished where
  audited := by
    refine leads_two hs (leads_one haudited ?_ (complete_location _ _)) hlog
    rw [complete_log]
    simp [Generator.emit]
  auditFailed := by
    refine leads_two hs (leads_one hfailed ?_ (complete_location _ _)) hlog
    rw [complete_log]
    simp [Generator.emit, Completion.event]

theorem appended_complete (h : ∃ event completion, step routes model g label =
    some ((g.emit event).complete completion)) :
    ∃ events location, Leads routes model g [label] events location ∧
      (location = .lastResponse ∨ location = .finished) := by
  obtain ⟨event, completion, hs⟩ := h
  refine ⟨[event, completion.event], .finished, leads_one hs ?_ (complete_location _ _), .inr rfl⟩
  rw [complete_log]
  simp [Generator.emit]

theorem appended_recording (hat : g.location = .recording) (hattempted : g.auditAttempted = true) :
    ∃ events location, Leads routes model g [.audited] events location ∧
      (location = .lastResponse ∨ location = .finished) := by
  have hs := recording_audited routes model hat
  cases hfailure : g.failure with
  | some error =>
    rw [afterRecord_failed (g := g.emit .recorded) hfailure hattempted] at hs
    exact appended_complete ⟨_, _, hs⟩
  | none =>
    cases hpending : g.pendingResponse with
    | some last =>
      have hafter : (g.emit .recorded).afterRecord =
          ((g.emit .recorded).emit (.yielded last.payload)).goto .lastResponse := by
        rw [Generator.afterRecord]
        simp [Generator.emit, hfailure, hpending]
      rw [hafter] at hs
      refine ⟨[.recorded, .yielded last.payload], _, leads_one hs ?_ rfl, .inl rfl⟩
      simp [Generator.emit, Generator.goto]
    | none =>
      have hafter : (g.emit .recorded).afterRecord = (g.emit .recorded).complete .returned := by
        rw [← exit_of_attempted (g := g.emit .recorded) .returned hattempted, Generator.afterRecord]
        simp [Generator.emit, hfailure, hpending]
      rw [hafter] at hs
      exact appended_complete ⟨_, _, hs⟩

variable (routes model) in
theorem progresses_of_held (hg : Held g) : Progresses routes model g := by
  unfold Held at hg
  constructor
  case resolved =>
    intro hat
    exact leads_one (step_at hat) (List.append_nil _).symm rfl
  case unresolved =>
    intro hat
    exact settles_complete (.thrown (.error credentialUnavailable)) (step_at hat) rfl rfl rfl
  case first =>
    intro response hat hnone
    rw [hat] at hg
    obtain ⟨rs, hlog, hpending, -⟩ := hg
    rw [hlog, pulled_relaying] at hnone
    rw [hnone] at hpending
    have hs : step routes model g (.response response) = some (g.receive response) := by
      unfold step
      rw [hat]
    refine leads_one hs ?_ ?_
    · simp [Generator.receive, Generator.emit, hpending]
    · simp [Generator.receive, Generator.emit, hpending, hat]
  case later =>
    intro response last hat hlast
    rw [hat] at hg
    obtain ⟨rs, hlog, hpending, -⟩ := hg
    rw [hlog, pulled_relaying] at hlast
    rw [hlast] at hpending
    have hs : step routes model g (.response response) = some (g.receive response) := by
      unfold step
      rw [hat]
    refine leads_one hs ?_ ?_
    · simp [Generator.receive, Generator.emit, Generator.goto, hpending]
    · simp [Generator.receive, Generator.emit, Generator.goto, hpending]
  case exhausted =>
    intro label hat hover
    rw [hat] at hg
    obtain ⟨rs, hlog, hpending, -⟩ := hg
    refine settles_over ?_ (by rw [hlog, pulled_relaying, hpending])
    unfold step
    rcases hover with rfl | rfl
    · rw [hat]
    · rw [hat]
      rfl
  case failed =>
    intro error hat
    refine settles_failed ?_
    unfold step
    rw [hat]
    rfl
  case relayed =>
    intro response hat
    exact leads_one (step_at hat) (List.append_nil _).symm rfl
  case stopped =>
    intro response hat
    exact leads_one (step_at hat) (List.append_nil _).symm rfl
  case thrown =>
    intro response error hat
    exact leads_one (step_at hat) (List.append_nil _).symm rfl
  case closed =>
    intro hat
    rw [hat] at hg
    obtain ⟨-, rs, -, -, hattempted⟩ := hg
    have hexit : g.exit .returned = (g.writeOutcome
        (if g.aborted then .rpc .canceled else .clientAbandoned)).goto (.leaving .returned) :=
      if_neg (by simp [hattempted])
    have hs : step routes model g .closed = some (g.exit .returned) := by
      unfold step
      rw [hat]
    rw [hexit] at hs
    exact settles_complete .returned hs rfl rfl rfl
  case closeFailed =>
    intro error hat
    refine settles_failed ?_
    unfold step
    rw [hat]
    rfl
  case closedAfter =>
    intro error close hat hclose
    refine settles_failed ?_
    unfold step
    rcases hclose with rfl | ⟨other, rfl⟩
    · rw [hat]
      rfl
    · rw [hat]
      rfl
  case appended =>
    intro append hat happend
    rcases hat with hat | hat | ⟨completion, hat⟩
    · rw [hat] at hg
      obtain ⟨rs, outcome, usage, -, hattempted, -⟩ := hg
      rcases happend with rfl | rfl
      · exact appended_recording hat hattempted
      · exact ⟨_, _, recording_auditFailed routes model hat hattempted, .inr rfl⟩
    · rcases happend with rfl | rfl
      · exact appended_complete ⟨_, _, by unfold step; rw [hat]⟩
      · exact appended_complete ⟨_, _, by unfold step; rw [hat]⟩
    · rcases happend with rfl | rfl
      · exact appended_complete ⟨_, _, by unfold step; rw [hat]⟩
      · exact appended_complete ⟨_, _, by unfold step; rw [hat]⟩
  case ended =>
    intro call hat hcall
    rw [hat] at hg
    obtain ⟨rs, outcome, usage, response, -, -, hattempted⟩ := hg
    have hs : step routes model g call = some (g.complete .returned) := by
      unfold step
      rw [← exit_of_attempted .returned hattempted]
      rcases hcall with rfl | rfl
      · rw [hat]
      · rw [hat]
    exact leads_one hs (complete_log _ _) (complete_location _ _)
  case endThrown =>
    intro error hat
    rw [hat] at hg
    obtain ⟨rs, outcome, usage, response, -, -, hattempted⟩ := hg
    have hs : step routes model g (.throw error) = some (g.complete (.thrown error)) := by
      unfold step
      rw [hat, ← exit_of_attempted (.thrown error) hattempted]
    exact leads_one hs (complete_log _ _) (complete_location _ _)

variable (routes model) in
/-- In every run in which no falsy value is thrown where a response is being relayed, each request
whose route was resolved is audited as it should be in every state, and is settled from there: a
stream that is over gives its last response after the record, a failed one its error. -/
theorem infer_audited {aborted : Bool} {labels : List Label}
    (hall : Throughout (step routes model) Truthy (create aborted) labels)
    (h : run (step routes model) (create aborted) labels = some g) (hrouted : .routed ∈ g.log) :
    Audited g ∧ Progresses routes model g := by
  have hg := held_run routes model hall h
  exact ⟨audited_of_held hg hrouted, progresses_of_held routes model hg⟩

end

/-- Two responses, and a record that fails. -/
def failedRecord : List Label :=
  [.next, .resolved, .response ⟨.bool false, none⟩, .response ⟨.bool true, none⟩, .next, .ended,
    .auditFailed]

def afterFailedRecord : Generator where
  location := .finished
  usage := none
  failure := none
  pendingResponse := some ⟨.bool true, none⟩
  auditAttempted := true
  aborted := false
  log := [.routed, .pulled ⟨.bool false, none⟩, .pulled ⟨.bool true, none⟩,
    .yielded (.bool false), .attempt .ok none, .unrecorded,
    .threw (.error auditUnavailable)]

theorem infer_audited_failed_record :
    attempts afterFailedRecord.log = 1 ∧ yielded afterFailedRecord.log = [.bool false] ∧
      afterFailedRecord.log.getLast? = some (.threw (.error auditUnavailable)) := by
  have hrun : run (step (fun _ => some ()) (lit "p/m")) (create false) failedRecord =
      some afterFailedRecord := rfl
  have hall : Throughout (step (fun _ => some ()) (lit "p/m")) Truthy (create false)
      failedRecord := by decide +kernel
  obtain ⟨haudited, -⟩ := infer_audited _ _ hall hrun List.mem_cons_self
  obtain ⟨hyielded, hlast⟩ := haudited.refused (by simp [afterFailedRecord])
  exact ⟨haudited.once, hyielded, hlast⟩

/-- Two responses, and a consumer that throws nothing in particular at the first one. -/
def falsyThrow : List Label :=
  [.next, .resolved, .response ⟨.bool false, none⟩, .response ⟨.bool true, none⟩, .throw .falsy,
    .closed, .audited]

/-- The throw counts as the end of the stream, and the first response is given again. -/
theorem falsyThrow_repeats :
    ∃ g, run (step (fun _ => some ()) (lit "p/m")) (create false) falsyThrow = some g ∧
      .routed ∈ g.log ∧ yielded g.log = [.bool false, .bool false] ∧
      pulled g.log = [⟨.bool false, none⟩, ⟨.bool true, none⟩] ∧ ¬ Audited g := by
  refine ⟨_, rfl, List.mem_cons_self, rfl, rfl, fun haudited => ?_⟩
  have heq : [Json.bool false, .bool false] = [.bool false, .bool true] :=
    haudited.relayed.2.eq_of_length rfl
  cases heq

end Cyclo.Gateway.Infer
