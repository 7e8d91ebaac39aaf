import Cyclo.Js.Text
import Cyclo.Protocol.RetryTime

/-! The terminal adapter of a team's Pi process: it replays a request only while nothing of an
answer was seen, and closes Pi's stream once. -/
namespace Cyclo.Team.Pi
open Js Protocol

def maxTimerDelayMs : ℤ := 2147483647

def minExhaustionRetryDelayMs : ℤ := 1000

structure InferRequest where
  model : Str
  payload : Str
  deriving DecidableEq

/-- One `delay`: it takes as long as asked for or longer, or the signal rejects it. -/
inductive Delay where
  | elapsed (late : ℕ)
  | rejected (error : Thrown)

inductive Slept where
  | finished (ms : ℤ)
  | rejected (error : Thrown)
  | waiting

def Slept.after (ms : ℤ) : Slept → Slept
  | .finished rest => .finished (ms + rest)
  | .rejected error => .rejected error
  | .waiting => .waiting

/-- `abortableSleep(delayMs, signal)`, as far as the outcomes of its delays go. -/
def abortableSleep : ℤ → List Delay → Slept
  | remaining, [] => if 0 < remaining then .waiting else .finished 0
  | remaining, delay :: delays =>
    if 0 < remaining then
      let chunk := min remaining maxTimerDelayMs
      match delay with
      | .rejected error => .rejected error
      | .elapsed late => (abortableSleep (remaining - chunk) delays).after (chunk + late)
    else .finished 0

inductive StopReason where
  | aborted
  | error
  deriving DecidableEq

/-- The message of an error event; its other fields are empty or constant. -/
structure ErrorMessage where
  provider : Str
  model : Str
  stopReason : StopReason
  errorMessage : Str
  deriving DecidableEq

/-- `raw.replace(/\s+/gu, " ")`; the flag is set inside a run. -/
def collapseSpaces : Bool → Str → Str
  | _, [] => []
  | inRun, c :: text =>
    if Str.isSpace c then
      if inRun then collapseSpaces true text else 0x20 :: collapseSpaces true text
    else c :: collapseSpaces false text

def providerErrorMessage (raw : Str) : Str :=
  let visible := raw.map fun c => if c ≤ 0x1f || c = 0x7f then 0x20 else c
  let safe := ((collapseSpaces false visible).trim).take 512
  if safe = [] then lit "unknown provider error" else safe

inductive Ending where
  | waiting
  | finished
  | failed (error : Thrown)

/-- What the pump meets in one attempt: the responses, how the call ends, and what the signal and
the clock say from there on. -/
structure Attempt where
  responses : List Str
  ending : Ending
  aborted : Bool
  now : ℤ
  delays : List Delay
  thrown : Option Thrown
  abortedAtEnd : Bool

inductive Effect (Event : Type) where
  | infer (request : InferRequest)
  | received (payload : Str)
  | push (event : Event)
  | finish
  | exhausted (error : Thrown) (now : ℤ)
  | waited (ms : ℤ)
  | failure (message : ErrorMessage)
  deriving DecidableEq

/-- What the pump has done, and whether it still waits for something. -/
structure Run (Event : Type) where
  effects : List (Effect Event)
  waiting : Bool
  deriving DecidableEq

def Run.after {Event : Type} (effects : List (Effect Event)) (run : Run Event) : Run Event :=
  ⟨effects ++ run.effects, run.waiting⟩

/-- The model that Pi selected, what third-party code makes of payloads and errors. -/
structure Adapter (Event : Type) where
  provider : Str
  modelId : Str
  publicId : Str
  encoded : Except Thrown Str
  decodePayload : Str → Except Thrown Event
  messageOf : Thrown → Str

section
variable {Event : Type} (adapter : Adapter Event)

def isCanceled : Thrown → Bool
  | .connect error => error.code = .canceled
  | _ => false

/-- The outer `catch`. -/
def Adapter.fail (error : Thrown) (signalAborted : Bool) : Run Event :=
  let aborted := signalAborted || isCanceled error
  ⟨[.failure ⟨adapter.provider, adapter.modelId, if aborted then .aborted else .error,
    if aborted then lit "Cyclo provider request aborted"
    else lit "Cyclo provider request failed: " ++
      providerErrorMessage (adapter.messageOf error)⟩], false⟩

/-- The body of `for await`: the effects, and the error of a payload that does not decode. -/
def Adapter.forward : List Str → List (Effect Event) × Option Thrown
  | [] => ([], none)
  | payload :: responses =>
    match adapter.decodePayload payload with
    | .error error => ([.received payload], some error)
    | .ok event =>
      let (effects, failed) := forward responses
      (.received payload :: .push event :: effects, failed)

/-- The inner `catch`, with what the pump does when it may replay the request. -/
def Adapter.caught (attempt : Attempt) (error : Thrown) (replay : Run Event) : Run Event :=
  let retryAt := if attempt.responses ≠ [] || attempt.aborted then none
    else resourceExhaustedRetryAt error
  match retryAt with
  | none => adapter.fail error attempt.abortedAtEnd
  | some retryAt =>
    let delayMs := max minExhaustionRetryDelayMs (retryAt.ms - attempt.now)
    match abortableSleep delayMs attempt.delays with
    | .waiting => ⟨[.exhausted error attempt.now], true⟩
    | .rejected abort => (adapter.fail abort attempt.abortedAtEnd).after
        [.exhausted error attempt.now]
    | .finished ms =>
      match attempt.thrown with
      | some abort => (adapter.fail abort attempt.abortedAtEnd).after
          [.exhausted error attempt.now, .waited ms]
      | none => replay.after [.exhausted error attempt.now, .waited ms]

/-- `while (true)`, as far as the attempts go. -/
def Adapter.attempts (request : InferRequest) : List Attempt → Run Event
  | [] => ⟨[.infer request], true⟩
  | attempt :: rest =>
    let (effects, failed) := adapter.forward attempt.responses
    Run.after (.infer request :: effects)
      (match failed, attempt.ending with
      | some error, _ => adapter.caught attempt error (attempts request rest)
      | none, .waiting => ⟨[], true⟩
      | none, .finished => ⟨[.finish], false⟩
      | none, .failed error => adapter.caught attempt error (attempts request rest))

/-- `pump(…)`; the flag says whether the signal was aborted before the request was encoded. -/
def Adapter.pump (abortedAtStart : Bool) (attempts : List Attempt) : Run Event :=
  match adapter.encoded with
  | .error error => adapter.fail error abortedAtStart
  | .ok payload => adapter.attempts ⟨adapter.publicId, payload⟩ attempts

end

/-- What Pi sees of an effect. -/
inductive Output (Event : Type) where
  | event (event : Event)
  | finish
  | error (message : ErrorMessage)

def Effect.output {Event : Type} : Effect Event → Option (Output Event)
  | .push event => some (.event event)
  | .finish => some .finish
  | .failure message => some (.error message)
  | _ => none

def Run.outputs {Event : Type} (run : Run Event) : List (Output Event) :=
  run.effects.filterMap Effect.output

/-- An attempt of which nothing is known yet. -/
def Attempt.silent : Attempt := ⟨[], .waiting, false, 0, [], none, false⟩

section
variable {Event : Type} {adapter : Adapter Event} {request : InferRequest}

/-- A finished sleep takes as long as asked for. -/
theorem le_of_abortableSleep {remaining ms : ℤ} {delays : List Delay}
    (h : abortableSleep remaining delays = .finished ms) : remaining ≤ ms ∧ 0 ≤ ms := by
  induction delays generalizing remaining ms with
  | nil =>
    unfold abortableSleep at h
    split_ifs at h with hpos
    cases h
    omega
  | cons delay delays ih =>
    unfold abortableSleep at h
    split_ifs at h with hpos
    · cases delay with
      | rejected error => cases h
      | elapsed late =>
        cases hrest : abortableSleep (remaining - min remaining maxTimerDelayMs) delays with
        | finished rest =>
          dsimp only at h
          rw [hrest] at h
          cases h
          have hle := ih hrest
          unfold maxTimerDelayMs at hle ⊢
          omega
        | rejected error =>
          dsimp only at h
          rw [hrest] at h
          cases h
        | waiting =>
          dsimp only at h
          rw [hrest] at h
          cases h
    · cases h
      omega

/-- The effects of a response that was received. -/
def Effect.isResponse : Effect Event → Bool
  | .received _ => true
  | .push _ => true
  | _ => false

/-- What comes before a request: nothing, or a request without any response that ended in typed
exhaustion, and a wait that is long enough. -/
def Waited (request : InferRequest) (before : List (Effect Event)) : Prop :=
  before = [] ∨ ∃ earlier error now ms retryAt,
    before = earlier ++ [.infer request, .exhausted error now, .waited ms] ∧
      resourceExhaustedRetryAt error = some retryAt ∧ max 1000 (retryAt.ms - now) ≤ ms

/-- The requests of a run are all the same, and each was due. -/
def Replays (request : InferRequest) (effects : List (Effect Event)) : Prop :=
  ∀ before sent after, effects = before ++ .infer sent :: after →
    sent = request ∧ Waited request before ∧ ∀ effect ∈ before, effect.isResponse = false

/-- The request that an effect sends. -/
def Effect.sent : Effect Event → Option InferRequest
  | .infer request => some request
  | _ => none

/-- The call of the attempt gave nothing and ended in typed exhaustion, before any abort, and its
sleep went so. -/
def Attempt.Sleeps (attempt : Attempt) (error : Thrown) (slept : Slept) : Prop :=
  attempt.responses = [] ∧ attempt.aborted = false ∧
    ∃ retryAt, resourceExhaustedRetryAt error = some retryAt ∧
      abortableSleep (max minExhaustionRetryDelayMs (retryAt.ms - attempt.now)) attempt.delays =
        slept

/-- An attempt after which the request is due again. -/
def Attempt.Replayed (attempt : Attempt) : Prop :=
  attempt.thrown = none ∧
    ∃ error ms, attempt.ending = .failed error ∧ attempt.Sleeps error (.finished ms)

/-- An attempt that has not ended: its call may still give something, or its sleep goes on. -/
def Attempt.Open (attempt : Attempt) : Prop :=
  attempt.ending = .waiting ∨ ∃ error, attempt.ending = .failed error ∧ attempt.Sleeps error .waiting

/-- How an attempt closes what Pi sees of it: with nothing while it goes on, with the end after all
of its responses, and else with one error. -/
def Attempt.Closed (attempt : Attempt) (undecoded : List Str) (waiting : Bool)
    (closing : List (Output Event)) : Prop :=
  (waiting = true ∧ closing = [] ∧ undecoded = [] ∧ attempt.Open) ∨
    (waiting = false ∧ closing = [.finish] ∧ undecoded = [] ∧ attempt.ending = .finished) ∨
    (waiting = false ∧ (∃ message, closing = [.error message]) ∧
      (undecoded ≠ [] ∨
        (∃ error, attempt.ending = .failed error) ∧ ¬ attempt.Open ∧ ¬ attempt.Replayed))

/-- What Pi sees is of the last attempt begun, all attempts before it having ended so that the
request was due again: the events that its responses decode to, up to the first one that does not,
and then the end, one error where the attempt failed otherwise, or nothing while it goes on. -/
structure Closes (adapter : Adapter Event) (request : InferRequest) (attempts : List Attempt)
    (run : Run Event) (passed : List Attempt) (attempt : Attempt) (responses undecoded : List Str)
    (events : List Event) (closing : List (Output Event)) : Prop where
  last : ∃ rest, attempts ++ [Attempt.silent] = passed ++ attempt :: rest
  replayed : ∀ earlier ∈ passed, earlier.Replayed
  sent : run.effects.filterMap Effect.sent = List.replicate (passed.length + 1) request
  received : attempt.responses = responses ++ undecoded
  decoded : responses.map adapter.decodePayload = events.map Except.ok
  stopped : ∀ payload ∈ undecoded.head?, ∃ error, adapter.decodePayload payload = .error error
  outputs : run.outputs = events.map Output.event ++ closing
  closed : attempt.Closed undecoded run.waiting closing

/-- A run of no further request that shows no event: it waits, or fails with one error. -/
structure Stops (run : Run Event) : Prop where
  sent : run.effects.filterMap Effect.sent = []
  outputs : run.waiting = true ∧ run.outputs = [] ∨
    run.waiting = false ∧ ∃ message, run.outputs = [.error message]

theorem stops_fail (error : Thrown) (aborted : Bool) : Stops (adapter.fail error aborted) :=
  ⟨rfl, .inr ⟨rfl, _, rfl⟩⟩

theorem Stops.after {run : Run Event} (h : Stops run) {effects : List (Effect Event)}
    (hquiet : effects.filterMap Effect.sent = [])
    (hsilent : effects.filterMap Effect.output = []) : Stops (run.after effects) := by
  have houtputs : (run.after effects).outputs = run.outputs := by
    unfold Run.outputs Run.after
    rw [List.filterMap_append, hsilent, List.nil_append]
  constructor
  · unfold Run.after
    rw [List.filterMap_append, hquiet, h.sent]
    rfl
  · rw [houtputs]
    exact h.outputs

theorem Attempt.Sleeps.unique {attempt : Attempt} {error : Thrown} {slept slept' : Slept}
    (h : attempt.Sleeps error slept) (h' : attempt.Sleeps error slept') : slept = slept' := by
  obtain ⟨-, -, retryAt, hr, rfl⟩ := h
  obtain ⟨-, -, retryAt', hr', rfl⟩ := h'
  rw [Option.some.inj (hr.symm.trans hr')]

/-- The inner `catch` sleeps on, fails, or replays after a typed exhaustion before any response and
a wait that is long enough. -/
theorem caught_cases (attempt : Attempt) (error : Thrown) (replay : Run Event) :
    (attempt.Sleeps error .waiting ∧
      adapter.caught attempt error replay = ⟨[.exhausted error attempt.now], true⟩) ∨
    (¬ attempt.Sleeps error .waiting ∧
      (∀ ms, attempt.Sleeps error (.finished ms) → attempt.thrown ≠ none) ∧
      Stops (adapter.caught attempt error replay) ∧
      (adapter.caught attempt error replay).waiting = false) ∨
    ∃ retryAt ms, attempt.thrown = none ∧ attempt.Sleeps error (.finished ms) ∧
      resourceExhaustedRetryAt error = some retryAt ∧ max 1000 (retryAt.ms - attempt.now) ≤ ms ∧
      adapter.caught attempt error replay =
        replay.after [.exhausted error attempt.now, .waited ms] := by
  unfold Adapter.caught
  dsimp only
  split
  · rename_i hnone
    have hno : ∀ slept, ¬ attempt.Sleeps error slept := by
      rintro slept ⟨hresponses, haborted, retryAt, hr, -⟩
      simp [hresponses, haborted, hr] at hnone
    exact .inr (.inl ⟨hno _, fun ms h => absurd h (hno _), stops_fail _ _, rfl⟩)
  · rename_i retryAt hretryAt
    split_ifs at hretryAt with hreceived
    rw [Bool.or_eq_true, decide_eq_true_iff, not_or, not_not, Bool.not_eq_true] at hreceived
    have hsleeps : ∀ {slept}, abortableSleep
        (max minExhaustionRetryDelayMs (retryAt.ms - attempt.now)) attempt.delays = slept →
        attempt.Sleeps error slept :=
      fun h => ⟨hreceived.1, hreceived.2, retryAt, hretryAt, h⟩
    split
    · rename_i hslept
      exact .inl ⟨hsleeps hslept, rfl⟩
    · rename_i abort hslept
      refine .inr (.inl ⟨fun h => ?_, fun ms h => ?_, (stops_fail _ _).after rfl rfl, rfl⟩)
      · cases h.unique (hsleeps hslept)
      · cases h.unique (hsleeps hslept)
    · rename_i ms hslept
      split
      · rename_i abort hthrown
        refine .inr (.inl ⟨fun h => ?_, fun _ _ hnone => ?_, (stops_fail _ _).after rfl rfl, rfl⟩)
        · cases h.unique (hsleeps hslept)
        · rw [hthrown] at hnone
          cases hnone
      · rename_i hthrown
        exact .inr (.inr ⟨retryAt, ms, hthrown, hsleeps hslept, hretryAt,
          (le_of_abortableSleep hslept).1, rfl⟩)

/-- What the body of `for await` shows of the responses: the events of those that decode, up to the
first one that does not. -/
structure Forwards (adapter : Adapter Event) (responses part undecoded : List Str)
    (events : List Event) : Prop where
  received : responses = part ++ undecoded
  decoded : part.map adapter.decodePayload = events.map Except.ok
  stopped : ∀ payload ∈ undecoded.head?, ∃ error, adapter.decodePayload payload = .error error
  outputs : (adapter.forward responses).1.filterMap Effect.output = events.map Output.event
  sent : (adapter.forward responses).1.filterMap Effect.sent = []
  all : (adapter.forward responses).2 = none ↔ undecoded = []

variable (adapter) in
theorem forwards (responses : List Str) :
    ∃ (part undecoded : List Str) (events : List Event),
      Forwards adapter responses part undecoded events := by
  induction responses with
  | nil => exact ⟨[], [], [], rfl, rfl, by simp, rfl, rfl, by simp [Adapter.forward]⟩
  | cons payload responses ih =>
    obtain ⟨part, undecoded, events, ih⟩ := ih
    cases hpayload : adapter.decodePayload payload with
    | error error =>
      have hforward : adapter.forward (payload :: responses) =
          ([.received payload], some error) := by
        rw [Adapter.forward, hpayload]
      refine ⟨[], payload :: responses, [], rfl, rfl, ?_, ?_, ?_, by simp [hforward]⟩
      · intro other ho
        cases ho
        exact ⟨error, hpayload⟩
      · rw [hforward]
        rfl
      · rw [hforward]
        rfl
    | ok event =>
      have hforward : adapter.forward (payload :: responses) =
          (.received payload :: .push event :: (adapter.forward responses).1,
            (adapter.forward responses).2) := by
        rw [Adapter.forward, hpayload]
      refine ⟨payload :: part, undecoded, event :: events, ?_, ?_, ih.stopped, ?_, ?_, ?_⟩
      · rw [ih.received, List.cons_append]
      · rw [List.map_cons, List.map_cons, hpayload, ih.decoded]
      · rw [hforward, List.map_cons, ← ih.outputs]
        rfl
      · rw [hforward, ← ih.sent]
        rfl
      · rw [hforward]
        exact ih.all

/-- A run whose only request is its first effect. -/
theorem replays_of_sent {effects : List (Effect Event)}
    (h : effects.filterMap Effect.sent = []) : Replays request (.infer request :: effects) := by
  intro before sent after heq
  cases before with
  | nil =>
    cases heq
    exact ⟨rfl, .inl rfl, List.forall_mem_nil _⟩
  | cons effect before =>
    rw [List.cons_append, List.cons.injEq] at heq
    have hno := List.filterMap_eq_nil_iff.mp h (.infer sent)
      (heq.2 ▸ List.mem_append_right _ List.mem_cons_self)
    cases hno

theorem replays_after {run : Run Event} {error : Thrown} {now ms : ℤ} {retryAt : TimeValue}
    (h : Replays request run.effects) (herror : resourceExhaustedRetryAt error = some retryAt)
    (hms : max 1000 (retryAt.ms - now) ≤ ms) :
    Replays request ([.infer request, .exhausted error now, .waited ms] ++ run.effects) := by
  intro before sent after heq
  rcases before with _ | ⟨first, _ | ⟨second, _ | ⟨third, before⟩⟩⟩
  · cases heq
    exact ⟨rfl, .inl rfl, List.forall_mem_nil _⟩
  · cases heq
  · cases heq
  · simp only [List.cons_append, List.nil_append, List.cons.injEq] at heq
    obtain ⟨rfl, rfl, rfl, hrest⟩ := heq
    obtain ⟨hsent, hwaited, hquiet⟩ := h before sent after hrest
    refine ⟨hsent, .inr ?_, List.forall_mem_cons.mpr ⟨rfl, List.forall_mem_cons.mpr
      ⟨rfl, List.forall_mem_cons.mpr ⟨rfl, hquiet⟩⟩⟩⟩
    rcases hwaited with rfl | ⟨earlier, error', now', ms', retryAt', rfl, hrest'⟩
    · exact ⟨[], error, now, ms, retryAt, rfl, herror, hms⟩
    · exact ⟨.infer request :: .exhausted error now :: .waited ms :: earlier, error', now', ms',
        retryAt', rfl, hrest'⟩

/-- An attempt that is replayed is passed over. -/
theorem Closes.pass {attempts passed : List Attempt} {run : Run Event} {first attempt : Attempt}
    {responses undecoded : List Str} {events : List Event} {closing : List (Output Event)}
    (h : Closes adapter request attempts run passed attempt responses undecoded events closing)
    (hfirst : first.Replayed) (error : Thrown) (now ms : ℤ) :
    Closes adapter request (first :: attempts)
      (run.after [.infer request, .exhausted error now, .waited ms]) (first :: passed) attempt
      responses undecoded events closing where
  last := by
    obtain ⟨rest, hrest⟩ := h.last
    exact ⟨rest, congrArg (first :: ·) hrest⟩
  replayed := List.forall_mem_cons.mpr ⟨hfirst, h.replayed⟩
  sent := by
    have hsent : (run.after [.infer request, .exhausted error now, .waited ms]).effects.filterMap
        Effect.sent = request :: run.effects.filterMap Effect.sent := rfl
    rw [hsent, h.sent, List.length_cons]
    exact (List.replicate_succ ..).symm
  received := h.received
  decoded := h.decoded
  stopped := h.stopped
  outputs := h.outputs
  closed := h.closed

variable (adapter request) in
/-- The requests of the run were due, and one of the attempts closes it. -/
def Settled (attempts : List Attempt) (run : Run Event) : Prop :=
  Replays request run.effects ∧
    ∃ passed attempt responses undecoded events closing,
      Closes adapter request attempts run passed attempt responses undecoded events closing

section
variable {attempt : Attempt} {part undecoded : List Str} {events : List Event}
  (h : Forwards adapter attempt.responses part undecoded events) (rest : List Attempt)
include h

/-- A run that sends nothing more is closed by the attempt itself. -/
theorem Forwards.ends {run : Run Event} (hsent : run.effects.filterMap Effect.sent = [])
    (hclosed : attempt.Closed undecoded run.waiting run.outputs) :
    Settled adapter request (attempt :: rest)
      (run.after (.infer request :: (adapter.forward attempt.responses).1)) := by
  have hquiet : ((adapter.forward attempt.responses).1 ++ run.effects).filterMap
      Effect.sent = [] := by
    rw [List.filterMap_append, h.sent, hsent]
    rfl
  refine ⟨replays_of_sent hquiet, [], attempt, part, undecoded, events, run.outputs, ⟨_, rfl⟩,
    List.forall_mem_nil _, ?_, h.received, h.decoded, h.stopped, ?_, hclosed⟩
  · exact congrArg (request :: ·) hquiet
  · have hall : (run.after (.infer request :: (adapter.forward attempt.responses).1)).outputs =
        ((adapter.forward attempt.responses).1 ++ run.effects).filterMap Effect.output := rfl
    rw [hall, List.filterMap_append, h.outputs]
    rfl

/-- An error that is caught: of a response that does not decode, or after all responses. -/
theorem Forwards.caught {error : Thrown} (hwhy : undecoded ≠ [] ∨ attempt.ending = .failed error)
    (ih : Settled adapter request rest (adapter.attempts request rest)) :
    Settled adapter request (attempt :: rest)
      ((adapter.caught attempt error (adapter.attempts request rest)).after
        (.infer request :: (adapter.forward attempt.responses).1)) := by
  have hdecoded : attempt.responses = [] → undecoded = [] := by
    intro hnone
    rw [h.received] at hnone
    exact (List.append_eq_nil_iff.mp hnone).2
  have hfailed : attempt.responses = [] → attempt.ending = .failed error :=
    fun hnone => hwhy.resolve_left (not_not.mpr (hdecoded hnone))
  rcases caught_cases attempt error (adapter.attempts request rest) with
    ⟨hsleeps, hrun⟩ | ⟨hno, hthrown, hstops, hwaiting⟩ |
      ⟨retryAt, ms, hthrown, hsleeps, hretryAt, hms, hrun⟩
  · rw [hrun]
    exact h.ends rest rfl (.inl ⟨rfl, rfl, hdecoded hsleeps.1,
      .inr ⟨error, hfailed hsleeps.1, hsleeps⟩⟩)
  · have hmessage := (hstops.outputs.resolve_left fun h => by simp [hwaiting] at h).2
    refine h.ends rest hstops.sent (.inr (.inr ⟨hwaiting, hmessage, ?_⟩))
    refine hwhy.imp_right fun hending => ⟨⟨error, hending⟩, ?_, ?_⟩
    · rintro (hopen | ⟨error', hopen, hsleeps⟩)
      · rw [hending] at hopen
        cases hopen
      · rw [hending] at hopen
        cases hopen
        exact hno hsleeps
    · rintro ⟨hnone, error', ms, hending', hsleeps⟩
      rw [hending] at hending'
      cases hending'
      exact hthrown ms hsleeps hnone
  · obtain ⟨hreplays, passed, attempt', responses, undecoded', events', closing, hcloses⟩ := ih
    have hforward : adapter.forward attempt.responses = ([], none) := by
      rw [hsleeps.1]
      rfl
    have hreplayed : attempt.Replayed := ⟨hthrown, error, ms, hfailed hsleeps.1, hsleeps⟩
    rw [hrun, hforward]
    exact ⟨replays_after hreplays hretryAt hms, attempt :: passed, attempt', responses,
      undecoded', events', closing, hcloses.pass hreplayed error attempt.now ms⟩

end

variable (adapter request) in
theorem attempts_settled (attempts : List Attempt) :
    Settled adapter request attempts (adapter.attempts request attempts) := by
  induction attempts with
  | nil =>
    refine ⟨replays_of_sent rfl, [], .silent, [], [], [], [], ?_⟩
    exact ⟨⟨[], rfl⟩, List.forall_mem_nil _, rfl, rfl, rfl, by simp, rfl,
      .inl ⟨rfl, rfl, rfl, .inl rfl⟩⟩
  | cons attempt rest ih =>
    obtain ⟨part, undecoded, events, h⟩ := forwards adapter attempt.responses
    rw [Adapter.attempts]
    dsimp only
    split
    · rename_i error hfailed
      refine h.caught rest (.inl fun hnone => ?_) ih
      rw [h.all.mpr hnone] at hfailed
      cases hfailed
    · rename_i hfailed hending
      exact h.ends rest rfl (.inl ⟨rfl, rfl, h.all.mp hfailed, .inl hending⟩)
    · rename_i hfailed hending
      exact h.ends rest rfl (.inr (.inl ⟨rfl, rfl, h.all.mp hfailed, hending⟩))
    · rename_i error hfailed hending
      exact h.caught rest (.inr hending) ih

/-- Whatever the attempts meet: every request of a run is the same, and one after the first is due
only where no response was seen, after a typed exhaustion and a wait of at least a second and of the
time left until the retry; and Pi sees the responses of the last attempt, in order, and then the
end, or exactly one error once that attempt failed so that the request is not due again. A request
that cannot be encoded is not sent and gives one error. -/
theorem pump_replay (adapter : Adapter Event) (abortedAtStart : Bool) (attempts : List Attempt) :
    match adapter.encoded with
    | .error _ =>
      ∃ message, adapter.pump abortedAtStart attempts = ⟨[.failure message], false⟩
    | .ok payload =>
      Replays ⟨adapter.publicId, payload⟩ (adapter.pump abortedAtStart attempts).effects ∧
        ∃ passed attempt responses undecoded events closing,
          Closes adapter ⟨adapter.publicId, payload⟩ attempts
            (adapter.pump abortedAtStart attempts) passed attempt responses undecoded events
            closing := by
  unfold Adapter.pump
  split
  · rename_i error _
    exact ⟨_, rfl⟩
  · rename_i payload _
    exact attempts_settled adapter _ attempts

/-- A payload is its own event. -/
def plainAdapter : Adapter Str where
  provider := lit "openai"
  modelId := lit "gpt"
  publicId := lit "openai/gpt"
  encoded := .ok (lit "context")
  decodePayload := .ok
  messageOf := fun _ => []

/-- Exhausted until two seconds after the epoch, and at the epoch; then one response and the end. -/
def exhaustedOnce : List Attempt := [
  ⟨[], .failed (.connect (exhaustedError ⟨2, 0⟩)), false, 0, [.elapsed 5], none, false⟩,
  ⟨[lit "answer"], .finished, false, 0, [], none, false⟩]

theorem pump_replay_exhaustedOnce :
    Replays ⟨lit "openai/gpt", lit "context"⟩
        (plainAdapter.pump false exhaustedOnce).effects ∧
      plainAdapter.pump false exhaustedOnce =
        ⟨[.infer ⟨lit "openai/gpt", lit "context"⟩,
          .exhausted (.connect (exhaustedError ⟨2, 0⟩)) 0, .waited 2005,
          .infer ⟨lit "openai/gpt", lit "context"⟩, .received (lit "answer"),
          .push (lit "answer"), .finish], false⟩ :=
  ⟨(pump_replay plainAdapter false exhaustedOnce).1, by decide +kernel⟩

end

end Cyclo.Team.Pi
