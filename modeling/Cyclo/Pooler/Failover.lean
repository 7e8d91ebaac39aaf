import Cyclo.Pooler.Pool
import Cyclo.Process.Machine
import Cyclo.Protocol.RetryTime
import Mathlib.Data.List.ModifyLast

/-! Concurrent `infer` requests over one scheduler. A request chooses a member, calls it upstream
and either relays its responses or records its exhaustion and chooses again. -/
namespace Cyclo.Pooler
open Js Protocol Process

/-- A route of the active catalogue: the upstream model of every eligible member. -/
structure Route where
  targetModelIds : List (Str × Str)

def Route.eligibleMemberIds (route : Route) : List Str := route.targetModelIds.map Prod.fst

/-- How a request ends: by the end or an error of the upstream stream, by an error of the pool,
with the exhaustion it generates itself, or because the client stopped reading. -/
inductive Ending where
  | returned
  | upstream (thrown : Thrown)
  | pool (thrown : Thrown)
  | generated (retryAt : TimeValue) (thrown : Thrown)
  | abandoned

inductive Phase where
  | choosing
  | calling (member target : Str) (responded : Bool)
  | ended (ending : Ending)

/-- A request, with the upstream calls it made and the responses each gave, the responses it
relayed and the exhaustions it recorded. -/
structure Request (R : Type) where
  route : Route
  attempt : Attempt
  phase : Phase
  calls : List (Str × List R)
  relayed : List R
  marks : List (Str × TimeValue)

/-- The scheduler with the exhaustions recorded so far, and the requests begun. -/
structure System (R : Type) where
  scheduler : Scheduler
  reports : List (Str × TimeValue)
  requests : List (Request R)

/-- What a request does next on its own, or what its upstream call or its client does. -/
inductive Action (R : Type) where
  | next (now : Number)
  | respond (response : R)
  | finish
  | fail (thrown : Thrown)
  | stop

inductive Event (R : Type) where
  | start (route : Route)
  | act (i : ℕ) (action : Action R)

variable {R : Type} (pool : Pool) (timestampFromDate : TimeValue → Timestamp)

def System.initial : System R := ⟨.initial, [], []⟩

/-- A response of the current upstream call. -/
def addResponse (response : R) (calls : List (Str × List R)) : List (Str × List R) :=
  calls.modifyLast fun call => (call.1, call.2 ++ [response])

/-- The error thrown for the retry time of the whole pool. -/
def generatedError (retryAt : TimeValue) : Thrown :=
  match createResourceExhaustedError timestampFromDate (some retryAt) with
  | .ok error => .connect error
  | .error thrown => thrown

def begin (route : Route) : Request R :=
  match pool.start (some route.eligibleMemberIds) with
  | .ok attempt => ⟨route, attempt, .choosing, [], [], []⟩
  | .error thrown => ⟨route, ⟨[], [], none⟩, .ended (.pool thrown), [], [], []⟩

/-- `attempt.next()` and what follows it up to the upstream call. -/
def choose (scheduler : Scheduler) (request : Request R) (now : Number) :
    Scheduler × Request R :=
  match pool.next scheduler request.attempt now with
  | .error thrown => (scheduler, { request with phase := .ended (.pool thrown) })
  | .ok (.retryAt retryAt, _, _) =>
    (scheduler, { request with
      phase := .ended (.generated retryAt (generatedError timestampFromDate retryAt)) })
  | .ok (.member member, attempt, scheduler) =>
    match request.route.targetModelIds.lookup member with
    | none => (scheduler, { request with
        attempt := attempt
        phase := .ended (.pool (.error "pool selected a member with no model route")) })
    | some target => (scheduler, { request with
        attempt := attempt
        phase := .calling member target false
        calls := request.calls ++ [(member, [])] })

/-- The handler of an upstream error, with the exhaustion it records. -/
def handle (scheduler : Scheduler) (request : Request R) (member : Str) (responded : Bool)
    (thrown : Thrown) : Scheduler × List (Str × TimeValue) × Request R :=
  if responded then (scheduler, [], { request with phase := .ended (.upstream thrown) })
  else
    match resourceExhaustedRetryAt thrown with
    | none => (scheduler, [], { request with phase := .ended (.upstream thrown) })
    | some retryAt =>
      match Pool.markExhausted scheduler request.attempt (some retryAt) with
      | .error thrown => (scheduler, [], { request with phase := .ended (.pool thrown) })
      | .ok (attempt, scheduler) => (scheduler, [(member, retryAt)], { request with
          attempt := attempt
          phase := .choosing
          marks := request.marks ++ [(member, retryAt)] })

/-- One action of a request in its current phase. -/
def act (scheduler : Scheduler) (request : Request R) (action : Action R) :
    Option (Scheduler × List (Str × TimeValue) × Request R) :=
  match request.phase, action with
  | .choosing, .next now =>
    let (scheduler, request) := choose pool timestampFromDate scheduler request now
    some (scheduler, [], request)
  | .calling member target _, .respond response => some (scheduler, [], { request with
      phase := .calling member target true
      calls := addResponse response request.calls
      relayed := request.relayed ++ [response] })
  | .calling _ _ _, .finish => some (scheduler, [], { request with phase := .ended .returned })
  | .calling member _ responded, .fail thrown =>
    some (handle scheduler request member responded thrown)
  | .calling _ _ true, .stop => some (scheduler, [], { request with phase := .ended .abandoned })
  | _, _ => none

def step (s : System R) : Event R → Option (System R)
  | .start route => some { s with requests := s.requests ++ [begin pool route] }
  | .act i action => do
    let request ← s.requests[i]?
    let (scheduler, recorded, request) ← act pool timestampFromDate s.scheduler request action
    return ⟨scheduler, s.reports ++ recorded, s.requests.set i request⟩

/-- A cooldown is the latest retry time reported for its member, and zero before any. -/
structure Recorded (scheduler : Scheduler) (reports : List (Str × TimeValue)) : Prop where
  inRange : ∀ report ∈ reports, 0 ≤ report.2.ms ∧ report.2.ms ≤ endTimestampMs
  latest : ∀ report ∈ reports, report.2.ms ≤ (scheduler.cooldowns report.1).ms
  reported : ∀ member, (scheduler.cooldowns member).ms = 0 ∨
    (member, scheduler.cooldowns member) ∈ reports

/-- What the phase of a request says about the rest of it. -/
def Request.InPhase (request : Request R) : Prop :=
  match request.phase with
  | .choosing => request.attempt.selected = none ∧ request.relayed = [] ∧
      ∀ call ∈ request.calls, ∃ retryAt, (call.1, retryAt) ∈ request.marks
  | .calling member _ responded => request.attempt.selected = some member ∧
      (∃ calls, request.calls = calls ++ [(member, request.relayed)] ∧
        ∀ call ∈ calls, ∃ retryAt, (call.1, retryAt) ∈ request.marks) ∧
      (responded = false → request.relayed = [])
  | .ended (.pool thrown) => ∃ message, thrown = .typeError message
  | .ended _ => True

structure Request.Sound (request : Request R) (reports : List (Str × TimeValue)) : Prop where
  eligible : (∃ ending, request.phase = .ended ending) ∨
    (request.attempt.eligibleMembers = request.route.eligibleMemberIds ∧
      request.route.eligibleMemberIds ≠ [] ∧
      ∀ member ∈ request.route.eligibleMemberIds, member ∈ pool.members)
  attempted : request.attempt.attempted = request.calls.map Prod.fst
  once : (request.calls.map Prod.fst).Nodup
  within : ∀ call ∈ request.calls, call.1 ∈ request.route.eligibleMemberIds
  relayed : request.relayed = request.calls.flatMap Prod.snd
  earlier : ∀ call ∈ request.calls.dropLast, call.2 = []
  marked : ∀ mark ∈ request.marks, mark ∈ reports
  inPhase : request.InPhase

variable {pool timestampFromDate} {scheduler scheduler' : Scheduler}
  {reports recorded : List (Str × TimeValue)} {request request' : Request R}

theorem recorded_initial : Recorded .initial [] where
  inRange := by
    intro report hr
    cases hr
  latest := by
    intro report hr
    cases hr
  reported := fun _ => .inl rfl

theorem Recorded.of_cooldowns (h : Recorded scheduler reports)
    (hc : scheduler'.cooldowns = scheduler.cooldowns) : Recorded scheduler' reports where
  inRange := h.inRange
  latest := hc ▸ h.latest
  reported := hc ▸ h.reported

/-- Every cooldown is one that was reported, so it lies in the range of the reports. -/
theorem Recorded.cooldown_inRange (h : Recorded scheduler reports) (member : Str) :
    0 ≤ (scheduler.cooldowns member).ms ∧ (scheduler.cooldowns member).ms ≤ endTimestampMs := by
  rcases h.reported member with hzero | hmem
  · rw [hzero]
    exact ⟨le_refl 0, by decide⟩
  · exact h.inRange _ hmem

theorem Recorded.cool (h : Recorded scheduler reports) (member : Str) {retryAt : TimeValue}
    (hrange : 0 ≤ retryAt.ms ∧ retryAt.ms ≤ endTimestampMs) :
    Recorded (Pool.cool scheduler member retryAt) (reports ++ [(member, retryAt)]) := by
  constructor
  · intro report hrep
    rcases List.mem_append.mp hrep with hrep | hrep
    · exact h.inRange report hrep
    · rw [List.mem_singleton.mp hrep]
      exact hrange
  · intro report hrep
    rcases List.mem_append.mp hrep with hrep | hrep
    · have hle := h.latest report hrep
      by_cases hm : report.1 = member
      · rw [hm] at hle ⊢
        rw [Pool.cool_self, maxTimeValue]
        split_ifs <;> omega
      · rwa [Pool.cool_of_ne retryAt hm]
    · rw [List.mem_singleton.mp hrep, Pool.cool_self, maxTimeValue]
      dsimp only
      split_ifs <;> omega
  · intro m
    by_cases hm : m = member
    · rw [hm, Pool.cool_self, maxTimeValue]
      split_ifs with hlt
      · exact .inr (by simp)
      · exact (h.reported member).imp_right (List.mem_append_left _)
    · rw [Pool.cool_of_ne retryAt hm]
      exact (h.reported m).imp_right (List.mem_append_left _)

theorem Request.Sound.mono (h : request.Sound pool reports) :
    request.Sound pool (reports ++ recorded) :=
  { h with marked := fun mark hm => List.mem_append_left _ (h.marked mark hm) }

/-- Ending a request keeps what is known of its calls. -/
theorem Request.Sound.finish (h : request.Sound pool reports) (ending : Ending)
    (hend : ∀ thrown, ending = .pool thrown → ∃ message, thrown = .typeError message) :
    Request.Sound pool { request with phase := .ended ending } reports where
  eligible := .inl ⟨ending, rfl⟩
  attempted := h.attempted
  once := h.once
  within := h.within
  relayed := h.relayed
  earlier := h.earlier
  marked := h.marked
  inPhase := by
    cases ending with
    | pool thrown => exact hend thrown rfl
    | _ => trivial

theorem sound_begin (route : Route) : (begin (R := R) pool route).Sound pool reports := by
  unfold begin
  cases hs : pool.start (some route.eligibleMemberIds) with
  | error thrown =>
    have hte : ∃ message, thrown = .typeError message := by
      unfold Pool.start Pool.eligibleMemberIds at hs
      dsimp only at hs
      split_ifs at hs
      · cases hs
      · cases hs
        exact ⟨_, rfl⟩
    exact ⟨.inl ⟨_, rfl⟩, rfl, List.nodup_nil, by simp, rfl, by simp, by simp, hte⟩
  | ok attempt =>
    unfold Pool.start Pool.eligibleMemberIds at hs
    dsimp only at hs
    split_ifs at hs with hv
    · cases hs
      exact ⟨.inr ⟨rfl, hv.1, hv.2.1⟩, rfl, List.nodup_nil, by simp, rfl, by simp, by simp,
        rfl, rfl, by simp⟩
    · cases hs

theorem lookup_isSome {route : Route} {member : Str} (h : member ∈ route.eligibleMemberIds) :
    ∃ target, route.targetModelIds.lookup member = some target := by
  obtain ⟨entries⟩ := route
  change member ∈ entries.map Prod.fst at h
  change ∃ target, entries.lookup member = some target
  induction entries with
  | nil => cases h
  | cons entry entries ih =>
    obtain ⟨key, target⟩ := entry
    rw [List.lookup_cons]
    by_cases hk : member = key
    · exact ⟨target, by simp [hk]⟩
    · rw [List.map_cons, List.mem_cons] at h
      rw [beq_eq_false_iff_ne.mpr hk]
      exact ih (h.resolve_left hk)

/-- Choosing ends the request, or calls a member that it has not called before. -/
theorem sound_choose (h : request.Sound pool reports) (hp : request.phase = .choosing)
    (hc : Recorded scheduler reports) (now : Number) :
    (choose pool timestampFromDate scheduler request now).2.Sound pool reports ∧
      Recorded (choose pool timestampFromDate scheduler request now).1 reports := by
  have hphase := h.inPhase
  unfold Request.InPhase at hphase
  rw [hp] at hphase
  obtain ⟨hsel, hrel, hmarks⟩ := hphase
  have hel := h.eligible
  rw [hp] at hel
  obtain ⟨heq, hne, hsub⟩ := hel.resolve_left (by simp)
  rw [← heq] at hne hsub
  unfold choose
  rcases Pool.next_cases scheduler now hsel hne hsub with
    ⟨message, -, hn⟩ | ⟨-, member, scheduler', -, hin, hout, -, hcool, hn⟩ |
      ⟨nowMs, retryAt, -, -, -, -, hn⟩
  · rw [hn]
    exact ⟨h.finish _ (by intro t ht; cases ht; exact ⟨message, rfl⟩), hc⟩
  · rw [hn]
    dsimp only
    rw [heq] at hin
    obtain ⟨target, ht⟩ := lookup_isSome hin
    rw [ht]
    refine ⟨?_, hc.of_cooldowns hcool⟩
    rw [h.attempted] at hout
    constructor
    · exact .inr ⟨heq, heq ▸ hne, heq ▸ hsub⟩
    · simp [h.attempted]
    · rw [List.map_append, List.nodup_append]
      refine ⟨h.once, by simp, ?_⟩
      intro a ha b hb hab
      have hbm : b = member := List.mem_singleton.mp hb
      rw [hab, hbm] at ha
      exact hout ha
    · intro call hcall
      rcases List.mem_append.mp hcall with hcall | hcall
      · exact h.within call hcall
      · rw [List.mem_singleton.mp hcall]
        exact hin
    · simp [h.relayed]
    · intro call hcall
      rw [List.dropLast_concat] at hcall
      -- nothing was relayed so far, so no earlier call gave a response
      have hempty := h.relayed
      rw [hrel] at hempty
      exact List.flatMap_eq_nil_iff.mp hempty.symm call hcall
    · exact h.marked
    · exact ⟨rfl, ⟨request.calls, by rw [hrel], hmarks⟩, fun _ => hrel⟩
  · rw [hn]
    exact ⟨h.finish _ (by intro t ht; cases ht), hc⟩

/-- A typed error reports no time past the last one a timestamp is rounded up to. -/
theorem retryAt_le {thrown : Thrown} {retryAt : TimeValue}
    (h : resourceExhaustedRetryAt thrown = some retryAt) : retryAt.ms ≤ endTimestampMs := by
  obtain ⟨-, timestamp, -, -, -, hvalid, hms⟩ := resourceExhaustedRetryAt_eq_some h
  rw [hms]
  exact (Timestamp.milliseconds_bounds hvalid).2

theorem sound_handle {member target : Str} {responded : Bool} (thrown : Thrown)
    (h : request.Sound pool reports) (hp : request.phase = .calling member target responded)
    (hc : Recorded scheduler reports) :
    (handle scheduler request member responded thrown).2.2.Sound pool
        (reports ++ (handle scheduler request member responded thrown).2.1) ∧
      Recorded (handle scheduler request member responded thrown).1
        (reports ++ (handle scheduler request member responded thrown).2.1) := by
  have hphase := h.inPhase
  unfold Request.InPhase at hphase
  rw [hp] at hphase
  obtain ⟨hsel, ⟨calls, hcalls, hmarks⟩, hresp⟩ := hphase
  have stop : ∀ ending : Ending,
      (∀ thrown, ending = .pool thrown → ∃ message, thrown = .typeError message) →
      Request.Sound pool { request with phase := .ended ending } (reports ++ []) ∧
        Recorded scheduler (reports ++ []) := by
    intro ending hend
    rw [List.append_nil]
    exact ⟨h.finish ending hend, hc⟩
  unfold handle
  cases responded with
  | true => exact stop _ (by intro t ht; cases ht)
  | false =>
    simp only [Bool.false_eq_true, if_false]
    cases hr : resourceExhaustedRetryAt thrown with
    | none => exact stop _ (by intro t ht; cases ht)
    | some retryAt =>
      dsimp only
      rw [Pool.markExhausted, hsel]
      dsimp only
      cases ht : timestamp (getTime (some retryAt)) "retry time" with
      | error thrown =>
        obtain ⟨message, rfl⟩ := Pool.timestamp_eq_error ht
        exact stop _ (by intro t ht; cases ht; exact ⟨message, rfl⟩)
      | ok date =>
        obtain ⟨hnonneg, rfl⟩ := Pool.timestamp_getTime_eq_ok ht
        have hel := h.eligible
        rw [hp] at hel
        have hrel := hresp rfl
        refine ⟨?_, hc.cool member ⟨hnonneg, retryAt_le hr⟩⟩
        constructor
        · exact .inr (hel.resolve_left (by simp))
        · exact h.attempted
        · exact h.once
        · exact h.within
        · exact h.relayed
        · exact h.earlier
        · intro mark hm
          rcases List.mem_append.mp hm with hm | hm
          · exact List.mem_append_left _ (h.marked mark hm)
          · exact List.mem_append_right _ hm
        · refine ⟨rfl, hrel, ?_⟩
          intro call hcall
          rw [hcalls] at hcall
          rcases List.mem_append.mp hcall with hcall | hcall
          · obtain ⟨date, hd⟩ := hmarks call hcall
            exact ⟨date, List.mem_append_left _ hd⟩
          · rw [List.mem_singleton.mp hcall]
            exact ⟨date, by simp⟩

theorem sound_respond {member target : Str} {responded : Bool}
    (h : request.Sound pool reports) (hp : request.phase = .calling member target responded)
    (response : R) :
    Request.Sound pool { request with
      phase := .calling member target true
      calls := addResponse response request.calls
      relayed := request.relayed ++ [response] } reports := by
  have hphase := h.inPhase
  unfold Request.InPhase at hphase
  rw [hp] at hphase
  obtain ⟨hsel, ⟨calls, hcalls, hmarks⟩, -⟩ := hphase
  have hel := h.eligible
  rw [hp] at hel
  have hadd : addResponse response request.calls =
      calls ++ [(member, request.relayed ++ [response])] := by
    rw [hcalls, addResponse, List.modifyLast_concat]
  have hfst : (addResponse response request.calls).map Prod.fst = request.calls.map Prod.fst := by
    rw [hadd, hcalls]
    simp
  have hempty : ∀ call ∈ calls, call.2 = [] := by
    intro call hcall
    exact h.earlier call (by rw [hcalls, List.dropLast_concat]; exact hcall)
  constructor
  · exact .inr (hel.resolve_left (by simp))
  · exact h.attempted.trans hfst.symm
  · exact hfst ▸ h.once
  · intro call hcall
    have hm : call.1 ∈ request.calls.map Prod.fst := hfst ▸ List.mem_map_of_mem hcall
    obtain ⟨call', hcall', heq⟩ := List.mem_map.mp hm
    exact heq ▸ h.within call' hcall'
  · dsimp only
    rw [hadd, List.flatMap_append, List.flatMap_eq_nil_iff.mpr hempty]
    simp
  · intro call hcall
    dsimp only at hcall
    rw [hadd, List.dropLast_concat] at hcall
    exact hempty call hcall
  · exact h.marked
  · exact ⟨hsel, ⟨calls, hadd, hmarks⟩, by simp⟩

/-- One action keeps a request sound and the cooldowns recorded. -/
theorem sound_act {action : Action R} (h : request.Sound pool reports)
    (hc : Recorded scheduler reports)
    (ha : act pool timestampFromDate scheduler request action =
      some (scheduler', recorded, request')) :
    request'.Sound pool (reports ++ recorded) ∧ Recorded scheduler' (reports ++ recorded) := by
  unfold act at ha
  split at ha
  · rename_i now hp
    cases ha
    rw [List.append_nil]
    exact sound_choose h hp hc now
  · rename_i member target responded response hp
    cases ha
    rw [List.append_nil]
    exact ⟨sound_respond h hp response, hc⟩
  · cases ha
    rw [List.append_nil]
    exact ⟨h.finish _ (by intro t ht; cases ht), hc⟩
  · rename_i member target responded thrown hp
    have hh := sound_handle thrown h hp hc
    rw [Option.some.inj ha] at hh
    exact hh
  · cases ha
    rw [List.append_nil]
    exact ⟨h.finish _ (by intro t ht; cases ht), hc⟩
  · cases ha

/-- The invariant of the whole system. -/
structure System.Sound (pool : Pool) (s : System R) : Prop where
  recorded : Recorded s.scheduler s.reports
  requests : ∀ request ∈ s.requests, request.Sound pool s.reports

theorem sound_initial : (System.initial (R := R)).Sound pool where
  recorded := recorded_initial
  requests := by
    intro request hr
    cases hr

theorem sound_step (s : System R) (event : Event R) (s' : System R) (h : s.Sound pool)
    (hs : step pool timestampFromDate s event = some s') : s'.Sound pool := by
  cases event with
  | start route =>
    cases hs
    refine ⟨h.recorded, ?_⟩
    intro request hr
    rcases List.mem_append.mp hr with hr | hr
    · exact h.requests request hr
    · rw [List.mem_singleton.mp hr]
      exact sound_begin route
  | act i action =>
    obtain ⟨request, hi, hs⟩ := Option.bind_eq_some_iff.mp hs
    obtain ⟨⟨scheduler, recorded, request'⟩, ha, hs⟩ := Option.bind_eq_some_iff.mp hs
    cases hs
    obtain ⟨hr', hc'⟩ := sound_act (h.requests request (List.mem_of_getElem? hi)) h.recorded ha
    refine ⟨hc', ?_⟩
    intro r hr
    rcases List.mem_or_eq_of_mem_set hr with hr | rfl
    · exact (h.requests r hr).mono
    · exact hr'

theorem sound_run {events : List (Event R)} {s : System R}
    (h : run (step pool timestampFromDate) .initial events = some s) : s.Sound pool :=
  run_invariant sound_step sound_initial h

theorem Request.Sound.length_le (h : request.Sound pool reports) :
    request.calls.length ≤ request.route.eligibleMemberIds.length := by
  have hsub : request.calls.map Prod.fst ⊆ request.route.eligibleMemberIds := by
    intro member hm
    obtain ⟨call, hcall, rfl⟩ := List.mem_map.mp hm
    exact h.within call hcall
  have hle := (h.once.subperm hsub).length_le
  rwa [List.length_map] at hle

/-- What a request has found when it generates exhaustion: every eligible member was exhausted by
the request or is cooling, and the retry time is the earliest of their cooldowns. The error carries
it, unless it is the one reported time that no timestamp holds. -/
structure Generates (scheduler : Scheduler) (request : Request R) (now : Number)
    (retryAt : TimeValue) (thrown : Thrown) : Prop where
  exhausted : ∃ nowMs, timestamp now "current time" = .ok nowMs ∧
    ∀ member ∈ request.route.eligibleMemberIds,
      (∃ date, (member, date) ∈ request.marks) ∨ nowMs.ms < (scheduler.cooldowns member).ms
  reported : ∃ member ∈ request.route.eligibleMemberIds, retryAt = scheduler.cooldowns member
  earliest : ∀ member ∈ request.route.eligibleMemberIds,
    retryAt.ms ≤ (scheduler.cooldowns member).ms
  typed : retryAt.ms ≠ endTimestampMs → ∃ error, thrown = .connect error ∧
    error.code = .resourceExhausted ∧ resourceExhaustedRetryAt thrown = some retryAt
  outside : retryAt.ms = endTimestampMs →
    thrown = .rangeError "retryAt is outside the protobuf Timestamp range"

/-- How choosing leaves a request: ended by a clock that tells no time, calling an eligible member
for the first time, or ended by the exhaustion it generates. -/
inductive Chosen (scheduler : Scheduler) (request : Request R) (now : Number) : Request R → Prop
  | clock (message : String)
      (ht : timestamp now "current time" = .error (.typeError message)) :
      Chosen scheduler request now
        { request with phase := .ended (.pool (.typeError message)) }
  | called (nowMs : TimeValue) (member target : Str) (attempt : Attempt)
      (ht : timestamp now "current time" = .ok nowMs)
      (eligible : member ∈ request.route.eligibleMemberIds)
      (new : member ∉ request.calls.map Prod.fst)
      (ready : (scheduler.cooldowns member).ms ≤ nowMs.ms)
      (routed : request.route.targetModelIds.lookup member = some target) :
      Chosen scheduler request now { request with
        attempt := attempt
        phase := .calling member target false
        calls := request.calls ++ [(member, [])] }
  | generated (retryAt : TimeValue) (thrown : Thrown)
      (h : Generates scheduler request now retryAt thrown) :
      Chosen scheduler request now
        { request with phase := .ended (.generated retryAt thrown) }

theorem generatedError_typed (hconv : WktConversion timestampFromDate) {retryAt : TimeValue}
    (hnonneg : 0 ≤ retryAt.ms) (hle : retryAt.ms ≤ endTimestampMs)
    (h : retryAt.ms ≠ endTimestampMs) :
    ∃ error, generatedError timestampFromDate retryAt = .connect error ∧
      error.code = .resourceExhausted ∧
      resourceExhaustedRetryAt (generatedError timestampFromDate retryAt) = some retryAt := by
  have hmin : minTimestampMs ≤ retryAt.ms := le_trans (by decide) hnonneg
  have hok := createResourceExhaustedError_eq_ok hconv ⟨hmin, lt_of_le_of_ne hle h⟩
  have heq : generatedError timestampFromDate retryAt =
      .connect (exhaustedError (timestampFromDate retryAt)) := by
    rw [generatedError, hok]
  refine ⟨_, heq, rfl, ?_⟩
  rw [heq]
  exact resourceExhaustedRetryAt_create hconv hok

theorem generatedError_outside (hconv : WktConversion timestampFromDate) {retryAt : TimeValue}
    (h : retryAt.ms = endTimestampMs) : generatedError timestampFromDate retryAt =
      .rangeError "retryAt is outside the protobuf Timestamp range" := by
  have herror : createResourceExhaustedError timestampFromDate (some retryAt) = _ :=
    createResourceExhaustedError_eq_error hconv fun hrange => hrange.2.ne h
  rw [generatedError, herror]

theorem Chosen.generates {now : Number} {retryAt : TimeValue} {thrown : Thrown}
    (h : Chosen scheduler request now request')
    (hp' : request'.phase = .ended (.generated retryAt thrown)) :
    Generates scheduler request now retryAt thrown := by
  cases h with
  | clock message _ => cases hp'
  | called nowMs member target attempt _ _ _ _ _ => cases hp'
  | generated retryAt thrown h =>
    cases hp'
    exact h

/-- Choosing calls a new member or ends the request. -/
theorem choose_chosen (hconv : WktConversion timestampFromDate)
    (h : request.Sound pool reports) (hp : request.phase = .choosing)
    (hc : Recorded scheduler reports) (now : Number) :
    Chosen scheduler request now
      (choose pool timestampFromDate scheduler request now).2 := by
  have hphase := h.inPhase
  unfold Request.InPhase at hphase
  rw [hp] at hphase
  obtain ⟨hsel, -, hmarks⟩ := hphase
  have hel := h.eligible
  rw [hp] at hel
  obtain ⟨heq, hne, hsub⟩ := hel.resolve_left (by simp)
  rw [← heq] at hne hsub
  unfold choose
  rcases Pool.next_cases scheduler now hsel hne hsub with
    ⟨message, ht, hn⟩ | ⟨nowMs, member, scheduler', ht, hin, hout, hready, -, hn⟩ |
      ⟨nowMs, retryAt, ht, hall, hex, hle, hn⟩
  · rw [hn]
    exact .clock message ht
  · rw [hn]
    rw [heq] at hin
    rw [h.attempted] at hout
    obtain ⟨target, hroute⟩ := lookup_isSome hin
    dsimp only
    rw [hroute]
    exact .called nowMs member target _ ht hin hout hready hroute
  · rw [hn]
    rw [heq] at hall hex hle
    refine .generated retryAt _ ⟨⟨nowMs, ht, ?_⟩, hex, hle, ?_, generatedError_outside hconv⟩
    · intro member hm
      rcases hall member hm with ha | hcooling
      · rw [h.attempted] at ha
        obtain ⟨call, hcall, rfl⟩ := List.mem_map.mp ha
        exact .inl (hmarks call hcall)
      · exact .inr hcooling
    · obtain ⟨member, -, rfl⟩ := hex
      have hrange := hc.cooldown_inRange member
      exact generatedError_typed hconv hrange.1 hrange.2

/-- How an upstream error leaves a request: it ends with the error after a response and where the
error reports no retry time, and chooses again where it reports one from the epoch on. -/
def Handled (request : Request R) (member : Str) (responded : Bool) (thrown : Thrown)
    (request' : Request R) : Prop :=
  match responded, resourceExhaustedRetryAt thrown with
  | true, _ | false, none => request' = { request with phase := .ended (.upstream thrown) }
  | false, some retryAt =>
    if 0 ≤ retryAt.ms then
      ∃ attempt, request' = { request with
        attempt := attempt
        phase := .choosing
        marks := request.marks ++ [(member, retryAt)] }
    else request' = { request with
      phase := .ended (.pool (.typeError "retry time must be a valid absolute timestamp")) }

theorem handle_handled {member target : Str} {responded : Bool} (thrown : Thrown)
    (h : request.Sound pool reports) (hp : request.phase = .calling member target responded) :
    Handled request member responded thrown
      (handle scheduler request member responded thrown).2.2 := by
  have hphase := h.inPhase
  unfold Request.InPhase at hphase
  rw [hp] at hphase
  obtain ⟨hsel, -, -⟩ := hphase
  unfold handle Handled
  cases responded with
  | true => rfl
  | false =>
    cases hr : resourceExhaustedRetryAt thrown with
    | none => rfl
    | some retryAt =>
      simp only [Bool.false_eq_true, if_false]
      rw [Pool.markExhausted, hsel]
      dsimp only
      split_ifs with hnonneg
      · rw [Pool.timestamp_getTime hnonneg]
        exact ⟨_, rfl⟩
      · rw [Pool.timestamp_negative (not_le.mp hnonneg)]
        rfl

variable (pool timestampFromDate) in
/-- The action is possible in the system, and leaves the request so. -/
def Becomes (s : System R) (i : ℕ) (action : Action R) (outcome : Request R → Prop) : Prop :=
  ∃ s' request', step pool timestampFromDate s (.act i action) = some s' ∧
    s'.requests[i]? = some request' ∧ outcome request'

variable (pool timestampFromDate) in
/-- A request that has not ended is never stuck: it can choose, and it takes whatever its upstream
call gives. -/
structure Progresses (s : System R) (i : ℕ) (request : Request R) : Prop where
  chooses : request.phase = .choosing → ∀ now,
    Becomes pool timestampFromDate s i (.next now)
      (Chosen s.scheduler request now)
  relays : ∀ member target responded, request.phase = .calling member target responded →
    ∀ response, Becomes pool timestampFromDate s i (.respond response) (fun request' =>
      request'.phase = .calling member target true ∧
        request'.relayed = request.relayed ++ [response])
  returns : ∀ member target responded, request.phase = .calling member target responded →
    Becomes pool timestampFromDate s i .finish
      (· = { request with phase := .ended .returned })
  fails : ∀ member target responded, request.phase = .calling member target responded →
    ∀ thrown, Becomes pool timestampFromDate s i (.fail thrown)
      (Handled request member responded thrown)

theorem Becomes.of_act {s : System R} {i : ℕ} {action : Action R} {outcome : Request R → Prop}
    {result : Scheduler × List (Str × TimeValue) × Request R} (hi : s.requests[i]? = some request)
    (ha : act pool timestampFromDate s.scheduler request action = some result)
    (ho : outcome result.2.2) : Becomes pool timestampFromDate s i action outcome := by
  have hlt := (List.getElem?_eq_some_iff.mp hi).1
  refine ⟨⟨result.1, s.reports ++ result.2.1, s.requests.set i result.2.2⟩, result.2.2, ?_, ?_, ho⟩
  · simp [step, hi, ha]
  · simp [hlt]

theorem progresses (hconv : WktConversion timestampFromDate) {s : System R} (h : s.Sound pool)
    {i : ℕ} (hi : s.requests[i]? = some request) :
    Progresses pool timestampFromDate s i request := by
  have hreq := h.requests request (List.mem_of_getElem? hi)
  constructor
  · intro hp now
    have ha : act pool timestampFromDate s.scheduler request (.next now) =
        some ((choose pool timestampFromDate s.scheduler request now).1, [],
          (choose pool timestampFromDate s.scheduler request now).2) := by
      unfold act
      rw [hp]
    exact .of_act hi ha (choose_chosen hconv hreq hp h.recorded now)
  · intro member target responded hp response
    exact .of_act hi (by unfold act; rw [hp]) ⟨rfl, rfl⟩
  · intro member target responded hp
    exact .of_act hi (by unfold act; rw [hp]) rfl
  · intro member target responded hp thrown
    exact .of_act hi (by unfold act; rw [hp]) (handle_handled thrown hreq hp)

variable (pool timestampFromDate) in
/-- A route begins a request of its own, which chooses first if its members are some of the
pool's. -/
def Begins (s : System R) (route : Route) : Prop :=
  ∃ s' request, step pool timestampFromDate s (.start route) = some s' ∧
    s'.requests = s.requests ++ [request] ∧ request.route = route ∧ request.calls = [] ∧
    (route.eligibleMemberIds ≠ [] → route.eligibleMemberIds.Nodup →
      (∀ member ∈ route.eligibleMemberIds, member ∈ pool.members) → request.phase = .choosing)

theorem begins (s : System R) (route : Route) : Begins pool timestampFromDate s route := by
  refine ⟨_, begin pool route, rfl, rfl, ?_, ?_, fun hne hdistinct hsub => ?_⟩
  · unfold begin
    split <;> rfl
  · unfold begin
    split <;> rfl
  · have hstart : pool.start (some route.eligibleMemberIds) =
        .ok ⟨route.eligibleMemberIds, [], none⟩ := by
      rw [Pool.start, Pool.eligibleMemberIds, if_pos ⟨hne, hsub, hdistinct⟩]
      rfl
    rw [begin, hstart]

theorem handle_ne_generated {member : Str} {responded : Bool} (thrown : Thrown)
    {retryAt : TimeValue} {generated : Thrown} :
    (handle scheduler request member responded thrown).2.2.phase ≠
      .ended (.generated retryAt generated) := by
  unfold handle
  split_ifs
  · simp
  · split
    · simp
    · split <;> simp

theorem act_generated {action : Action R} {retryAt : TimeValue} {thrown : Thrown}
    (ha : act pool timestampFromDate scheduler request action =
      some (scheduler', recorded, request'))
    (hp' : request'.phase = .ended (.generated retryAt thrown)) :
    ∃ now, action = .next now ∧ request.phase = .choosing ∧
      request' = (choose pool timestampFromDate scheduler request now).2 := by
  unfold act at ha
  split at ha
  · rename_i now hp
    cases ha
    exact ⟨now, rfl, hp, rfl⟩
  · cases ha
    cases hp'
  · cases ha
    cases hp'
  · rename_i member target responded thrown' hp
    have hr : (handle scheduler request member responded thrown').2.2 = request' := by
      rw [Option.some.inj ha]
    rw [← hr] at hp'
    exact absurd hp' (handle_ne_generated thrown')
  · cases ha
    cases hp'
  · cases ha

/-- Only choosing generates exhaustion. -/
theorem step_generated (hconv : WktConversion timestampFromDate) {s s' : System R}
    (h : s.Sound pool) {event : Event R} {i : ℕ} {retryAt : TimeValue} {thrown : Thrown}
    (hs : step pool timestampFromDate s event = some s') (hi' : s'.requests[i]? = some request')
    (hp' : request'.phase = .ended (.generated retryAt thrown)) :
    s.requests[i]? = some request' ∨
      ∃ now request, event = .act i (.next now) ∧ s.requests[i]? = some request ∧
        request.phase = .choosing ∧ Generates s.scheduler request now retryAt thrown := by
  cases event with
  | start route =>
    cases hs
    dsimp only at hi'
    rw [List.getElem?_append] at hi'
    split_ifs at hi' with hlt
    · exact .inl hi'
    · have heq : request' = begin pool route := by
        rw [List.getElem?_singleton] at hi'
        split_ifs at hi'
        exact (Option.some.inj hi').symm
      rw [heq] at hp'
      unfold begin at hp'
      split at hp' <;> cases hp'
  | act j action =>
    obtain ⟨request, hj, hs⟩ := Option.bind_eq_some_iff.mp hs
    obtain ⟨⟨scheduler, recorded, requestⱼ⟩, ha, hs⟩ := Option.bind_eq_some_iff.mp hs
    cases hs
    dsimp only at hi'
    by_cases hij : j = i
    · subst hij
      have hlt := (List.getElem?_eq_some_iff.mp hj).1
      rw [List.getElem?_set_self hlt] at hi'
      cases hi'
      have hreq := h.requests request (List.mem_of_getElem? hj)
      obtain ⟨now, rfl, hp, hr⟩ := act_generated ha hp'
      refine .inr ⟨now, request, rfl, hj, hp, ?_⟩
      have hchosen := choose_chosen hconv hreq hp h.recorded now
      rw [← hr] at hchosen
      exact hchosen.generates hp'
    · rw [List.getElem?_set_ne hij] at hi'
      exact .inl hi'

/-- How often the request acts in the run, or its upstream call ends: all but the responses. -/
def Event.turns (i : ℕ) : Event R → ℕ
  | .act _ (.respond _) => 0
  | .act j _ => if j = i then 1 else 0
  | .start _ => 0

def turns (i : ℕ) (events : List (Event R)) : ℕ := (events.map (Event.turns i)).sum

/-- A request acts twice for each upstream call, to make it and to end it, and once more to end. -/
def Request.Counted (request : Request R) (turns : ℕ) : Prop :=
  match request.phase with
  | .choosing => turns = 2 * request.calls.length
  | .calling _ _ _ => turns + 1 = 2 * request.calls.length
  | .ended _ => turns ≤ 2 * request.calls.length + 1

theorem Request.Counted.le {n : ℕ} (h : request.Counted n) :
    n ≤ 2 * request.calls.length + 1 := by
  unfold Request.Counted at h
  split at h <;> omega

theorem length_addResponse (response : R) (calls : List (Str × List R)) :
    (addResponse response calls).length = calls.length := by
  induction calls using List.reverseRecOn with
  | nil => rfl
  | append_singleton calls call _ => rw [addResponse, List.modifyLast_concat]; simp

theorem counted_begin (route : Route) : (begin (R := R) pool route).Counted 0 := by
  unfold begin
  split
  · rfl
  · exact Nat.zero_le _

theorem counted_choose {n : ℕ} (h : request.Counted n) (hp : request.phase = .choosing)
    (now : Number) :
    (choose pool timestampFromDate scheduler request now).2.Counted (n + 1) := by
  unfold Request.Counted at h
  rw [hp] at h
  dsimp only at h
  unfold choose
  split
  · exact (by omega : n + 1 ≤ 2 * request.calls.length + 1)
  · exact (by omega : n + 1 ≤ 2 * request.calls.length + 1)
  · split
    · exact (by omega : n + 1 ≤ 2 * request.calls.length + 1)
    · simp only [Request.Counted, List.length_append, List.length_singleton]
      omega

variable (scheduler) in
theorem counted_handle {n : ℕ} {member target : Str} {responded : Bool} (thrown : Thrown)
    (h : request.Counted n) (hp : request.phase = .calling member target responded) :
    (handle scheduler request member responded thrown).2.2.Counted (n + 1) := by
  unfold Request.Counted at h
  rw [hp] at h
  dsimp only at h
  have hended : n + 1 ≤ 2 * request.calls.length + 1 := by omega
  unfold handle
  split_ifs
  · exact hended
  · split
    · exact hended
    · split
      · exact hended
      · exact h

theorem counted_act {n i : ℕ} {action : Action R} (h : request.Counted n)
    (ha : act pool timestampFromDate scheduler request action =
      some (scheduler', recorded, request')) :
    request'.Counted (n + (Event.act i action).turns i) := by
  unfold act at ha
  split at ha
  · rename_i now hp
    cases ha
    have hone : (Event.act i (.next now : Action R)).turns i = 1 := by simp [Event.turns]
    rw [hone]
    exact counted_choose h hp now
  · rename_i member target responded response hp
    cases ha
    unfold Request.Counted at h
    rw [hp] at h
    simpa [Request.Counted, Event.turns, length_addResponse] using h
  · rename_i member target responded hp
    cases ha
    unfold Request.Counted at h
    rw [hp] at h
    simp only [Request.Counted, Event.turns, if_true]
    omega
  · rename_i member target responded thrown hp
    have hh := counted_handle scheduler thrown h hp
    rw [Option.some.inj ha] at hh
    simpa [Event.turns] using hh
  · rename_i member target hp
    cases ha
    unfold Request.Counted at h
    rw [hp] at h
    simp only [Request.Counted, Event.turns, if_true]
    omega
  · cases ha

/-- The turns of every request of the run are counted, and no other index has any. -/
theorem counted_run {events : List (Event R)} {s : System R}
    (h : run (step pool timestampFromDate) .initial events = some s) (i : ℕ) :
    (s.requests.length ≤ i → turns i events = 0) ∧
      ∀ request, s.requests[i]? = some request → request.Counted (turns i events) := by
  induction events using List.reverseRecOn generalizing s with
  | nil =>
    cases h
    exact ⟨fun _ => rfl, by simp [System.initial]⟩
  | append_singleton events event ih =>
    rw [run_append] at h
    obtain ⟨u, hu, h⟩ := Option.bind_eq_some_iff.mp h
    obtain ⟨hnone, hsome⟩ := ih hu
    have hturns : turns i (events ++ [event]) = turns i events + event.turns i := by
      simp [turns]
    have hs : step pool timestampFromDate u event = some s := by simpa using h
    rw [hturns]
    cases event with
    | start route =>
      cases hs
      simp only [Event.turns, Nat.add_zero]
      constructor
      · intro hle
        rw [List.length_append, List.length_singleton] at hle
        exact hnone (by omega)
      · intro request hi
        rw [List.getElem?_append] at hi
        split_ifs at hi with hlt
        · exact hsome request hi
        · rw [List.getElem?_singleton] at hi
          split_ifs at hi
          cases hi
          rw [hnone (not_lt.mp hlt)]
          exact counted_begin route
    | act j action =>
      obtain ⟨request, hj, hs⟩ := Option.bind_eq_some_iff.mp hs
      obtain ⟨⟨scheduler, recorded, requestⱼ⟩, ha, hs⟩ := Option.bind_eq_some_iff.mp hs
      cases hs
      have hlt := (List.getElem?_eq_some_iff.mp hj).1
      dsimp only
      by_cases hij : j = i
      · subst hij
        refine ⟨fun hle => ?_, fun request' hi' => ?_⟩
        · rw [List.length_set] at hle
          omega
        · rw [List.getElem?_set_self hlt] at hi'
          cases hi'
          exact counted_act (hsome request hj) ha
      · have hzero : (Event.act j action).turns i = 0 := by
          cases action <;> simp [Event.turns, hij]
        rw [hzero, Nat.add_zero, List.length_set]
        refine ⟨hnone, fun request' hi' => ?_⟩
        rw [List.getElem?_set_ne hij] at hi'
        exact hsome request' hi'

/-- In every interleaving of requests over one scheduler, whatever the clock and the upstream do:
each route begins a request of its own; each request calls an eligible member at most once, and
acts at most twice for each of its members and once more before it ends, which it is never kept
from; what it relays comes from its last call; no request fails for want of a member or of a route; and a request generates exhaustion only by
choosing, where every eligible member was exhausted by the request or is cooling, with the earliest
of their latest reported retry times. -/
theorem pooler_failover (hconv : WktConversion timestampFromDate) {events : List (Event R)}
    {s : System R} (h : run (step pool timestampFromDate) .initial events = some s) :
    (∀ route, Begins pool timestampFromDate s route) ∧
    (∀ request ∈ s.requests,
      (request.calls.map Prod.fst).Nodup ∧
      (∀ call ∈ request.calls, call.1 ∈ request.route.eligibleMemberIds) ∧
      request.calls.length ≤ request.route.eligibleMemberIds.length ∧
      request.relayed = request.calls.flatMap Prod.snd ∧
      (∀ call ∈ request.calls.dropLast, call.2 = []) ∧
      ∀ thrown, request.phase = .ended (.pool thrown) →
        thrown ≠ .error "pool attempt has no selectable or exhausted member" ∧
        thrown ≠ .error "pool selected a member with no model route") ∧
    (∀ i request, s.requests[i]? = some request →
      Progresses pool timestampFromDate s i request ∧
        turns i events ≤ 2 * request.route.eligibleMemberIds.length + 1) ∧
    (∀ event s' i request' retryAt thrown, step pool timestampFromDate s event = some s' →
      s'.requests[i]? = some request' → request'.phase = .ended (.generated retryAt thrown) →
        s.requests[i]? = some request' ∨
          ∃ now request, event = .act i (.next now) ∧ s.requests[i]? = some request ∧
            request.phase = .choosing ∧ Generates s.scheduler request now retryAt thrown) ∧
    Recorded s.scheduler s.reports := by
  have hsound := sound_run h
  refine ⟨begins s, ?_, ?_, ?_, hsound.recorded⟩
  · intro request hr
    have hreq := hsound.requests request hr
    refine ⟨hreq.once, hreq.within, hreq.length_le, hreq.relayed, hreq.earlier, ?_⟩
    intro thrown hp
    have hphase := hreq.inPhase
    unfold Request.InPhase at hphase
    rw [hp] at hphase
    obtain ⟨message, rfl⟩ := hphase
    simp
  · intro i request hi
    refine ⟨progresses hconv hsound hi, ?_⟩
    have hreq := hsound.requests request (List.mem_of_getElem? hi)
    have hcount := (counted_run h i).2 request hi
    have hturns := hcount.le
    have hle := hreq.length_le
    omega
  · intro event s' i request' retryAt thrown hs hi' hp'
    exact step_generated hconv hsound hs hi' hp'

def pairPool : Pool where
  members := [lit "a", lit "b"]
  two := by decide +kernel
  named := by decide +kernel
  distinct := by decide +kernel

/-- One request over two members that both turn out exhausted. -/
def pairExhausted : List (Event ℕ) := [
  .start ⟨[(lit "a", lit "a/m"), (lit "b", lit "b/m")]⟩,
  .act 0 (.next (.finite 1000)),
  .act 0 (.fail (.connect (exhaustedError ⟨5, 0⟩))),
  .act 0 (.next (.finite 1000)),
  .act 0 (.fail (.connect (exhaustedError ⟨3, 0⟩)))]

theorem pooler_failover_pair :
    ∃ s, run (step pairPool floorConversion) .initial pairExhausted = some s ∧
      (∀ request ∈ s.requests,
        request.calls.length ≤ request.route.eligibleMemberIds.length) ∧
      ∀ i request, s.requests[i]? = some request →
        Progresses pairPool floorConversion s i request := by
  have hsome : (run (step pairPool floorConversion) .initial pairExhausted).isSome := by
    decide +kernel
  obtain ⟨s, hs⟩ := Option.isSome_iff_exists.mp hsome
  obtain ⟨-, hrequests, hprogress, -⟩ := pooler_failover (fun _ => rfl) hs
  exact ⟨s, hs, fun request hr => (hrequests request hr).2.2.1,
    fun i request hi => (hprogress i request hi).1⟩

end Cyclo.Pooler
