import Cyclo.Pooler.Catalogue
import Cyclo.Process.Machine

/-! The catalogue state of the pooler services. Refreshes overlap freely: each takes its
generation when it starts and applies its outcome, if it still is the newest, when its upstream
call completes. -/
namespace Cyclo.Pooler
open Js Protocol Process

/-- The key of a scheduler: the identifier of an exact pool, nothing for the provider-wide one. -/
abbrev SchedulerKey := Option Str

/-- A scheduler is known by its place in the list of those created. -/
structure SchedulerState where
  memberIds : List Str
  scheduler : ℕ

structure ServiceRoute where
  eligibleMemberIds : List Str
  scheduler : ℕ
  targetModelIds : List (Str × Str)

structure Active (C E : Type) where
  models : List (Model C E)
  routes : List (Str × ServiceRoute)

/-- What a refresh is for: a health check, a model listing, or the route of an inference. -/
inductive Purpose where
  | health
  | listModels
  | infer (model : Str)

structure Refresh where
  generation : ℕ
  purpose : Purpose

/-- Where a refresh fails, with the code its failure carries unless the cause is a Connect error
itself. -/
inductive Failed where
  | upstream (thrown : Thrown)
  | rejected (reason : Rejection)
  | activation (reason : Rejection)

/-- The state of the services. Besides the source's variables it records the schedulers created,
the refreshes in flight, the outcomes applied and the routes handed out. -/
structure Services (C E : Type) where
  schedulers : List (Pool × Scheduler)
  schedulerStates : List (SchedulerKey × SchedulerState)
  catalogue : Option (Active C E)
  refreshGeneration : ℕ
  pending : List Refresh
  applied : List (ℕ × Option (Active C E))
  handedOut : List ServiceRoute

section
variable {C E : Type} [DecidableEq C] [DecidableEq E] (config : Config) (componentName : Str)

def providerWide : Bool := config.memberProviders.isSome

/-- The identifier of the one virtual model of an exact pool. -/
def exactOutputId : Except Rejection (Option Str) :=
  match config.memberModelIds with
  | none => .ok none
  | some _ => (outputModelId componentName (config.outputModel.getD [])).map some

def servicesWith (schedulers : List (Pool × Scheduler))
    (schedulerStates : List (SchedulerKey × SchedulerState)) : Services C E where
  schedulers := schedulers
  schedulerStates := schedulerStates
  catalogue := none
  refreshGeneration := 0
  pending := []
  applied := []
  handedOut := []

/-- The services with a scheduler for the initial key and members, where both are known. -/
def initialServices : Option SchedulerKey → Option (List Str) → Except Rejection (Services C E)
  | some key, some ids =>
    match memberIds ids with
    | .ok pool => .ok (servicesWith [(pool, .initial)] [(key, ⟨ids, 0⟩)])
    | .error thrown => .error (.invalidScheduler thrown)
  | _, _ => .ok (servicesWith [] [])

/-- `createPoolerServices`, as far as its catalogue state goes. -/
def createPoolerServices : Except Rejection (Services C E) :=
  if !isComponentName componentName then .error .invalidComponentName
  else
    (exactOutputId config componentName).bind fun outputId =>
      if providerWide config then initialServices (some none) config.memberProviders
      else initialServices (outputId.map some) config.memberModelIds

/-- `targetModelIds` of a pool; a key listed twice would keep its last value. -/
def targetModelIds (pool : ComposedPool C E) : List (Str × Str) :=
  pool.members.foldl (fun targets model =>
    let key := if providerWide config then modelProvider model.id else model.id
    if (targets.lookup key).isSome then
      targets.map fun entry => if entry.1 = key then (key, model.id) else entry
    else targets ++ [(key, model.id)]) []

/-- The state of activation while it goes through the pools. -/
structure Activation (C E : Type) where
  schedulers : List (Pool × Scheduler)
  nextSchedulerStates : List (SchedulerKey × SchedulerState)
  routes : List (Str × ServiceRoute)

/-- The route and the scheduler of one pool. -/
def activatePool (schedulerStates : List (SchedulerKey × SchedulerState)) (a : Activation C E)
    (pool : ComposedPool C E) : Except Rejection (Activation C E) := do
  let outputId := pool.virtualModel.id
  let schedulerKey : SchedulerKey := if providerWide config then none else some outputId
  let schedulerMemberIds :=
    if providerWide config then config.memberProviders.getD [] else pool.memberModelIds
  let previous := (a.nextSchedulerStates.lookup schedulerKey).or
    (schedulerStates.lookup schedulerKey)
  let (schedulers, scheduler) ← match previous.filter (·.memberIds = schedulerMemberIds) with
    | some state => pure (a.schedulers, state.scheduler)
    | none =>
      match memberIds schedulerMemberIds with
      | .ok pool => pure (a.schedulers ++ [(pool, Scheduler.initial)], a.schedulers.length)
      | .error thrown => throw (.invalidScheduler thrown)
  let targets := targetModelIds config pool
  return {
    schedulers := schedulers
    nextSchedulerStates := (schedulerKey, ⟨schedulerMemberIds, scheduler⟩) ::
      a.nextSchedulerStates.filter (·.1 ≠ schedulerKey)
    routes := a.routes ++ [(outputId, ⟨targets.map Prod.fst, scheduler, targets⟩)] }

def activateCatalogue (s : Services C E) (resolved : Composed C E) :
    Except Rejection (Activation C E) :=
  resolved.pools.foldlM (activatePool config s.schedulerStates) ⟨s.schedulers, [], []⟩

/-- The routes an inference gets from a catalogue. -/
def handOut (active : Active C E) : Purpose → List ServiceRoute
  | .infer model => (active.routes.lookup model).toList
  | _ => []

/-- The outcome of a refresh whose upstream call has completed. -/
def finishRefresh (s : Services C E) (response : Except Thrown (List (Model C E))) :
    Except Failed (List (Pool × Scheduler) × List (SchedulerKey × SchedulerState) × Active C E) :=
  match response with
  | .error thrown => .error (.upstream thrown)
  | .ok models =>
    match composeCatalog models config componentName with
    | .error reason => .error (.rejected reason)
    | .ok resolved =>
      match activateCatalogue config s resolved with
      | .error reason => .error (.activation reason)
      | .ok a => .ok (a.schedulers, a.nextSchedulerStates, ⟨resolved.models, a.routes⟩)

inductive ServiceEvent (C E : Type) where
  | start (purpose : Purpose)
  | complete (i : ℕ) (response : Except Thrown (List (Model C E)))
  | lookup (model : Str)
  | schedule (scheduler : ℕ) (state : Scheduler)

def serviceStep (s : Services C E) : ServiceEvent C E → Option (Services C E)
  -- `refreshCatalogue` up to its call of the upstream
  | .start purpose => some { s with
      refreshGeneration := s.refreshGeneration + 1
      pending := s.pending ++ [⟨s.refreshGeneration + 1, purpose⟩] }
  -- the rest of it, once that call has returned or thrown
  | .complete i response => do
    let refresh ← s.pending[i]?
    let pending := s.pending.eraseIdx i
    let newest := refresh.generation = s.refreshGeneration
    match finishRefresh config componentName s response with
    | .ok (schedulers, schedulerStates, active) =>
      return if newest then { s with
          schedulers := schedulers
          schedulerStates := schedulerStates
          catalogue := some active
          pending := pending
          applied := s.applied ++ [(refresh.generation, some active)]
          handedOut := s.handedOut ++ handOut active refresh.purpose }
        else { s with
          schedulers := schedulers
          pending := pending
          handedOut := s.handedOut ++ handOut active refresh.purpose }
    | .error _ =>
      return if newest then { s with
          catalogue := none
          pending := pending
          applied := s.applied ++ [(refresh.generation, none)] }
        else { s with pending := pending }
  -- an inference that finds its route in the active catalogue
  | .lookup model => do
    let active ← s.catalogue
    return { s with handedOut := s.handedOut ++ handOut active (.infer model) }
  -- a request of a handed out route changes the cursor or a cooldown
  | .schedule scheduler state => do
    let (pool, _) ← s.schedulers[scheduler]?
    return { s with schedulers := s.schedulers.set scheduler (pool, state) }

/-- The key and the members that every activation asks a scheduler for. -/
structure OneScheduler (key : SchedulerKey) (ids : List Str) : Prop where
  pools : ∀ models (resolved : Composed C E), composeCatalog models config componentName =
    .ok resolved → resolved.pools ≠ [] ∧ ∀ pool ∈ resolved.pools,
      (if providerWide config then none else some pool.virtualModel.id) = key ∧
      (if providerWide config then config.memberProviders.getD [] else pool.memberModelIds) = ids

variable {config componentName}

omit [DecidableEq C] [DecidableEq E] in
theorem activatePool_eq {key : SchedulerKey} {ids : List Str} {pool : ComposedPool C E}
    {states : List (SchedulerKey × SchedulerState)} {a : Activation C E}
    (hkey : (if providerWide config then none else some pool.virtualModel.id) = key)
    (hids : (if providerWide config then config.memberProviders.getD [] else pool.memberModelIds) =
      ids)
    (hstates : states = [(key, ⟨ids, 0⟩)])
    (hnext : a.nextSchedulerStates = [] ∨ a.nextSchedulerStates = [(key, ⟨ids, 0⟩)]) :
    ∃ route : ServiceRoute, route.scheduler = 0 ∧ activatePool config states a pool = .ok {
      schedulers := a.schedulers
      nextSchedulerStates := [(key, ⟨ids, 0⟩)]
      routes := a.routes ++ [(pool.virtualModel.id, route)] } := by
  refine ⟨⟨(targetModelIds config pool).map Prod.fst, 0, targetModelIds config pool⟩, rfl, ?_⟩
  have hlookup : (a.nextSchedulerStates.lookup key).or (states.lookup key) =
      some (⟨ids, 0⟩ : SchedulerState) := by
    rcases hnext with hn | hn <;> simp [hn, hstates]
  have hfilter : a.nextSchedulerStates.filter (·.1 ≠ key) = [] := by
    rcases hnext with hn | hn <;> simp [hn]
  unfold activatePool
  simp only [hkey, hids, hlookup, hfilter]
  simp [Option.filter, bind, Except.bind, pure, Except.pure]

omit [DecidableEq C] [DecidableEq E] in
theorem activatePools_eq {key : SchedulerKey} {ids : List Str} {pools : List (ComposedPool C E)}
    {states : List (SchedulerKey × SchedulerState)} {a : Activation C E}
    (hpools : ∀ pool ∈ pools,
      (if providerWide config then none else some pool.virtualModel.id) = key ∧
      (if providerWide config then config.memberProviders.getD [] else pool.memberModelIds) = ids)
    (hstates : states = [(key, ⟨ids, 0⟩)])
    (hnext : a.nextSchedulerStates = [] ∨ a.nextSchedulerStates = [(key, ⟨ids, 0⟩)])
    (hroutes : ∀ route ∈ a.routes, route.2.scheduler = 0) :
    ∃ b, pools.foldlM (activatePool config states) a = .ok b ∧ b.schedulers = a.schedulers ∧
      (b.nextSchedulerStates = a.nextSchedulerStates ∧ pools = [] ∨
        b.nextSchedulerStates = [(key, ⟨ids, 0⟩)]) ∧
      b.routes.map Prod.fst = a.routes.map Prod.fst ++ pools.map (·.virtualModel.id) ∧
      ∀ route ∈ b.routes, route.2.scheduler = 0 := by
  induction pools generalizing a with
  | nil => exact ⟨a, rfl, rfl, .inl ⟨rfl, rfl⟩, by simp, hroutes⟩
  | cons pool pools ih =>
    obtain ⟨hkey, hids⟩ := hpools pool (by simp)
    obtain ⟨route, hzero, ha⟩ := activatePool_eq hkey hids hstates hnext
    obtain ⟨b, hb, hsch, hnext', hmap, hroutes'⟩ := ih (a := {
      schedulers := a.schedulers
      nextSchedulerStates := [(key, ⟨ids, 0⟩)]
      routes := a.routes ++ [(pool.virtualModel.id, route)] })
      (fun p hp => hpools p (by simp [hp])) (.inr rfl) (by
        intro r hr
        rcases List.mem_append.mp hr with hr | hr
        · exact hroutes r hr
        · rw [List.mem_singleton.mp hr]
          exact hzero)
    refine ⟨b, ?_, hsch, .inr ?_, ?_, hroutes'⟩
    · rw [List.foldlM_cons, ha]
      exact hb
    · rcases hnext' with ⟨hn, -⟩ | hn
      · exact hn
      · exact hn
    · rw [hmap]
      simp

variable (config componentName) in
/-- The services with their one scheduler, or with none where every catalogue is rejected. -/
inductive Settled (pools : List Pool) (s : Services C E) : Prop where
  | one (key : SchedulerKey) (ids : List Str) (pool : Pool) (state : Scheduler)
      (created : pools = [pool])
      (asks : OneScheduler (C := C) (E := E) config componentName key ids)
      (schedulers : s.schedulers = [(pool, state)])
      (states : s.schedulerStates = [(key, ⟨ids, 0⟩)])
  | without (created : pools = [])
      (rejects : ∀ models (resolved : Composed C E),
        composeCatalog models config componentName ≠ .ok resolved)
      (schedulers : s.schedulers = [])

omit [DecidableEq C] [DecidableEq E] in
theorem initialServices_eq_ok {key : Option SchedulerKey} {ids : Option (List Str)}
    {s : Services C E} (h : initialServices key ids = .ok s) :
    (∃ key' ids' pool, key = some key' ∧ ids = some ids' ∧
      s = servicesWith [(pool, .initial)] [(key', ⟨ids', 0⟩)]) ∨
    ((key = none ∨ ids = none) ∧ s = servicesWith [] []) := by
  unfold initialServices at h
  split at h
  · rename_i key ids
    cases hm : memberIds ids with
    | error thrown =>
      rw [hm] at h
      cases h
    | ok pool =>
      rw [hm] at h
      cases h
      exact .inl ⟨key, ids, pool, rfl, rfl, rfl⟩
  · rename_i hno
    cases h
    refine .inr ⟨?_, rfl⟩
    cases key with
    | none => exact .inl rfl
    | some key =>
      cases ids with
      | none => exact .inr rfl
      | some ids => exact absurd rfl (hno key ids rfl)

omit [DecidableEq C] [DecidableEq E] in
theorem createPoolerServices_eq_ok {s : Services C E}
    (h : createPoolerServices config componentName = .ok s) :
    ∃ outputId, exactOutputId config componentName = .ok outputId ∧
      (if providerWide config then initialServices (some none) config.memberProviders
        else initialServices (outputId.map some) config.memberModelIds) = .ok s := by
  unfold createPoolerServices at h
  by_cases hname : isComponentName componentName
  swap
  · rw [if_pos (by simp [hname])] at h
    cases h
  rw [if_neg (by simp [hname])] at h
  cases ho : exactOutputId config componentName with
  | error reason =>
    rw [ho] at h
    cases h
  | ok outputId =>
    rw [ho] at h
    exact ⟨outputId, rfl, h⟩

theorem oneScheduler_providers {providers : List Str} (hp : config.memberProviders = some providers) :
    OneScheduler (C := C) (E := E) config componentName none providers := by
  constructor
  intro models resolved hr
  refine ⟨(composeCatalog_eq_ok hr).1, ?_⟩
  intro pool hpool
  simp [providerWide, hp]

theorem oneScheduler_exact {ids : List Str} {outputId : Str}
    (hp : config.memberProviders = none) (hids : config.memberModelIds = some ids)
    (hout : exactOutputId config componentName = .ok (some outputId)) :
    OneScheduler (C := C) (E := E) config componentName (some outputId) ids := by
  constructor
  intro models resolved hr
  obtain ⟨hne, hcases⟩ := composeCatalog_eq_ok hr
  refine ⟨hne, ?_⟩
  intro pool hpool
  rcases hcases with ⟨_, hp', -⟩ | ⟨ids', outputModel, -, hi, ho, hall⟩
  · rw [hp] at hp'
    cases hp'
  · rw [hids] at hi
    cases hi
    obtain ⟨hmembers, hid⟩ := hall pool hpool
    rw [exactOutputId, hids, ho, Option.getD_some] at hout
    dsimp only at hout
    rw [hid] at hout
    cases hout
    simp [providerWide, hp, hmembers]

theorem settled_initial {s : Services C E} (h : createPoolerServices config componentName = .ok s) :
    Settled config componentName (s.schedulers.map Prod.fst) s := by
  obtain ⟨outputId, hout, h⟩ := createPoolerServices_eq_ok h
  cases hp : config.memberProviders with
  | some providers =>
    rw [providerWide, hp, Option.isSome_some, if_pos rfl] at h
    rcases initialServices_eq_ok h with ⟨key, ids, pool, hk, hi, rfl⟩ | ⟨hk | hi, -⟩
    · cases hk
      cases hi
      exact .one none providers pool .initial rfl (oneScheduler_providers hp) rfl rfl
    · cases hk
    · cases hi
  | none =>
    rw [providerWide, hp, Option.isSome_none, if_neg (by simp)] at h
    rcases initialServices_eq_ok h with ⟨key, ids, pool, hk, hi, rfl⟩ | ⟨hno, rfl⟩
    · obtain ⟨id, rfl, rfl⟩ := Option.map_eq_some_iff.mp hk
      exact .one (some id) ids pool .initial rfl (oneScheduler_exact hp hi hout) rfl rfl
    · refine .without rfl ?_ rfl
      intro models resolved hr
      rcases (composeCatalog_eq_ok hr).2 with ⟨_, hp', -⟩ | ⟨ids, _, -, hi, -⟩
      · rw [hp] at hp'
        cases hp'
      · rcases hno with hk | hn
        · -- an exact configuration has an output identifier
          rw [exactOutputId, hi] at hout
          dsimp only at hout
          cases ho : outputModelId componentName (config.outputModel.getD []) with
          | error reason =>
            rw [ho] at hout
            cases hout
          | ok id =>
            rw [ho] at hout
            cases hout
            cases hk
        · rw [hi] at hn
          cases hn

variable (config componentName) in
/-- A catalogue made from all of one upstream response, its routes on the one scheduler. -/
def Whole (active : Active C E) : Prop :=
  ∃ models resolved, composeCatalog models config componentName = .ok resolved ∧
    active.models = resolved.models ∧
    active.routes.map Prod.fst = resolved.pools.map (·.virtualModel.id) ∧
    ∀ route ∈ active.routes, route.2.scheduler = 0

/-- A refresh that succeeds builds a whole catalogue and creates no scheduler. -/
theorem finishRefresh_eq_ok {pools : List Pool} {s : Services C E}
    {response : Except Thrown (List (Model C E))} {schedulers : List (Pool × Scheduler)}
    {states : List (SchedulerKey × SchedulerState)} {active : Active C E}
    (hs : Settled config componentName pools s)
    (h : finishRefresh config componentName s response = .ok (schedulers, states, active)) :
    schedulers = s.schedulers ∧ states = s.schedulerStates ∧ Whole config componentName active ∧
      pools.length = 1 := by
  unfold finishRefresh at h
  cases response with
  | error thrown => cases h
  | ok models =>
    dsimp only at h
    cases hc : composeCatalog models config componentName with
    | error reason =>
      rw [hc] at h
      cases h
    | ok resolved =>
      rw [hc] at h
      cases hs with
      | without _ rejects _ => exact absurd hc (rejects models resolved)
      | one key ids pool state created asks hsch hstates =>
        obtain ⟨hne, hpools⟩ := asks.pools models resolved hc
        obtain ⟨b, hb, hbs, hnext, hmap, hzero⟩ := activatePools_eq (a := ⟨s.schedulers, [], []⟩)
          hpools hstates (.inl rfl) (by simp)
        dsimp only at h
        rw [activateCatalogue, hb] at h
        cases h
        refine ⟨hbs, ?_, ⟨models, resolved, hc, rfl, by simpa using hmap, hzero⟩, by simp [created]⟩
        rcases hnext with ⟨-, he⟩ | hn
        · exact absurd he hne
        · rw [hn, hstates]

variable (config componentName) in
structure Consistent (pools : List Pool) (s : Services C E) : Prop where
  settled : Settled config componentName pools s
  created : s.schedulers.map Prod.fst = pools
  started : ∀ refresh ∈ s.pending, refresh.generation ≤ s.refreshGeneration
  finished : ∀ outcome ∈ s.applied, outcome.1 ≤ s.refreshGeneration
  unapplied : ∀ refresh ∈ s.pending, ∀ outcome ∈ s.applied, refresh.generation ≠ outcome.1
  distinct : (s.pending.map Refresh.generation).Nodup
  ordered : (s.applied.map Prod.fst).Pairwise (· < ·)
  latest : s.catalogue = s.applied.getLast?.bind Prod.snd
  whole : ∀ outcome ∈ s.applied, ∀ active, outcome.2 = some active →
    Whole config componentName active
  single : ∀ route ∈ s.handedOut, route.scheduler = 0 ∧ pools.length = 1

omit [DecidableEq C] [DecidableEq E] in
theorem createPoolerServices_fresh {s : Services C E}
    (h : createPoolerServices config componentName = .ok s) :
    s.catalogue = none ∧ s.pending = [] ∧ s.applied = [] ∧ s.handedOut = [] := by
  obtain ⟨outputId, -, h⟩ := createPoolerServices_eq_ok h
  have fresh : ∀ key ids, initialServices key ids = .ok s →
      s.catalogue = none ∧ s.pending = [] ∧ s.applied = [] ∧ s.handedOut = [] := by
    intro key ids hi
    rcases initialServices_eq_ok hi with ⟨_, _, _, -, -, rfl⟩ | ⟨-, rfl⟩
    · exact ⟨rfl, rfl, rfl, rfl⟩
    · exact ⟨rfl, rfl, rfl, rfl⟩
  split_ifs at h
  · exact fresh _ _ h
  · exact fresh _ _ h

theorem consistent_initial {s : Services C E}
    (h : createPoolerServices config componentName = .ok s) :
    Consistent config componentName (s.schedulers.map Prod.fst) s := by
  obtain ⟨hcat, hpend, happ, hhand⟩ := createPoolerServices_fresh h
  refine ⟨settled_initial h, rfl, ?_, ?_, ?_, ?_, ?_, ?_, ?_, ?_⟩
  all_goals simp [hcat, hpend, happ, hhand]

theorem handOut_single {pools : List Pool} {active : Active C E}
    (hw : Whole config componentName active) (hp : pools.length = 1) (purpose : Purpose) :
    ∀ route ∈ handOut active purpose, route.scheduler = 0 ∧ pools.length = 1 := by
  intro route hr
  cases purpose with
  | health | listModels => cases hr
  | infer model =>
    obtain ⟨-, -, -, -, -, hzero⟩ := hw
    exact ⟨hzero _ (mem_of_lookup (Option.mem_toList.mp hr)), hp⟩

theorem Settled.of_states {pools : List Pool} {s t : Services C E}
    (h : Settled config componentName pools s) (hs : t.schedulers = s.schedulers)
    (hk : t.schedulerStates = s.schedulerStates) : Settled config componentName pools t := by
  cases h with
  | one key ids pool state created asks hsch hstates =>
    exact .one key ids pool state created asks (hs.trans hsch) (hk.trans hstates)
  | without created rejects hsch => exact .without created rejects (hs.trans hsch)

theorem consistent_start {pools : List Pool} {s : Services C E}
    (h : Consistent config componentName pools s) (purpose : Purpose) :
    Consistent config componentName pools { s with
      refreshGeneration := s.refreshGeneration + 1
      pending := s.pending ++ [⟨s.refreshGeneration + 1, purpose⟩] } where
  settled := h.settled.of_states rfl rfl
  created := h.created
  started := by
    intro refresh hr
    dsimp only
    rcases List.mem_append.mp hr with hr | hr
    · have := h.started refresh hr
      omega
    · rw [List.mem_singleton.mp hr]
  finished := by
    intro outcome ho
    have := h.finished outcome ho
    dsimp only
    omega
  unapplied := by
    intro refresh hr outcome ho
    rcases List.mem_append.mp hr with hr | hr
    · exact h.unapplied refresh hr outcome ho
    · have := h.finished outcome ho
      rw [List.mem_singleton.mp hr]
      dsimp only
      omega
  distinct := by
    rw [List.map_append, List.nodup_append]
    refine ⟨h.distinct, by simp, ?_⟩
    intro a ha b hb hab
    obtain ⟨refresh, hr, rfl⟩ := List.mem_map.mp ha
    have := h.started refresh hr
    have hnew : b = s.refreshGeneration + 1 := List.mem_singleton.mp hb
    omega
  ordered := h.ordered
  latest := h.latest
  whole := h.whole
  single := h.single

/-- A refresh leaves the list of those in flight, its outcome applied if it is the newest. -/
theorem consistent_complete {pools : List Pool} {s t : Services C E} {i : ℕ} {refresh : Refresh}
    {outcome : Option (Active C E)} (h : Consistent config componentName pools s)
    (hi : s.pending[i]? = some refresh)
    (hwhole : ∀ active, outcome = some active → Whole config componentName active)
    (hsch : t.schedulers = s.schedulers) (hstates : t.schedulerStates = s.schedulerStates)
    (hgen : t.refreshGeneration = s.refreshGeneration) (hpend : t.pending = s.pending.eraseIdx i)
    (happ : (refresh.generation = s.refreshGeneration ∧ t.catalogue = outcome ∧
        t.applied = s.applied ++ [(refresh.generation, outcome)]) ∨
      (t.catalogue = s.catalogue ∧ t.applied = s.applied))
    (hout : ∀ route ∈ t.handedOut, route.scheduler = 0 ∧ pools.length = 1) :
    Consistent config componentName pools t := by
  have hmem : refresh ∈ s.pending := List.mem_of_getElem? hi
  have hsub : ∀ r ∈ t.pending, r ∈ s.pending := by
    intro r hr
    rw [hpend] at hr
    exact List.mem_of_mem_eraseIdx hr
  -- the generations left in flight differ from the one that completes
  have hother : ∀ r ∈ t.pending, r.generation ≠ refresh.generation := by
    intro r hr heq
    rw [hpend] at hr
    obtain ⟨hlt, hget⟩ := List.getElem?_eq_some_iff.mp hi
    have hperm := List.getElem_cons_eraseIdx_perm hlt
    rw [hget] at hperm
    have hnodup := (hperm.map Refresh.generation).nodup_iff.mpr h.distinct
    rw [List.map_cons, List.nodup_cons] at hnodup
    exact hnodup.1 (heq ▸ List.mem_map_of_mem hr)
  have hdistinct : (t.pending.map Refresh.generation).Nodup := by
    rw [hpend]
    exact (List.Sublist.map _ (List.eraseIdx_sublist _ i)).nodup h.distinct
  rcases happ with ⟨hnew, hcat, happ⟩ | ⟨hcat, happ⟩
  · refine ⟨h.settled.of_states hsch hstates, hsch ▸ h.created, ?_, ?_, ?_, hdistinct, ?_, ?_, ?_,
      hout⟩
    · intro r hr
      rw [hgen]
      exact h.started r (hsub r hr)
    · intro x hx
      rw [hgen]
      rw [happ] at hx
      rcases List.mem_append.mp hx with hx | hx
      · exact h.finished x hx
      · rw [List.mem_singleton.mp hx]
        exact hnew.le
    · intro r hr x hx
      rw [happ] at hx
      rcases List.mem_append.mp hx with hx | hx
      · exact h.unapplied r (hsub r hr) x hx
      · rw [List.mem_singleton.mp hx]
        exact hother r hr
    · rw [happ, List.map_append, List.pairwise_append]
      refine ⟨h.ordered, by simp, ?_⟩
      intro a ha b hb
      obtain ⟨x, hx, rfl⟩ := List.mem_map.mp ha
      rw [List.map_singleton, List.mem_singleton] at hb
      have hle := h.finished x hx
      have hne := h.unapplied refresh hmem x hx
      omega
    · rw [hcat, happ]
      simp
    · intro x hx active ha
      rw [happ] at hx
      rcases List.mem_append.mp hx with hx | hx
      · exact h.whole x hx active ha
      · rw [List.mem_singleton.mp hx] at ha
        exact hwhole active ha
  · refine ⟨h.settled.of_states hsch hstates, hsch ▸ h.created, ?_, ?_, ?_, hdistinct, ?_, ?_, ?_,
      hout⟩
    · intro r hr
      rw [hgen]
      exact h.started r (hsub r hr)
    · rw [hgen, happ]
      exact h.finished
    · intro r hr
      rw [happ]
      exact h.unapplied r (hsub r hr)
    · rw [happ]
      exact h.ordered
    · rw [hcat, happ]
      exact h.latest
    · rw [happ]
      exact h.whole

theorem Settled.length_eq {pools : List Pool} {s : Services C E} {active : Active C E}
    (h : Settled config componentName pools s) (hw : Whole config componentName active) :
    pools.length = 1 := by
  obtain ⟨models, resolved, hc, -⟩ := hw
  cases h with
  | one key ids pool state created _ _ _ => rw [created, List.length_singleton]
  | without _ rejects _ => exact absurd hc (rejects models resolved)

theorem consistent_step {pools : List Pool} (s : Services C E) (event : ServiceEvent C E)
    (t : Services C E) (h : Consistent config componentName pools s)
    (hs : serviceStep config componentName s event = some t) :
    Consistent config componentName pools t := by
  cases event with
  | start purpose =>
    cases hs
    exact consistent_start h purpose
  | complete i response =>
    obtain ⟨refresh, hi, hs⟩ := Option.bind_eq_some_iff.mp hs
    dsimp only at hs
    cases hf : finishRefresh config componentName s response with
    | error failed =>
      rw [hf] at hs
      dsimp only at hs
      split_ifs at hs with hnew
      · cases hs
        exact consistent_complete h hi (by simp) rfl rfl rfl rfl (.inl ⟨hnew, rfl, rfl⟩) h.single
      · cases hs
        have hnone : ∀ active, (none : Option (Active C E)) = some active →
            Whole config componentName active := by simp
        exact consistent_complete h hi hnone rfl rfl rfl rfl (.inr ⟨rfl, rfl⟩) h.single
    | ok result =>
      obtain ⟨schedulers, states, active⟩ := result
      obtain ⟨hsch, hstates, hw, hlen⟩ := finishRefresh_eq_ok h.settled hf
      have hout : ∀ route ∈ s.handedOut ++ handOut active refresh.purpose,
          route.scheduler = 0 ∧ pools.length = 1 := by
        intro route hr
        rcases List.mem_append.mp hr with hr | hr
        · exact h.single route hr
        · exact handOut_single hw hlen refresh.purpose route hr
      have hwhole : ∀ a, some active = some a → Whole config componentName a := by
        intro a ha
        cases ha
        exact hw
      rw [hf] at hs
      dsimp only at hs
      split_ifs at hs with hnew
      · cases hs
        exact consistent_complete h hi hwhole hsch hstates rfl rfl (.inl ⟨hnew, rfl, rfl⟩) hout
      · cases hs
        exact consistent_complete h hi hwhole hsch rfl rfl rfl (.inr ⟨rfl, rfl⟩) hout
  | lookup model =>
    obtain ⟨active, ha, hs⟩ := Option.bind_eq_some_iff.mp hs
    cases hs
    have hlast := h.latest
    rw [ha] at hlast
    obtain ⟨outcome, hget, hsnd⟩ := Option.bind_eq_some_iff.mp hlast.symm
    have hw := h.whole outcome (List.mem_of_getLast? hget) active hsnd
    refine { h with
      settled := h.settled.of_states rfl rfl
      single := ?_ }
    intro route hr
    rcases List.mem_append.mp hr with hr | hr
    · exact h.single route hr
    · exact handOut_single hw (h.settled.length_eq hw) (.infer model) route hr
  | schedule scheduler state =>
    obtain ⟨⟨pool, old⟩, hget, hs⟩ := Option.bind_eq_some_iff.mp hs
    cases hs
    have hmap : (s.schedulers.set scheduler (pool, state)).map Prod.fst =
        s.schedulers.map Prod.fst := by
      rw [List.map_set]
      obtain ⟨hlt, heq⟩ := List.getElem?_eq_some_iff.mp hget
      have hfst : (s.schedulers.map Prod.fst)[scheduler]? = some pool := by
        rw [List.getElem?_map, hget]
        rfl
      obtain ⟨hlt, hpool⟩ := List.getElem?_eq_some_iff.mp hfst
      rw [← hpool]
      exact List.set_getElem_self hlt
    have hsettled := h.settled
    refine { h with
      settled := ?_
      created := hmap.trans h.created }
    cases hsettled with
    | one key ids p st created asks hsch hstates =>
      rw [hsch] at hget
      obtain ⟨hlt, heq⟩ := List.getElem?_eq_some_iff.mp hget
      have hzero : scheduler = 0 := by
        rw [List.length_singleton] at hlt
        omega
      subst hzero
      cases heq
      exact .one key ids pool state created asks (by simp [hsch]) hstates
    | without created rejects hsch =>
      rw [hsch] at hget
      cases hget

/-- However refreshes overlap and end: their outcomes are applied in the order in which they
started and the catalogue is the last one applied, a whole one or none after a failure; every route
handed out is on the one scheduler created at construction, and no refresh changes a scheduler. -/
theorem catalogue_refresh {initial : Services C E}
    (hc : createPoolerServices config componentName = .ok initial)
    {events : List (ServiceEvent C E)} {s : Services C E}
    (h : run (serviceStep config componentName) initial events = some s) :
    (s.applied.map Prod.fst).Pairwise (· < ·) ∧
    s.catalogue = s.applied.getLast?.bind Prod.snd ∧
    (∀ active, s.catalogue = some active → Whole config componentName active) ∧
    (∀ i response failed t, finishRefresh config componentName s response = .error failed →
      serviceStep config componentName s (.complete i response) = some t →
        t.catalogue = s.catalogue ∨ t.catalogue = none) ∧
    (∀ route ∈ s.handedOut, route.scheduler = 0 ∧ initial.schedulers.length = 1) ∧
    (∀ event t, serviceStep config componentName s event = some t →
      (∀ scheduler state, event ≠ .schedule scheduler state) → t.schedulers = s.schedulers) := by
  have hcons : Consistent config componentName (initial.schedulers.map Prod.fst) s :=
    run_invariant consistent_step (consistent_initial hc) h
  refine ⟨hcons.ordered, hcons.latest, ?_, ?_, ?_, ?_⟩
  · intro active ha
    have hlast := hcons.latest
    rw [ha] at hlast
    obtain ⟨outcome, hget, hsnd⟩ := Option.bind_eq_some_iff.mp hlast.symm
    exact hcons.whole outcome (List.mem_of_getLast? hget) active hsnd
  · intro i response failed t hf hs
    obtain ⟨refresh, -, hs⟩ := Option.bind_eq_some_iff.mp hs
    dsimp only at hs
    rw [hf] at hs
    dsimp only at hs
    split_ifs at hs
    · cases hs
      exact .inr rfl
    · cases hs
      exact .inl rfl
  · intro route hr
    have hsingle := hcons.single route hr
    rwa [List.length_map] at hsingle
  · intro event t hs hno
    cases event with
    | start purpose =>
      cases hs
      rfl
    | complete i response =>
      obtain ⟨refresh, -, hs⟩ := Option.bind_eq_some_iff.mp hs
      dsimp only at hs
      cases hf : finishRefresh config componentName s response with
      | error failed =>
        rw [hf] at hs
        dsimp only at hs
        split_ifs at hs
        · cases hs
          rfl
        · cases hs
          rfl
      | ok result =>
        obtain ⟨schedulers, states, active⟩ := result
        have hsch := (finishRefresh_eq_ok hcons.settled hf).1
        rw [hf] at hs
        dsimp only at hs
        split_ifs at hs
        · cases hs
          exact hsch
        · cases hs
          exact hsch
    | lookup model =>
      obtain ⟨active, -, hs⟩ := Option.bind_eq_some_iff.mp hs
      cases hs
      rfl
    | schedule scheduler state => exact absurd rfl (hno scheduler state)

end

def pairConfig : Config := ⟨some [lit "one", lit "two"], none, none⟩

def memberModel (id : String) : Model Unit Unit where
  id := lit id
  displayName := lit id
  capabilities := some ()
  extensions := []
  inferenceFormat := lit "pi"
  contextWindowTokens := 1000
  maxOutputTokens := 100

/-- The second refresh completes first; the first one fails afterwards. -/
def overlapping : List (ServiceEvent Unit Unit) := [
  .start .health,
  .start (.infer (lit "pool/m")),
  .complete 1 (.ok [memberModel "one/m", memberModel "two/m"]),
  .complete 0 (.error (.error "unreachable"))]

theorem catalogue_refresh_overlapping :
    ∃ initial s, createPoolerServices (C := Unit) (E := Unit) pairConfig (lit "pool") = .ok initial ∧
      run (serviceStep pairConfig (lit "pool")) initial overlapping = some s ∧
      s.handedOut.length = 1 ∧ s.catalogue = s.applied.getLast?.bind Prod.snd := by
  have hsome : ∃ initial,
      createPoolerServices (C := Unit) (E := Unit) pairConfig (lit "pool") = .ok initial ∧
      ((run (serviceStep pairConfig (lit "pool")) initial overlapping).any
        fun s => s.handedOut.length = 1) = true := by
    refine ⟨servicesWith [(⟨[lit "one", lit "two"], by decide +kernel, by decide +kernel,
      by decide +kernel⟩, .initial)] [(none, ⟨[lit "one", lit "two"], 0⟩)], rfl, ?_⟩
    decide +kernel
  obtain ⟨initial, hc, hrun⟩ := hsome
  obtain ⟨s, hs, hlen⟩ := (Option.any_eq_true _ _).mp hrun
  exact ⟨initial, s, hc, hs, of_decide_eq_true hlen, (catalogue_refresh hc hs).2.1⟩

end Cyclo.Pooler
