import Cyclo.Pooler.Pool
import Cyclo.Protocol.Ids
import Cyclo.Results

/-! The catalogue of virtual models that a pooler composes from its upstream models. -/
namespace Cyclo.Pooler
open Js Protocol

/-- An upstream model as decoded; the types of its capabilities and extensions are opaque. -/
structure Model (C E : Type) where
  id : Str
  displayName : Str
  capabilities : Option C
  extensions : List E
  inferenceFormat : Str
  contextWindowTokens : ℕ
  maxOutputTokens : ℕ
  deriving DecidableEq

structure Config where
  memberProviders : Option (List Str)
  memberModelIds : Option (List Str)
  outputModel : Option Str

/-- Why a catalogue is rejected. -/
inductive Rejection where
  | invalidConfig
  | invalidComponentName
  | invalidModelId (id : Str)
  | invalidOutputModel (name : Str)
  | repeatedModel (id : Str)
  | collidingModel (id : Str)
  | unavailableModel (id : Str)
  | unavailableProvider (provider : Str)
  | invalidMember (id : Str)
  | incompatibleFormats (outputId : Str)
  | incompatibleCapabilities (outputId : Str)
  | incompatibleExtensions (outputId : Str)
  | noSharedModel
  | invalidScheduler (thrown : Thrown)

/-- `/^[a-z][a-z0-9-]{0,62}$/u` -/
def isComponentName : Str → Bool
  | [] => false
  | c :: s => isLower c && s.length ≤ 62 && s.all fun c => isLower c || Str.isDigit c || c = 0x2d

def outputModelId (componentName outputModel : Str) : Except Rejection Str :=
  let id := componentName ++ lit "/" ++ outputModel
  if isComponentName componentName && isLocalModelId outputModel && (splitPublicModelId id).isSome
  then .ok id else .error (.invalidOutputModel outputModel)

inductive Mode where
  | providers (memberProviders : List Str)
  | models (memberModelIds : List Str) (outputModel : Str)

def validatedConfig (config : Config) : Except Rejection Mode :=
  match config.memberModelIds, config.memberProviders with
  | none, some providers =>
    if 2 ≤ providers.length ∧ providers.all isProviderPrefix ∧ providers.Nodup ∧
        config.outputModel = none then .ok (.providers providers)
    else .error .invalidConfig
  | some ids, none =>
    match config.outputModel with
    | some outputModel =>
      if 2 ≤ ids.length ∧ ids.all (fun id => (splitPublicModelId id).isSome) ∧ ids.Nodup then
        .ok (.models ids outputModel)
      else .error .invalidConfig
    | none => .error .invalidConfig
  | _, _ => .error .invalidConfig

section
variable {C E : Type} [DecidableEq C] [DecidableEq E]

/-- Upstream models by identifier, in the order listed. -/
abbrev Index (C E : Type) := List (Str × Model C E)

structure ComposedPool (C E : Type) where
  memberModelIds : List Str
  members : List (Model C E)
  virtualModel : Model C E

structure Composed (C E : Type) where
  models : List (Model C E)
  pools : List (ComposedPool C E)

def validMember (model : Model C E) : Bool :=
  (splitPublicModelId model.id).isSome && model.capabilities.isSome && model.inferenceFormat ≠ [] &&
    0 < model.contextWindowTokens && model.contextWindowTokens < 2 ^ 64 &&
    0 < model.maxOutputTokens && model.maxOutputTokens < 2 ^ 64

def composePool (outputId : Str) : List (Model C E) → Except Rejection (ComposedPool C E)
  | [] => .error .invalidConfig
  | reference :: others => do
    let members := reference :: others
    for model in members do
      if !validMember model then throw (.invalidMember model.id)
    for model in others do
      if model.inferenceFormat ≠ reference.inferenceFormat then
        throw (.incompatibleFormats outputId)
      if model.capabilities ≠ reference.capabilities then
        throw (.incompatibleCapabilities outputId)
      if model.extensions ≠ reference.extensions then
        throw (.incompatibleExtensions outputId)
    return {
      memberModelIds := members.map Model.id
      members := members
      virtualModel := {
        id := outputId
        displayName := outputId
        capabilities := reference.capabilities
        contextWindowTokens :=
          others.foldl (fun least model => min model.contextWindowTokens least)
            reference.contextWindowTokens
        maxOutputTokens :=
          others.foldl (fun least model => min model.maxOutputTokens least)
            reference.maxOutputTokens
        extensions := reference.extensions
        inferenceFormat := reference.inferenceFormat } }

def indexModels : List (Model C E) → Index C E → Except Rejection (Index C E)
  | [], index => .ok index
  | model :: models, index =>
    if (splitPublicModelId model.id).isNone then .error (.invalidModelId model.id)
    else if (index.lookup model.id).isSome then .error (.repeatedModel model.id)
    else indexModels models (index ++ [(model.id, model)])

/-- The members with the configured identifiers. -/
def exactMembers (index : Index C E) : List Str → Except Rejection (List (Model C E))
  | [] => .ok []
  | id :: ids =>
    match index.lookup id with
    | none => .error (.unavailableModel id)
    | some model => (exactMembers index ids).map (model :: ·)

def exactModelPools (index : Index C E) (memberModelIds : List Str) (outputModel : Str)
    (componentName : Str) : Except Rejection (List (ComposedPool C E)) := do
  let outputId ← outputModelId componentName outputModel
  if (index.lookup outputId).isSome then throw (.collidingModel outputId)
  let members ← exactMembers index memberModelIds
  let pool ← composePool outputId members
  return [pool]

def modelProvider (id : Str) : Str := ((splitAtSlash id).map Prod.fst).getD []

def localModel (id : Str) : Str := ((splitAtSlash id).map Prod.snd).getD id

/-- The model of a provider under its local name. -/
def providerModel (index : Index C E) (provider name : Str) : Option (Model C E) :=
  (index.find? fun entry => modelProvider entry.1 = provider ∧ localModel entry.1 = name).map
    Prod.snd

/-- The pools of the local names, in the order first listed. -/
def sharedPools (index : Index C E) (memberProviders : List Str) (componentName : Str) :
    List Str → Except Rejection (List (ComposedPool C E))
  | [] => .ok []
  | name :: names => do
    let members := memberProviders.filterMap fun provider => providerModel index provider name
    if members.length < 2 then sharedPools index memberProviders componentName names
    else
      let outputId ← outputModelId componentName name
      if (index.lookup outputId).isSome then throw (.collidingModel outputId)
      let pool ← composePool outputId members
      let pools ← sharedPools index memberProviders componentName names
      return pool :: pools

def providerWidePools (index : Index C E) (memberProviders : List Str) (componentName : Str) :
    Except Rejection (List (ComposedPool C E)) := do
  let selected := index.filter fun entry => modelProvider entry.1 ∈ memberProviders
  for provider in memberProviders do
    if !selected.any (fun entry => modelProvider entry.1 = provider) then
      throw (.unavailableProvider provider)
  let names := (selected.map fun entry => localModel entry.1).eraseDups
  let pools ← sharedPools index memberProviders componentName names
  if pools.isEmpty then throw .noSharedModel
  return pools

def composeCatalog (upstreamModels : List (Model C E)) (config : Config) (componentName : Str) :
    Except Rejection (Composed C E) := do
  let parsed ← validatedConfig config
  let index ← indexModels upstreamModels []
  let pools ← match parsed with
    | .models ids outputModel => exactModelPools index ids outputModel componentName
    | .providers providers => providerWidePools index providers componentName
  return ⟨upstreamModels ++ pools.map ComposedPool.virtualModel, pools⟩

theorem composePool_eq_ok {outputId : Str} {members : List (Model C E)} {pool : ComposedPool C E}
    (h : composePool outputId members = .ok pool) :
    pool.virtualModel.id = outputId ∧ pool.members = members ∧
      pool.memberModelIds = members.map Model.id := by
  cases members with
  | nil => cases h
  | cons reference others =>
    obtain ⟨-, -, h⟩ := bind_eq_ok.mp h
    obtain ⟨-, -, h⟩ := bind_eq_ok.mp h
    cases h
    exact ⟨rfl, rfl, rfl⟩

omit [DecidableEq C] [DecidableEq E] in
/-- The index files every model under its own identifier. -/
theorem indexModels_id {models : List (Model C E)} {index index' : Index C E}
    (h : indexModels models index = .ok index') (hi : ∀ entry ∈ index, entry.2.id = entry.1) :
    ∀ entry ∈ index', entry.2.id = entry.1 := by
  induction models generalizing index with
  | nil =>
    cases h
    exact hi
  | cons model models ih =>
    unfold indexModels at h
    split_ifs at h
    refine ih h ?_
    intro entry he
    rcases List.mem_append.mp he with he | he
    · exact hi entry he
    · rw [List.mem_singleton.mp he]

theorem mem_of_lookup {α β : Type} [BEq α] [LawfulBEq α] {l : List (α × β)} {a : α} {b : β}
    (h : l.lookup a = some b) : (a, b) ∈ l := by
  induction l with
  | nil => cases h
  | cons entry l ih =>
    obtain ⟨k, v⟩ := entry
    rw [List.lookup_cons] at h
    split at h
    · rename_i hk
      cases h
      rw [eq_of_beq hk]
      exact List.mem_cons_self
    · exact List.mem_cons_of_mem _ (ih h)

omit [DecidableEq C] [DecidableEq E] in
theorem exactMembers_ids {index : Index C E} (hi : ∀ entry ∈ index, entry.2.id = entry.1)
    {ids : List Str} {members : List (Model C E)} (h : exactMembers index ids = .ok members) :
    members.map Model.id = ids := by
  induction ids generalizing members with
  | nil =>
    cases h
    rfl
  | cons id ids ih =>
    unfold exactMembers at h
    cases hl : index.lookup id with
    | none =>
      rw [hl] at h
      cases h
    | some model =>
      rw [hl] at h
      cases hr : exactMembers index ids with
      | error e =>
        rw [hr] at h
        cases h
      | ok rest =>
        rw [hr] at h
        cases h
        rw [List.map_cons, ih hr]
        exact congrArg (· :: ids) (hi _ (mem_of_lookup hl))

/-- A composed catalogue has pools. Those of an exact configuration have the configured members
under the configured name. -/
theorem composeCatalog_eq_ok {models : List (Model C E)} {config : Config} {componentName : Str}
    {resolved : Composed C E} (h : composeCatalog models config componentName = .ok resolved) :
    resolved.pools ≠ [] ∧
      ((∃ providers, config.memberProviders = some providers ∧ config.memberModelIds = none) ∨
        ∃ ids outputModel, config.memberProviders = none ∧ config.memberModelIds = some ids ∧
          config.outputModel = some outputModel ∧ ∀ pool ∈ resolved.pools,
            pool.memberModelIds = ids ∧
              outputModelId componentName outputModel = .ok pool.virtualModel.id) := by
  obtain ⟨parsed, hparsed, h⟩ := bind_eq_ok.mp h
  obtain ⟨index, hindex, h⟩ := bind_eq_ok.mp h
  have hid := indexModels_id hindex (by simp)
  unfold validatedConfig at hparsed
  split at hparsed
  · rename_i providers hm hp
    split_ifs at hparsed
    cases hparsed
    obtain ⟨pools, hpools, h⟩ := bind_eq_ok.mp h
    cases h
    refine ⟨?_, .inl ⟨providers, hp, hm⟩⟩
    unfold providerWidePools at hpools
    obtain ⟨-, -, hpools⟩ := bind_eq_ok.mp hpools
    obtain ⟨pools', -, hpools⟩ := bind_eq_ok.mp hpools
    split_ifs at hpools with he
    · cases hpools
    · cases hpools
      simpa using he
  · rename_i ids hm hp
    split at hparsed
    · rename_i outputModel ho
      split_ifs at hparsed
      cases hparsed
      obtain ⟨pools, hpools, h⟩ := bind_eq_ok.mp h
      cases h
      unfold exactModelPools at hpools
      obtain ⟨outputId, hout, hpools⟩ := bind_eq_ok.mp hpools
      dsimp only at hpools
      split_ifs at hpools
      · cases hpools
      obtain ⟨members, hmembers, hpools⟩ := bind_eq_ok.mp hpools
      obtain ⟨pool, hpool, hpools⟩ := bind_eq_ok.mp hpools
      cases hpools
      obtain ⟨hvirtual, -, hids⟩ := composePool_eq_ok hpool
      refine ⟨by simp, .inr ⟨ids, outputModel, hp, hm, ho, ?_⟩⟩
      intro pool' hp'
      rw [List.mem_singleton.mp hp', hids, hvirtual]
      exact ⟨exactMembers_ids hid hmembers, hout⟩
    · cases hparsed
  · cases hparsed

end
end Cyclo.Pooler
