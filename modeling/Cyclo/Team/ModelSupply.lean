import Cyclo.Gateway.CatalogueEntries
import Cyclo.Gateway.CredentialAccounts
import Cyclo.Js.SafeInteger
import Cyclo.Pooler.Arguments
import Cyclo.Pooler.Composition
import Cyclo.Team.Compatibility

/-! The models that the gateway and the poolers offer can all drive the engine of a team. -/
namespace Cyclo.Team.Compatibility
open Js Wire Protocol

open Gateway.Accounts in
/-- A model of the gateway as it is sent. -/
def published (m : PublicModel) : ModelMessage where
  id := m.id
  displayName := m.displayName
  capabilities := some {
    inputModalities := m.capabilities.inputModalities
    outputModalities := m.capabilities.outputModalities
    functionTools := m.capabilities.functionTools
    parallelToolCalls := m.capabilities.parallelToolCalls
    reasoningSummaries := m.capabilities.reasoningSummaries
    temperature := m.capabilities.temperature
    topP := m.capabilities.topP
    stopSequences := m.capabilities.stopSequences
    extensionTypes := m.capabilities.extensionTypes
    reasoning := m.capabilities.reasoning }
  contextWindowTokens := some m.contextWindowTokens
  maxOutputTokens := some m.maxOutputTokens
  extensions := m.extensions.map fun extension => .str (fromUtf16 extension)
  inferenceFormat := m.inferenceFormat

section
open Gateway.Accounts
variable {sources : Sources} {a : Account} {model : Model}

theorem tokenLimit_eq_ok {problem : Problem} {value : Option Json} {n : ℕ}
    (h : tokenLimit problem value = .ok n) : 0 < n ∧ n ≤ maxSafeInteger := by
  unfold tokenLimit at h
  split at h
  · rename_i value
    split_ifs at h with hvalue
    obtain ⟨hsafe, hpositive⟩ := hvalue
    obtain ⟨hv, hlt⟩ := Number.value_of_isSafeInteger hsafe
    cases h
    have hnum : 0 < value.value.num := Rat.num_pos.mpr hpositive
    rw [hv, ← Int.cast_abs] at hlt
    have hbound : |value.value.num| < 2 ^ 53 := by exact_mod_cast hlt
    have hself := le_abs_self value.value.num
    unfold maxSafeInteger
    omega
  · cases h

theorem isSome_publicId (account : RouteName) (hlocal : isLocalModelId model.id = true) :
    (splitPublicModelId (publicId account.1 model.id)).isSome = true := by
  have hslash : lit "/" = [0x2f] := by decide +kernel
  have hsplit : splitAtSlash (publicId account.1 model.id) = some (account.1, model.id) := by
    unfold publicId
    rw [hslash, List.append_assoc]
    exact splitAtSlash_append (slash_not_mem account.2)
  unfold splitPublicModelId
  rw [hsplit]
  dsimp only
  rw [account.2, hlocal]
  rfl

/-- Every model that is offered can drive the engine. -/
theorem publicModel_drives {m : PublicModel} (hlocal : isLocalModelId model.id = true)
    (h : publicModel a.account.1 model = .ok m) : Drives (published m) := by
  unfold publicModel at h
  obtain ⟨contextWindow, hcontext, h⟩ := bind_eq_ok.mp h
  obtain ⟨maxTokens, houtput, h⟩ := bind_eq_ok.mp h
  cases h
  refine ⟨?_, ?_, ⟨_, rfl, ?_, ?_, rfl, rfl⟩, rfl, ⟨_, rfl, tokenLimit_eq_ok hcontext⟩,
    ⟨_, rfl, tokenLimit_eq_ok houtput⟩⟩
  · exact isSome_publicId a.account hlocal
  · have hformat : fromUtf16 (lit "pi-ai@0.84.0") = inferenceFormat := by decide +kernel
    exact hformat
  · dsimp only
    split_ifs
    · exact List.mem_cons_self
    · exact List.mem_cons_self
  · dsimp only
    split_ifs
    · decide
    · decide

theorem accountRoutes_drives {route : Route} (h : route ∈ accountRoutes sources a) :
    Drives (published route.publicModel) := by
  obtain ⟨model, hmodel, hoffered⟩ := List.mem_filterMap.mp h
  obtain ⟨raw, defaults, custom, heffective⟩ := mem_accountModels hmodel
  exact publicModel_drives (effectiveModel_eq_ok heffective).2 (offered_eq_some hoffered).1

variable {localeLe : Str → Str → Bool} {parseUrl : Str → Option Url}
  {getApiProvider : Str → Option (Option ApiProvider)} {providers : List PiProvider}
  {credentials custom : Document} {catalogue : Catalogue}

theorem buildCatalogue_drives
    (h : buildCatalogue localeLe parseUrl getApiProvider providers credentials custom =
      .ok catalogue) :
    ∀ m ∈ catalogue.models.map published, Drives m := by
  obtain ⟨accounts, definitions, registry, haccepted, diagnostics, hcatalogue⟩ :=
    buildCatalogue_eq_ok h
  have hlists : catalogue.Lists accounts := by
    rw [hcatalogue]
    exact lists_ofRoutes localeLe (credentialAccounts_nodup haccepted.listed) diagnostics
  intro m hm
  obtain ⟨listed, hlisted, hsame⟩ := List.mem_map.mp hm
  obtain ⟨entry, hentry, hpublic⟩ := List.mem_map.mp (hlists.corresponds.mem_iff.mp hlisted)
  rw [hcatalogue] at hentry
  obtain ⟨route, hroute, hsameEntry⟩ := List.mem_map.mp hentry
  obtain ⟨account, _, hmember⟩ := List.mem_flatMap.mp hroute
  rw [← hsame, ← hpublic, ← hsameEntry]
  exact accountRoutes_drives hmember

end

section
open Pooler
variable {E : Type} [DecidableEq E] {models : List (Model CapabilitiesMessage E)} {config : Config}
  {componentName : Str}

omit [DecidableEq E] in
/-- A model of a pooler as it is sent; `json` is the JSON of an extension. -/
def pooled (json : E → Value) (m : Model CapabilitiesMessage E) : ModelMessage where
  id := m.id
  displayName := m.displayName
  capabilities := m.capabilities
  contextWindowTokens := some m.contextWindowTokens
  maxOutputTokens := some m.maxOutputTokens
  extensions := m.extensions.map json
  inferenceFormat := m.inferenceFormat

/-- Where a pool comes from. -/
structure Pools (models : List (Model CapabilitiesMessage E))
    (pool : ComposedPool CapabilitiesMessage E) : Prop where
  stands : Stands pool
  members : ∀ member ∈ pool.members, member ∈ models
  id : (splitPublicModelId pool.virtualModel.id).isSome = true

theorem isSome_outputModelId {name id : Str} (h : outputModelId componentName name = .ok id) :
    (splitPublicModelId id).isSome = true := by
  unfold outputModelId at h
  dsimp only at h
  split_ifs at h with hvalid
  cases h
  exact (Bool.and_eq_true_iff.mp hvalid).2

theorem pools_of_composePool {name outputId : Str} {members : List (Model CapabilitiesMessage E)}
    {pool : ComposedPool CapabilitiesMessage E} (hid : outputModelId componentName name = .ok outputId)
    (hpool : composePool outputId members = .ok pool)
    (hmembers : ∀ member ∈ members, member ∈ models) : Pools models pool := by
  obtain ⟨hvirtual, hsame, _⟩ := composePool_eq_ok hpool
  refine ⟨stands_of_composePool hpool, ?_, ?_⟩
  · rw [hsame]
    exact hmembers
  · rw [hvirtual]
    exact isSome_outputModelId hid

theorem composeCatalog_pools {resolved : Composed CapabilitiesMessage E}
    (h : composeCatalog models config componentName = .ok resolved) :
    resolved.models = models ++ resolved.pools.map ComposedPool.virtualModel ∧
      ∀ pool ∈ resolved.pools, Pools models pool := by
  obtain ⟨parsed, hparsed, h⟩ := bind_eq_ok.mp h
  obtain ⟨index, hindex, h⟩ := bind_eq_ok.mp h
  have hindexes := indexes_of_indexModels hindex
  cases parsed with
  | models ids outputModel =>
    obtain ⟨pools, hpools, h⟩ := bind_eq_ok.mp h
    cases h
    refine ⟨rfl, ?_⟩
    unfold exactModelPools at hpools
    obtain ⟨outputId, hid, hpools⟩ := bind_eq_ok.mp hpools
    dsimp only at hpools
    split_ifs at hpools
    · cases hpools
    · obtain ⟨members, hmembers, hpools⟩ := bind_eq_ok.mp hpools
      obtain ⟨pool, hpool, hpools⟩ := bind_eq_ok.mp hpools
      cases hpools
      rw [List.forall_mem_singleton]
      exact pools_of_composePool hid hpool (exactMembers_subset hindexes hmembers)
  | providers providers =>
    obtain ⟨pools, hpools, h⟩ := bind_eq_ok.mp h
    cases h
    refine ⟨rfl, ?_⟩
    have hvalid := (validatedConfig_eq_ok.mp hparsed).1
    obtain ⟨names, _, _, hnamed⟩ := providerWidePools_eq_ok hindexes hvalid.2.1 hpools
    intro pool hpool
    obtain ⟨name, _, hname⟩ := (mem_of_forall₂ hnamed).1 pool hpool
    exact pools_of_composePool hname.id hname.pool (sharedMembers_subset hindexes hvalid.2.1 name)

omit [DecidableEq E] in
/-- A virtual model can drive the engine if its members can. -/
theorem Pools.drives {json : E → Value} {pool : ComposedPool CapabilitiesMessage E}
    (h : Pools models pool) (hmodels : ∀ m ∈ models, Drives (pooled json m)) :
    Drives (pooled json pool.virtualModel) := by
  obtain ⟨first, hfirst, hcontext⟩ := h.stands.contextWindowReached
  obtain ⟨second, hsecond, houtput⟩ := h.stands.maxOutputReached
  have hdrives := hmodels first (h.members first hfirst)
  have hdrives' := hmodels second (h.members second hsecond)
  obtain ⟨hformat, hcapabilities, hextensions⟩ := h.stands.same first hfirst
  refine ⟨h.id, ?_, ?_, ?_, ?_, ?_⟩
  · have hmember := hdrives.inferenceFormat
    dsimp only [pooled] at hmember ⊢
    rwa [← hformat]
  · have hmember := hdrives.capabilities
    dsimp only [pooled] at hmember ⊢
    rwa [← hcapabilities]
  · have hmember := hdrives.extensions
    dsimp only [pooled] at hmember ⊢
    rwa [← hextensions]
  · have hmember := hdrives.contextWindow
    dsimp only [pooled] at hmember ⊢
    rwa [← hcontext]
  · have hmember := hdrives'.maxOutput
    dsimp only [pooled] at hmember ⊢
    rwa [← houtput]

theorem composeCatalog_drives {json : E → Value} {resolved : Composed CapabilitiesMessage E}
    (h : composeCatalog models config componentName = .ok resolved)
    (hmodels : ∀ m ∈ models, Drives (pooled json m)) :
    ∀ m ∈ resolved.models, Drives (pooled json m) := by
  obtain ⟨hlisted, hpools⟩ := composeCatalog_pools h
  rw [hlisted]
  intro m hm
  rcases List.mem_append.mp hm with hupstream | hvirtual
  · exact hmodels m hupstream
  · obtain ⟨pool, hpool, hsame⟩ := List.mem_map.mp hvirtual
    rw [← hsame]
    exact (hpools pool hpool).drives hmodels

/-- Poolers one after the other, each with its configuration and its name. -/
def poolAll (models : List (Model CapabilitiesMessage E)) :
    List (Config × Str) → Except Pooler.Rejection (List (Model CapabilitiesMessage E))
  | [] => .ok models
  | (config, componentName) :: later => do
    let resolved ← composeCatalog models config componentName
    poolAll resolved.models later

theorem poolAll_drives {json : E → Value} {poolers : List (Config × Str)}
    {offered : List (Model CapabilitiesMessage E)}
    (h : poolAll models poolers = .ok offered) (hmodels : ∀ m ∈ models, Drives (pooled json m)) :
    ∀ m ∈ offered, Drives (pooled json m) := by
  induction poolers generalizing models with
  | nil =>
    cases h
    exact hmodels
  | cons pooler later ih =>
    obtain ⟨config, componentName⟩ := pooler
    obtain ⟨resolved, hresolved, h⟩ := bind_eq_ok.mp h
    exact ih h (composeCatalog_drives hresolved hmodels)

omit [DecidableEq E] in
/-- A model of the gateway as a pooler receives it; the gateway publishes no extensions. -/
def upstream (m : Gateway.Accounts.PublicModel) : Model CapabilitiesMessage E where
  id := m.id
  displayName := m.displayName
  capabilities := (published m).capabilities
  extensions := []
  inferenceFormat := m.inferenceFormat
  contextWindowTokens := m.contextWindowTokens
  maxOutputTokens := m.maxOutputTokens

omit [DecidableEq E] in
theorem pooled_upstream {json : E → Value} {m : Gateway.Accounts.PublicModel}
    (h : Drives (published m)) : pooled json (upstream m) = published m := by
  have hextensions := h.extensions
  unfold published at hextensions ⊢
  dsimp only at hextensions
  unfold pooled upstream published
  dsimp only
  rw [hextensions]
  rfl

variable {localeLe : Str → Str → Bool} {parseUrl : Str → Option Gateway.Accounts.Url}
  {getApiProvider : Str → Option (Option Gateway.Accounts.ApiProvider)}
  {providers : List Gateway.Accounts.PiProvider}
  {credentials custom : Gateway.Accounts.Document} {catalogue : Gateway.Accounts.Catalogue}

/-- Whatever accounts the gateway has and whatever poolers stand behind it, a team passes the host's
check of its models exactly if every agent asks for a model that the last of them lists. -/
theorem provider_system_drives {json : E → Value} {poolers : List (Config × Str)}
    {offered : List (Model CapabilitiesMessage E)} (team : Team)
    (hbuilt : Gateway.Accounts.buildCatalogue localeLe parseUrl getApiProvider providers
      credentials custom = .ok catalogue)
    (hpooled : poolAll (catalogue.models.map upstream) poolers = .ok offered) :
    validatePiTeamModels team (listModels (responseJson (offered.map (pooled json)))) = .ok () ↔
      ∀ agent ∈ team.agents, agent.model.map Python.codePoint ∈ offered.map fun m =>
        fromUtf16 m.id := by
  have hgateway : ∀ m ∈ catalogue.models.map upstream, Drives (pooled json m) := by
    intro m hm
    obtain ⟨listed, hlisted, hsame⟩ := List.mem_map.mp hm
    have hdrives := buildCatalogue_drives hbuilt _ (List.mem_map_of_mem hlisted)
    rw [← hsame, pooled_upstream hdrives]
    exact hdrives
  have hoffered : ∀ m ∈ offered.map (pooled json), Drives m :=
    List.forall_mem_map.mpr (poolAll_drives hpooled hgateway)
  rw [validatePiTeamModels_eq_ok hoffered, List.map_map]
  rfl

end

def demoKey : Json :=
  .obj [(lit "provider", .str (lit "acme")), (lit "type", .str (lit "api_key")),
    (lit "key", .str (lit "k"))]

/-- Two accounts of one provider. -/
def demoGateway : Except Gateway.Accounts.Failure Gateway.Accounts.Catalogue :=
  Gateway.Accounts.buildCatalogue (fun _ _ => true)
    (fun url => some ⟨lit "http:", [], [], [], [], url⟩)
    (fun api => some (some ⟨api, true, true⟩)) [Gateway.Credentials.demoProvider]
    ⟨[(lit "home", demoKey), (lit "work", demoKey)], by decide⟩ ⟨[], List.nodup_nil⟩

/-- A pooler of both. -/
def demoPoolers : List (Pooler.Config × Str) :=
  [(⟨some [lit "home", lit "work"], none, none⟩, lit "pool")]

def demoPooled (catalogue : Gateway.Accounts.Catalogue) :
    Except Pooler.Rejection (List (Pooler.Model CapabilitiesMessage Unit)) :=
  poolAll (catalogue.models.map upstream) demoPoolers

/-- The agent asks for the model that the pooler adds. -/
def demoTeam : Team where
  roster := []
  protocol := none
  agents := [⟨"planner".toList, "planner".toList, "pi".toList, "pool/m".toList⟩]

theorem demo_drives : ∃ catalogue offered, demoGateway = .ok catalogue ∧
    demoPooled catalogue = .ok offered ∧
    validatePiTeamModels demoTeam (listModels
      (responseJson (offered.map (pooled fun _ => .number)))) = .ok () := by
  -- Sorting is by well-founded recursion; the order of the demonstration leaves every list as it is.
  have hsort : ∀ models : List Gateway.Accounts.PublicModel, (models.mergeSort fun _ _ => true) =
      models := fun _ =>
    List.mergeSort_of_pairwise (List.pairwise_of_forall fun _ _ => rfl)
  have computed : (demoGateway.toOption.bind fun catalogue => (demoPooled catalogue).toOption).map
      (fun offered => offered.map fun m => m.id) =
        some [lit "home/m", lit "work/m", lit "pool/m"] := by
    unfold demoGateway Gateway.Accounts.buildCatalogue Gateway.Accounts.buildCatalogueFromAccounts
    simp only [hsort]
    decide +kernel
  obtain ⟨offered, hoffered, hids⟩ := Option.map_eq_some_iff.mp computed
  obtain ⟨catalogue, hcatalogue, hpool⟩ := Option.bind_eq_some_iff.mp hoffered
  have hbuilt := toOption_eq_some.mp hcatalogue
  have hpooled := toOption_eq_some.mp hpool
  refine ⟨catalogue, offered, hbuilt, hpooled, (provider_system_drives demoTeam hbuilt hpooled).mpr ?_⟩
  have hmap : (offered.map fun m => fromUtf16 m.id) = (offered.map fun m => m.id).map fromUtf16 := by
    rw [List.map_map]
    rfl
  rw [hmap, hids]
  decide +kernel

end Cyclo.Team.Compatibility
