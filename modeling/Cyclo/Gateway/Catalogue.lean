import Cyclo.Js.Json
import Cyclo.Protocol.Ids
import Mathlib.Data.List.Nodup

/-! The catalogue of the gateway: the models of every stored account, from custom providers and from
the providers that Pi brings along. `new URL` and the collation of `localeCompare` are parameters. -/
namespace Cyclo.Gateway.Accounts
open Js Protocol

/-- Why a document is refused, or an entry left out of the catalogue. -/
inductive Problem where
  | notAnObject
  | invalidRouteName
  | invalidCredential
  | headers
  | invalidModelId
  | invalidModalities
  | invalidCompat
  | noBaseUrl
  | invalidBaseUrl
  | noApi
  | uncloneable
  | repeatedModel
  | discoveryFailed
  | malformedModels
  | filteringFailed
  | malformedFiltered
  | changedIdentity
  | apiLookupFailed
  | noImplementation
  | noContextWindow
  | noOutputLimit
  deriving DecidableEq, Repr

/-- `if (refused) throw` -/
def refuse (refused : Bool) (problem : Problem) : Except Problem Unit :=
  if refused then .error problem else .ok ()

def required {α : Type} (value : Option α) (problem : Problem) : Except Problem α :=
  match value with
  | none => .error problem
  | some value => .ok value

/-- The properties of an object; one that is missing or undefined is not listed. -/
abbrev Properties := List (Str × Json)

/-- The text of a string that is not empty. -/
def text : Option Json → Option Str
  | some (.str s) => if s = [] then none else some s
  | _ => none

/-- `left ?? right`. -/
def nullish (left right : Option Json) : Option Json :=
  match left with
  | none => right
  | some .null => right
  | some value => some value

def objectDocument : Json → Except Problem Properties
  | .obj properties => .ok properties
  | _ => .error .notAnObject

/-- A name that `routeName` accepts. -/
def RouteName := { name : Str // isProviderPrefix name = true }

def routeName : Option Json → Except Problem RouteName
  | some (.str name) =>
    if h : isProviderPrefix name = true then .ok ⟨name, h⟩ else .error .invalidRouteName
  | _ => .error .invalidRouteName

/-- A URL as `new URL` parses it. -/
structure Url where
  protocol : Str
  username : Str
  password : Str
  search : Str
  hash : Str
  href : Str

/-- An account that has a credential. -/
structure Account where
  account : RouteName
  provider : RouteName
  credential : Properties

def validCredential (credential : Properties) : Bool :=
  match credential.lookup (lit "type") with
  | some (.str type) =>
    if type = lit "api_key" then (text (credential.lookup (lit "key"))).isSome
    else type = lit "oauth" && (text (credential.lookup (lit "access"))).isSome &&
      (text (credential.lookup (lit "refresh"))).isSome &&
      match credential.lookup (lit "expires") with
      | some (.num expires) => expires.isFinite && (Number.finite 0).lt expires
      | _ => false
  | _ => false

def isOauth (credential : Properties) : Bool :=
  match credential.lookup (lit "type") with
  | some (.str type) => type = lit "oauth"
  | _ => false

def credentialAccount (name : Str) (raw : Json) : Except Problem Account := do
  let account ← routeName (some (.str name))
  let credential ← objectDocument raw
  refuse (!validCredential credential) .invalidCredential
  let provider ← routeName (nullish (credential.lookup (lit "provider")) (some (.str name)))
  return { account := account, provider := provider, credential := credential }

/-- `credentialAccountsDocument`, of the properties of the document. -/
def credentialAccounts (document : Properties) : Except Problem (List Account) :=
  document.mapM fun entry => credentialAccount entry.1 entry.2

/-- A model as it is listed. What a provider of Pi lists need not be JSON: it may be beyond
`structuredClone`. -/
structure Raw where
  value : Json
  cloneable : Bool := true

structure Defaults where
  api : Option Json
  baseUrl : Option Json

/-- An effective model: what `effectiveModel` sets, and all other properties. -/
structure Model where
  id : Str
  provider : Str
  api : Str
  baseUrl : Str
  input : List Str
  metadata : Properties

section
variable (parseUrl : Str → Option Url)

def providerUrl (value : Option Json) : Except Problem Str :=
  match text value with
  | none => .error .noBaseUrl
  | some url =>
    match parseUrl url with
    | none => .error .invalidBaseUrl
    | some parsed =>
      if parsed.protocol ≠ lit "http:" ∧ parsed.protocol ≠ lit "https:" then .error .invalidBaseUrl
      else if parsed.username ≠ [] ∨ parsed.password ≠ [] ∨ parsed.search ≠ [] ∨ parsed.hash ≠ []
      then .error .invalidBaseUrl
      else .ok parsed.href

/-- The modalities of an `input` that lists texts and images only. -/
def modalities : List Json → Option (List Str)
  | [] => some []
  | .str modality :: rest =>
    if modality = lit "text" ∨ modality = lit "image" then (modalities rest).map (modality :: ·)
    else none
  | _ :: _ => none

def modelId : Option Json → Except Problem Str
  | some (.str id) => if isLocalModelId id then .ok id else .error .invalidModelId
  | _ => .error .invalidModelId

def modelInput : Option Json → Except Problem (List Str)
  | some (.arr items) =>
    match modalities items with
    | some input => .ok input
    | none => .error .invalidModalities
  | _ => .error .invalidModalities

def effectiveModel (provider : Str) (raw : Raw) (defaults : Defaults) (custom : Bool) :
    Except Problem Model := do
  let model ← objectDocument raw.value
  refuse (custom && (model.lookup (lit "headers")).isSome) .headers
  let id ← modelId (model.lookup (lit "id"))
  let input ← modelInput (model.lookup (lit "input"))
  refuse (!(model.lookup (lit "compat")).all Json.plainObject) .invalidCompat
  let baseUrl ← providerUrl parseUrl (nullish (model.lookup (lit "baseUrl")) defaults.baseUrl)
  let api ← required (text (nullish (model.lookup (lit "api")) defaults.api)) .noApi
  refuse (!raw.cloneable) .uncloneable
  return {
    id := id
    provider := provider
    api := api
    baseUrl := baseUrl
    input := input
    metadata := model }

structure Diagnostic where
  account : Str
  model : Option Str
  problem : Problem

/-- The name a diagnostic gives of the model. -/
def Raw.name (raw : Raw) : Option Str := text (raw.value.field (lit "id"))

/-- The models of the list that are valid, the first of each identifier, and what becomes of the
others. `ids` are the identifiers before. -/
def effectiveModels (account provider : Str) (defaults : Defaults) (custom : Bool) :
    List Raw → List Str → List Model × List Diagnostic
  | [], _ => ([], [])
  | raw :: rest, ids =>
    match effectiveModel parseUrl provider raw defaults custom with
    | .error problem =>
      let (models, diagnostics) := effectiveModels account provider defaults custom rest ids
      (models, ⟨account, raw.name, problem⟩ :: diagnostics)
    | .ok model =>
      if model.id ∈ ids then
        let (models, diagnostics) := effectiveModels account provider defaults custom rest ids
        (models, ⟨account, some model.id, .repeatedModel⟩ :: diagnostics)
      else
        let (models, diagnostics) :=
          effectiveModels account provider defaults custom rest (model.id :: ids)
        (model :: models, diagnostics)

end

structure Capabilities where
  inputModalities : List ℕ
  outputModalities : List ℕ
  functionTools : Bool
  parallelToolCalls : Bool
  reasoningSummaries : Bool
  temperature : Bool
  topP : Bool
  stopSequences : Bool
  extensionTypes : List Str
  reasoning : Bool

structure PublicModel where
  id : Str
  displayName : Str
  capabilities : Capabilities
  extensions : List Str
  inferenceFormat : Str
  contextWindowTokens : ℕ
  maxOutputTokens : ℕ

/-- `value === true`. -/
def isTrue : Option Json → Bool
  | some (.bool true) => true
  | _ => false

/-- `value === false`. -/
def isFalse : Option Json → Bool
  | some (.bool false) => true
  | _ => false

def tokenLimit (problem : Problem) : Option Json → Except Problem ℕ
  | some (.num value) =>
    if value.isSafeInteger ∧ 0 < value.value then .ok value.value.num.toNat else .error problem
  | _ => .error problem

/-- The identifier under which an account offers a model. -/
def publicId (account model : Str) : Str := account ++ lit "/" ++ model

def publicModel (account : Str) (model : Model) : Except Problem PublicModel := do
  let reasoning := isTrue (model.metadata.lookup (lit "reasoning"))
  let supportsTemperature :=
    (model.metadata.lookup (lit "compat")).bind (Json.field (lit "supportsTemperature"))
  let contextWindow ← tokenLimit .noContextWindow (model.metadata.lookup (lit "contextWindow"))
  let maxTokens ← tokenLimit .noOutputLimit (model.metadata.lookup (lit "maxTokens"))
  return {
    id := publicId account model.id
    displayName := (text (model.metadata.lookup (lit "name"))).getD model.id
    capabilities := {
      inputModalities := if lit "image" ∈ model.input then [1, 2] else [1]
      outputModalities := [1]
      functionTools := true
      parallelToolCalls := true
      reasoningSummaries := false
      temperature := !reasoning && !isFalse supportsTemperature
      topP := false
      stopSequences := false
      extensionTypes := []
      reasoning := reasoning }
    extensions := []
    inferenceFormat := lit "pi-ai@0.84.0"
    contextWindowTokens := contextWindow
    maxOutputTokens := maxTokens }

/-- How a call of a provider's code ends, when an array is wanted. -/
inductive Listing where
  | throws
  | malformed
  | models (models : List Raw)

/-- A provider of Pi; nothing where a property has not the type it should have. -/
structure PiProvider where
  id : Option Str
  auth : Bool
  baseUrl : Option Json
  getModels : Option Listing
  filterModels : Option (List Model → Properties → Listing)
  streamSimple : Bool

structure CustomProvider where
  api : Option Str
  baseUrl : Option Str
  models : List Json

structure ApiProvider where
  api : Str
  stream : Bool
  streamSimple : Bool

def customProvider (parseUrl : Str → Option Url) (name : Str) (raw : Json) :
    Except Problem CustomProvider := do
  let _ ← routeName (some (.str name))
  let provider ← objectDocument raw
  match provider.lookup (lit "models") with
  | some (.arr models) =>
    let api := provider.lookup (lit "api")
    refuse (api.isSome && (text api).isNone) .noApi
    match provider.lookup (lit "baseUrl") with
    | none => return { api := text api, baseUrl := none, models := models }
    | some url =>
      let baseUrl ← providerUrl parseUrl (some url)
      return { api := text api, baseUrl := some baseUrl, models := models }
  | _ => throw .malformedModels

/-- `customProviders`, of the `providers` of the document. -/
def customProviders (parseUrl : Str → Option Url) (providers : Properties) :
    Except Problem (List (Str × CustomProvider)) :=
  providers.mapM fun entry => (customProvider parseUrl entry.1 entry.2).map (entry.1, ·)

/-- `validatePiProviders`: the providers under their identifiers, if all are well formed. -/
def validatePiProviders : List PiProvider → List (Str × PiProvider) →
    Option (List (Str × PiProvider))
  | [], builtins => some builtins
  | provider :: rest, builtins =>
    match provider.id, provider.getModels with
    | some id, some _ =>
      if isProviderPrefix id && (builtins.lookup id).isNone && provider.auth &&
          provider.streamSimple then
        validatePiProviders rest (builtins ++ [(id, provider)])
      else none
    | _, _ => none

/-- Where the models of accounts come from. -/
structure Sources where
  custom : List (Str × CustomProvider)
  builtins : List (Str × PiProvider)
  parseUrl : Str → Option Url
  /-- Nothing where the lookup throws, or finds no provider of the interface. -/
  getApiProvider : Str → Option (Option ApiProvider)

structure Route where
  account : Str
  provider : Str
  api : Str
  baseUrl : Str
  publicModel : PublicModel
  rawModel : Model
  apiProvider : ApiProvider

structure Catalogue where
  models : List PublicModel
  routes : List (Str × Route)
  diagnostics : List Diagnostic

/-- Why no catalogue is built. -/
inductive Failure where
  | invalidDocument (problem : Problem)
  | invalidRegistry
  | unknownProvider (account provider : Str)
  | duplicateModel (id : Str)

def exposedApis : List Str :=
  [lit "anthropic-messages", lit "openai-codex-responses", lit "openai-responses"]

section
variable (sources : Sources)

/-- The raw models of a provider and the defaults of their properties: of the custom provider, if it
is one. -/
def rawModels (provider : Str) : Option (Listing × Defaults × Bool) :=
  match sources.custom.lookup provider with
  | some custom =>
    some (.models (custom.models.map fun value => { value := value }),
      { api := custom.api.map .str, baseUrl := custom.baseUrl.map .str }, true)
  | none =>
    match sources.builtins.lookup provider with
    | some builtin =>
      some (builtin.getModels.getD .malformed, { api := none, baseUrl := builtin.baseUrl }, false)
    | none => none

/-- The candidates of an account after the provider's own filter, nothing if the account has to be
passed over. -/
def filtered (a : Account) (defaults : Defaults) (candidates : List Model) :
    Option (List Model) × List Diagnostic :=
  match (sources.builtins.lookup a.provider.1).bind PiProvider.filterModels with
  | none => (some candidates, [])
  | some filterModels =>
    if !isOauth a.credential then (some candidates, [])
    else
      match filterModels candidates a.credential with
      | .throws => (none, [⟨a.account.1, none, .filteringFailed⟩])
      | .malformed => (none, [⟨a.account.1, none, .malformedFiltered⟩])
      | .models modified =>
        let (kept, diagnostics) := effectiveModels sources.parseUrl a.account.1 a.provider.1
          defaults false modified []
        let originals := candidates.map fun model => (model.id, model.api)
        match kept.find? fun model => originals.lookup model.id ≠ some model.api with
        | some changed =>
          (none, diagnostics ++ [⟨a.account.1, some changed.id, .changedIdentity⟩])
        | none => (some kept, diagnostics)

/-- One round of the last loop: nothing for an API that is not exposed. -/
def offer (a : Account) (model : Model) : Option (Except Problem Route) :=
  if model.api ∉ exposedApis then none
  else
    match sources.getApiProvider model.api with
    | none => some (.error .apiLookupFailed)
    | some none => some (.error .noImplementation)
    | some (some apiProvider) =>
      if apiProvider.api ≠ model.api ∨ !apiProvider.stream ∨ !apiProvider.streamSimple then
        some (.error .noImplementation)
      else some ((publicModel a.account.1 model).map fun published => {
        account := a.account.1
        provider := a.provider.1
        api := model.api
        baseUrl := model.baseUrl
        publicModel := published
        rawModel := model
        apiProvider := apiProvider })

def addModels (a : Account) : List Model → Catalogue → Except Failure Catalogue
  | [], catalogue => .ok catalogue
  | model :: rest, catalogue =>
    match offer sources a model with
    | none => addModels a rest catalogue
    | some (.error problem) =>
      addModels a rest { catalogue with
        diagnostics := catalogue.diagnostics ++ [⟨a.account.1, some model.id, problem⟩] }
    | some (.ok route) =>
      let id := route.publicModel.id
      if (catalogue.routes.lookup id).isSome then .error (.duplicateModel id)
      else addModels a rest { catalogue with
        models := catalogue.models ++ [route.publicModel]
        routes := catalogue.routes ++ [(id, route)] }

def addAccount (a : Account) (catalogue : Catalogue) : Except Failure Catalogue :=
  match rawModels sources a.provider.1 with
  | none => .error (.unknownProvider a.account.1 a.provider.1)
  | some (.throws, _, _) => .ok { catalogue with
      diagnostics := catalogue.diagnostics ++ [⟨a.account.1, none, .discoveryFailed⟩] }
  | some (.malformed, _, _) => .ok { catalogue with
      diagnostics := catalogue.diagnostics ++ [⟨a.account.1, none, .malformedModels⟩] }
  | some (.models raw, defaults, custom) =>
    let (candidates, rejected) := effectiveModels sources.parseUrl a.account.1 a.provider.1
      defaults custom raw []
    let (models, diagnostics) := filtered sources a defaults candidates
    addModels sources a (models.getD []) { catalogue with
      diagnostics := catalogue.diagnostics ++ rejected ++ diagnostics }

def addAccounts : List Account → Catalogue → Except Failure Catalogue
  | [], catalogue => .ok catalogue
  | a :: rest, catalogue =>
    match addAccount sources a catalogue with
    | .error failure => .error failure
    | .ok catalogue => addAccounts rest catalogue

end

/-- `buildCatalogueFromAccounts`. -/
def buildCatalogueFromAccounts (localeLe : Str → Str → Bool) (parseUrl : Str → Option Url)
    (getApiProvider : Str → Option (Option ApiProvider)) (providers : List PiProvider)
    (custom : List (Str × CustomProvider)) (accounts : List Account) :
    Except Failure Catalogue :=
  match if providers.isEmpty then none else validatePiProviders providers [] with
  | none => .error .invalidRegistry
  | some builtins =>
    let sources := {
      custom := custom
      builtins := builtins
      parseUrl := parseUrl
      getApiProvider := getApiProvider }
    (addAccounts sources accounts ⟨[], [], []⟩).map fun catalogue =>
      { catalogue with
        models := catalogue.models.mergeSort fun left right => localeLe left.id right.id }

/-- A JSON object, whose properties have distinct names. -/
structure Document where
  properties : Properties
  distinct : (properties.map Prod.fst).Nodup

/-- `buildCatalogue` of the documents read, and `buildCatalogueForCredentials`. -/
def buildCatalogue (localeLe : Str → Str → Bool) (parseUrl : Str → Option Url)
    (getApiProvider : Str → Option (Option ApiProvider)) (providers : List PiProvider)
    (credentials custom : Document) : Except Failure Catalogue := do
  let accounts ← (credentialAccounts credentials.properties).mapError .invalidDocument
  let custom ← (customProviders parseUrl custom.properties).mapError .invalidDocument
  buildCatalogueFromAccounts localeLe parseUrl getApiProvider providers custom accounts

end Cyclo.Gateway.Accounts
