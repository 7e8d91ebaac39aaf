import Cyclo.Runtime.Instances
import Cyclo.HostConf.Accepted
import Cyclo.Dcomp.Wiring

/-! The composition that the controller makes of a host configuration and the running instances. -/
namespace Cyclo.Runtime
open Python HostConf Dcomp

/-- `hashlib.sha256(raw).hexdigest()` -/
structure Sha256 where
  hexdigest : List UInt8 → String
  length_hexdigest : ∀ raw, (hexdigest raw).length = 64
  hexadecimal : ∀ raw, ∀ c ∈ (hexdigest raw).toList, isDigit c = true ∨ 'a' ≤ c ∧ c ≤ 'f'

/-- `[a-z0-9-]` -/
def isNameChar (c : Char) : Bool := isLower c || isDigit c || c = '-'

/-- `re.sub(r"[^a-z0-9-]+", "-", text)`, behind a character that was replaced or not. -/
def dashed (replaced : Bool) : List Char → List Char
  | [] => []
  | c :: rest =>
    if isNameChar c then c :: dashed false rest
    else if replaced then dashed true rest
    else '-' :: dashed true rest

/-- `text[:stop]` -/
def sliceTo {α : Type} (text : List α) (stop : ℤ) : List α :=
  if 0 ≤ stop then text.take stop.toNat else text.take (text.length - stop.natAbs)

/-- `text or "instance"` -/
def orInstance (text : List Char) : List Char := if text = [] then "instance".toList else text

def checkedName (value label : String) : Except Refusal String :=
  if matchesName value then .ok value else .error (.componentName label value)

/-- The readable part of a name, with room for so many characters. -/
def nameStem (room : ℤ) (identifier : List Char) : List Char :=
  let readable := Text.strip (· == '-') (dashed false (identifier.map Char.toLower))
  orInstance ((sliceTo (orInstance readable) room).rdropWhile (· == '-'))

/-- `component_name`. The identifiers of instances are ASCII, so that `lower` is that of Lean. -/
def componentName (sha256 : Sha256) (kind identifier : String) : Except Refusal String := do
  let kind ← checkedName kind "component kind"
  let digest := (sha256.hexdigest (encode identifier)).toList.take 10
  let stem := nameStem (63 - kind.length - digest.length - 2) identifier.toList
  checkedName (kind ++ "-" ++ String.ofList stem ++ "-" ++ String.ofList digest) "component"

def teamComponentName (sha256 : Sha256) (identifier : String) : Except Refusal String :=
  componentName sha256 "team" identifier

/-- A path as `Path.resolve` leaves it: absolute, and without steps upwards. -/
structure Canonical (path : PurePath) : Prop where
  absolute : path.root ≠ ""
  plain : ".." ∉ path.parts

/-- The state store and the host around a composition; the state root was resolved. -/
structure Site where
  surroundings : Surroundings
  canonical : Canonical surroundings.stateRoot
  sha256 : Sha256
  /-- Whether the directories and files of an instance can be prepared. -/
  materializes : StateStore.Record → Bool

variable (site : Site)

/-- `realm_id` of the state root. -/
def Site.system (site : Site) : String :=
  String.ofList ((site.sha256.hexdigest (encode site.surroundings.stateRoot.text)).toList.take 12)

def Site.instanceDir (identifier : String) : PurePath :=
  site.surroundings.stateRoot.join ⟨"", ["instances", identifier]⟩

def Site.queueRoot (identifier : String) : PurePath :=
  (site.instanceDir identifier).join ⟨"", ["agentws-state"]⟩

def Site.tasksDir (identifier : String) : PurePath := (site.queueRoot identifier).join ⟨"", ["tasks"]⟩

def Site.jobsDir (identifier : String) : PurePath := (site.queueRoot identifier).join ⟨"", ["jobs"]⟩

def Site.agentsDir (identifier : String) : PurePath :=
  (site.queueRoot identifier).join ⟨"", ["agents"]⟩

def Site.piRoot (identifier : String) : PurePath := (site.instanceDir identifier).join ⟨"", ["pi"]⟩

/-- The document of `_materialize_pi_settings`, with two spaces of indentation. -/
def piSettings (i : StateStore.Instance) : String :=
  let entry (name value : String) : String := "  " ++ Python.Json.quote name ++ ": " ++ value
  let packages := ["npm:pi-web-access", "npm:pi-lens", "npm:pi-simplify",
    "/opt/cyclo-agent-tools/lib/node_modules/@earendil-works/pi-coding-agent/node_modules/pi-safe-compact",
    "/opt/cyclo/team/pi"].map fun package => "    " ++ Python.Json.quote package
  String.intercalate "\n" ["\x7b", entry "defaultModel" (Python.Json.quote i.piDefaultModel.text) ++
    ",", entry "defaultProvider" (Python.Json.quote i.piDefaultProvider.text) ++ ",",
    entry "defaultThinkingLevel" (Python.Json.quote "xhigh") ++ ",", entry "packages" "[",
    String.intercalate ",\n" packages, "  ]", "\x7d"] ++ "\n"

/-- `InstanceFiles` -/
structure InstanceFiles where
  projectConfig : PurePath
  piSettings : PurePath

/-- The files that `materialize_instance` leaves for an instance. -/
def instanceFiles (record : StateStore.Record) : InstanceFiles where
  projectConfig := (((site.instanceDir record.id).join ⟨"", ["project-config"]⟩).join
    (.ofText record.fields.projectGeneration.text)).join ⟨"", ["project.cyclo"]⟩
  piSettings := (site.instanceDir record.id).join
    ⟨"", ["runtime-config", site.sha256.hexdigest (encode (piSettings record.fields)),
      "pi-settings.json"]⟩

/-- `mount_container_path`, as text -/
def Mount.containerPath (mount : Mount) : String :=
  (if mount.readOnly then "/readonly/" else "/workspace/") ++ mount.name

def providerEndpoint : Endpoint := ⟨providerService, "provider"⟩

def stateBinds (identifier : String) : List Bind :=
  [⟨site.tasksDir identifier, "/agentws/tasks", false⟩,
    ⟨site.jobsDir identifier, "/agentws/jobs", false⟩,
    ⟨site.agentsDir identifier, "/agentws/agents", false⟩]

def teamBinds (record : StateStore.Record) (teamRoot : PurePath) (mounts : List Mount) : List Bind :=
  stateBinds site record.id ++
    [⟨(instanceFiles site record).projectConfig, "/agentws/project.cyclo", true⟩,
      ⟨(instanceFiles site record).piSettings, "/opt/cyclo/pi-settings.json", true⟩,
      ⟨site.piRoot record.id, "/home/cyclo/.pi", false⟩,
      ⟨teamRoot, "/team", !record.fields.teamWrite.truthy⟩] ++
    mounts.map fun mount => ⟨mount.path, mount.containerPath, mount.readOnly⟩

def teamArguments (i : StateStore.Instance) : List String :=
  ["python3", "/usr/local/bin/cyclo-team-runtime", "--roster", "/team/" ++ i.teamRoster.text,
    "--generation", i.generation.text, "--project-generation", i.projectGeneration.text] ++
    (if i.teamProtocol.truthy then ["--team-protocol", "/team/AGENTS.md"] else []) ++
    if i.verbose.truthy then ["--verbose"] else []

def requestedPort (i : StateStore.Instance) : ℤ :=
  match i.requestedPort with
  | .int port => port
  | _ => 0

/-- `make_team_component` -/
def makeTeamComponent (record : StateStore.Record) : Except Refusal Component := do
  let i := record.fields
  demand (i.image.text.startsWith "sha256:" = true) (.mutableImage record.id)
  let mounts ← requireValid i
  demand (site.materializes record = true) (.materializing record.id)
  match site.surroundings.resolveStrict (.ofText i.teamPath.text) with
  | none => throw .raised
  | some teamRoot =>
    demand ((PurePath.ofText i.teamRoster.text).name = i.teamRoster.text) (.roster record.id)
    let name ← teamComponentName site.sha256 record.id
    return {
      name
      image := i.image.text
      inputs := [providerEndpoint]
      binds := teamBinds site record teamRoot mounts
      arguments := teamArguments i
      ports := if i.offline.truthy then [] else [⟨i.agentwsHost.text, requestedPort i, 4137, "tcp"⟩]
      egress := !i.offline.truthy }

/-- The ids of the images of a `HostImages`. -/
structure HostImages where
  gateway : String
  providers : List (String × String)
  components : List (String × String)

/-- A component, and the links of its inputs. -/
structure Part where
  component : Component
  links : List Link

def providerPort : PublishedPort := ⟨"127.0.0.1", 0, 50051, "tcp"⟩

/-- `_gateway_component` -/
def gatewayComponent (image : String) (publishProvider : Bool) : Component where
  name := "gateway"
  image := image
  outputs := [providerEndpoint]
  volumes := [⟨"credentials", "/var/lib/cyclo-gateway", false⟩]
  ports := if publishProvider then [providerPort] else []
  egress := true

def providerPart (host : Host) (images : HostImages) (provider : Provider) : Except Refusal Part :=
  match images.providers.lookup provider.name with
  | none => .error (.missingProviderImage provider.name)
  | some image =>
    let outer := decide (provider.name = host.outerComponent)
    .ok {
      component := {
        name := provider.name
        image
        inputs := provider.contract.inputs
        outputs := provider.contract.outputs
        arguments := provider.arguments
        ports := if outer then [providerPort] else []
        egress := outer }
      links := provider.bindings.map fun binding =>
        ⟨provider.name, binding.input, binding.component, binding.output⟩ }

/-- The link from the input `provider` of a component to the outer component. -/
def outerLink (host : Host) (consumer : String) : Except Refusal Link :=
  match host.outerOutput with
  | .ok output => .ok ⟨consumer, "provider", host.outerComponent, output⟩
  | .error _ => .error (.providerOutput host.outerComponent)

def hostComponentPart (host : Host) (images : HostImages) (configured : HostComponent) :
    Except Refusal Part :=
  match images.components.lookup configured.name with
  | none => .error (.missingComponentImage configured.name)
  | some image => do
    let link ← outerLink host configured.name
    return {
      component := {
        name := configured.name
        image
        inputs := [providerEndpoint]
        ports := [⟨configured.bind, configured.port, 8080, "tcp"⟩]
        egress := true }
      links := [link] }

def teamPart (host : Host) (record : StateStore.Record) : Except Refusal Part := do
  let component ← makeTeamComponent site record
  let link ← outerLink host component.name
  return ⟨component, [link]⟩

/-- The running instances, sorted by their ids. -/
def activeOf (instances : List StateStore.Record) : List StateStore.Record :=
  sortedBy StateStore.Record.id (instances.filter fun record => record.fields.intent.text = "running")

def partsOf (images : HostImages) (active : List StateStore.Record) : Except Refusal (List Part) := do
  let host := site.surroundings.host
  let providers ← host.providers.mapM (providerPart host images)
  let components ← host.components.mapM (hostComponentPart host images)
  let teams ← active.mapM (teamPart site host)
  return ⟨gatewayComponent images.gateway (decide (host.providers = [])), []⟩ :: providers ++
    components ++ teams

/-- `CycloRuntime.system` -/
def system (images : HostImages) (instances : List StateStore.Record) : Except Refusal System := do
  let active := activeOf instances
  validateInstances site.surroundings (active.map StateStore.Record.fields)
  let parts ← partsOf site images active
  return ⟨"cyclo-" ++ site.system, parts.map Part.component, parts.flatMap Part.links⟩

end Cyclo.Runtime
