import Cyclo.Python.Text
import Mathlib.Data.List.Lex

/-! The composition handed to DComp: components, their endpoints and mounts, and the links between
them. -/
namespace Cyclo.Dcomp
open Python

/-- Why a composition is refused. -/
inductive Rejection where
  | invalidName (label value : String)
  | invalidService (value : String)
  | unrepresentable (label value : String)
  | missingBindSource (source : PurePath)
  | bindSourceNotCanonical (source : PurePath)
  | invalidContainerPath (value : String)
  | invalidProtocol (value : String)
  | invalidHostPort
  | invalidContainerPort
  | duplicateInputs (component : String)
  | duplicateOutputs (component : String)
  | overlappingTargets (component : String) (left right : PurePath)
  | portWithoutEgress (component : String)
  | noComponents
  | duplicateComponent (component : String)
  | unknownComponent (consumer provider : String)
  | unknownEndpoint (input output : String)
  | serviceMismatch (required provided : String)
  | linkedMoreThanOnce (consumer input : String)
  | unlinkedInputs (missing : List (String × String))
  deriving DecidableEq

def isLower (c : Char) : Bool := 'a' ≤ c && c ≤ 'z'

def isDigit (c : Char) : Bool := '0' ≤ c && c ≤ '9'

def isWordStart (c : Char) : Bool := isLower c || 'A' ≤ c && c ≤ 'Z' || c = '_'

/-- `^[a-z][a-z0-9-]{0,62}$` -/
def matchesName (value : String) : Bool :=
  match value.toList with
  | [] => false
  | c :: rest => isLower c && rest.all (fun d => isLower d || isDigit d || d = '-') &&
      rest.length ≤ 62

def matchesIdentifier : List Char → Bool
  | [] => false
  | c :: rest => isWordStart c && rest.all fun d => isWordStart d || isDigit d

/-- Two or more identifiers with dots between them. -/
def matchesService (value : String) : Bool :=
  let segments := value.toList.splitOn '.'
  2 ≤ segments.length && segments.all matchesIdentifier

/-- `if not accepted: raise` -/
def require (accepted : Prop) [Decidable accepted] (reason : Rejection) : Except Rejection Unit :=
  if accepted then pure () else throw reason

def checkName (value label : String) : Except Rejection Unit :=
  require (matchesName value) (.invalidName label value)

def checkService (value : String) : Except Rejection Unit :=
  require (matchesService value) (.invalidService value)

def isToken (value : String) : Bool :=
  value ≠ "" && value.toList.all fun c =>
    c ≠ '#' && !isSpace c && 0x20 ≤ c.toNat && c.toNat ≠ 0x7f

def token (value label : String) : Except Rejection String :=
  if isToken value then pure value else throw (.unrepresentable label value)

structure Endpoint where
  service : String
  name : String
  deriving DecidableEq

structure Bind where
  source : PurePath
  target : String
  readOnly : Bool
  deriving DecidableEq

structure Volume where
  name : String
  target : String
  readOnly : Bool
  deriving DecidableEq

structure PublishedPort where
  hostIp : String
  hostPort : ℤ
  containerPort : ℤ
  protocol : String
  deriving DecidableEq

structure Component where
  name : String
  image : String
  inputs : List Endpoint := []
  outputs : List Endpoint := []
  binds : List Bind := []
  volumes : List Volume := []
  arguments : List String := []
  ports : List PublishedPort := []
  egress : Bool := false
  deriving DecidableEq

structure Link where
  consumer : String
  input : String
  provider : String
  output : String
  deriving DecidableEq

structure System where
  name : String
  components : List Component
  links : List Link
  deriving DecidableEq

/-- The paths of the host: `expanduser`, and `resolve(strict=True)`, which may find nothing. -/
structure HostPaths where
  expandUser : PurePath → PurePath
  resolve : PurePath → Option PurePath

def Endpoint.validate (endpoint : Endpoint) : Except Rejection Unit := do
  checkService endpoint.service
  checkName endpoint.name "endpoint"

def checkContainerPath (value : String) : Except Rejection Unit := do
  let _ ← token value "container path"
  let path := PurePath.ofText value
  require (path.isAbsolute ∧ ".." ∉ path.parts ∧ value ≠ "/") (.invalidContainerPath value)

def Bind.validate (host : HostPaths) (bind : Bind) : Except Rejection Unit :=
  let source := host.expandUser bind.source
  match host.resolve source with
  | none => throw (.missingBindSource source)
  | some canonical => do
    require (canonical = source) (.bindSourceNotCanonical source)
    checkContainerPath bind.target

def Volume.validate (volume : Volume) : Except Rejection Unit := do
  checkName volume.name "volume"
  checkContainerPath volume.target

def PublishedPort.validate (port : PublishedPort) : Except Rejection Unit := do
  require (port.protocol ∈ ["tcp", "udp"]) (.invalidProtocol port.protocol)
  let _ ← token port.hostIp "published host address"
  require (0 ≤ port.hostPort ∧ port.hostPort ≤ 65535) .invalidHostPort
  require (1 ≤ port.containerPort ∧ port.containerPort ≤ 65535) .invalidContainerPort

def overlap (left right : PurePath) : Bool :=
  left = right || left.isParentOf right || right.isParentOf left

def checkTargets (component : String) : List PurePath → Except Rejection Unit
  | [] => pure ()
  | left :: targets =>
    match targets.find? (overlap left) with
    | some right => throw (.overlappingTargets component left right)
    | none => checkTargets component targets

def Component.validate (host : HostPaths) (component : Component) : Except Rejection Unit := do
  checkName component.name "component"
  let _ ← token component.image "Docker image"
  (component.inputs ++ component.outputs).forM Endpoint.validate
  require (component.inputs.map Endpoint.name).Nodup (.duplicateInputs component.name)
  require (component.outputs.map Endpoint.name).Nodup (.duplicateOutputs component.name)
  component.binds.forM (Bind.validate host)
  component.volumes.forM Volume.validate
  checkTargets component.name ((component.binds.map Bind.target ++
    component.volumes.map Volume.target).map PurePath.ofText)
  component.arguments.forM fun argument => do
    let _ ← token argument "component argument"
  component.ports.forM PublishedPort.validate
  require (component.ports = [] ∨ component.egress) (.portWithoutEgress component.name)

/-- The loop over the components, with the names before them. -/
def checkComponents (host : HostPaths) : List String → List Component → Except Rejection Unit
  | _, [] => pure ()
  | names, component :: components => do
    component.validate host
    require (component.name ∉ names) (.duplicateComponent component.name)
    checkComponents host (component.name :: names) components

def Link.validateNames (link : Link) : Except Rejection Unit := do
  checkName link.consumer "consumer"
  checkName link.input "input"
  checkName link.provider "provider"
  checkName link.output "output"

/-- The loop over the links, with the inputs linked before them. -/
def checkLinks (components : List Component) :
    List (String × String) → List Link → Except Rejection (List (String × String))
  | linked, [] => pure linked
  | linked, link :: links => do
    link.validateNames
    match components.find? (·.name = link.consumer), components.find? (·.name = link.provider) with
    | some consumer, some provider =>
      match consumer.inputs.find? (·.name = link.input),
          provider.outputs.find? (·.name = link.output) with
      | some input, some output => do
        require (input.service = output.service) (.serviceMismatch input.service output.service)
        require ((link.consumer, link.input) ∉ linked)
          (.linkedMoreThanOnce link.consumer link.input)
        checkLinks components ((link.consumer, link.input) :: linked) links
      | _, _ => throw (.unknownEndpoint link.input link.output)
    | _, _ => throw (.unknownComponent link.consumer link.provider)

def System.validate (host : HostPaths) (system : System) : Except Rejection Unit := do
  checkName system.name "system"
  require (system.components ≠ []) .noComponents
  checkComponents host [] system.components
  let linked ← checkLinks system.components [] system.links
  let expected := system.components.flatMap fun component =>
    component.inputs.map fun endpoint => (component.name, endpoint.name)
  let missing := expected.filter (· ∉ linked)
  require (missing = []) (.unlinkedInputs (sortedBy toLex missing))

def Endpoint.asJson (endpoint : Endpoint) : Json :=
  .dict [("name", .str endpoint.name), ("service", .str endpoint.service)]

def Bind.asJson (bind : Bind) : Json :=
  .dict [("read_only", .bool bind.readOnly), ("source", .str bind.source.text),
    ("target", .str bind.target)]

def Volume.asJson (volume : Volume) : Json :=
  .dict [("name", .str volume.name), ("read_only", .bool volume.readOnly),
    ("target", .str volume.target)]

def PublishedPort.asJson (port : PublishedPort) : Json :=
  .dict [("container_port", .int port.containerPort), ("host_ip", .str port.hostIp),
    ("host_port", .int port.hostPort), ("protocol", .str port.protocol)]

/-- The keys of every object are sorted. -/
def Component.asJson (component : Component) : Json :=
  .dict [("arguments", .list (component.arguments.map .str)),
    ("binds", .list (component.binds.map Bind.asJson)), ("egress", .bool component.egress),
    ("image", .str component.image), ("inputs", .list (component.inputs.map Endpoint.asJson)),
    ("name", .str component.name), ("outputs", .list (component.outputs.map Endpoint.asJson)),
    ("ports", .list (component.ports.map PublishedPort.asJson)),
    ("volumes", .list (component.volumes.map Volume.asJson))]

def Link.asJson (link : Link) : Json :=
  .dict [("consumer", .str link.consumer), ("input", .str link.input),
    ("output", .str link.output), ("provider", .str link.provider)]

def System.asJson (system : System) : Json :=
  .dict [("components", .list (system.components.map Component.asJson)),
    ("links", .list (system.links.map Link.asJson)), ("name", .str system.name)]

/-- The hash of the composition under a `sha256` whose digests are in hexadecimal. -/
def System.digest (sha256 : List UInt8 → String) (system : System) : String :=
  sha256 (encode system.asJson.compact)

theorem require_eq_ok {accepted : Prop} [Decidable accepted] {reason : Rejection} :
    require accepted reason = .ok () ↔ accepted := by
  unfold require
  split_ifs with h
  · exact iff_of_true rfl h
  · exact iff_of_false nofun h

theorem token_eq_ok {value label text : String} :
    token value label = .ok text ↔ isToken value = true ∧ text = value := by
  unfold token
  split_ifs with h
  · constructor
    · intro htext
      cases htext
      exact ⟨h, rfl⟩
    · intro htext
      rw [htext.2]
      rfl
  · exact iff_of_false nofun fun htext => h htext.1

theorem Component.of_validate {host : HostPaths} {component : Component}
    (h : component.validate host = .ok ()) :
    matchesName component.name = true ∧ isToken component.image = true ∧
      ∀ argument ∈ component.arguments, isToken argument = true := by
  obtain ⟨_, hname, h⟩ := bind_eq_ok.mp h
  obtain ⟨image, himage, h⟩ := bind_eq_ok.mp h
  obtain ⟨_, -, h⟩ := bind_eq_ok.mp h
  obtain ⟨_, -, h⟩ := bind_eq_ok.mp h
  obtain ⟨_, -, h⟩ := bind_eq_ok.mp h
  obtain ⟨_, -, h⟩ := bind_eq_ok.mp h
  obtain ⟨_, -, h⟩ := bind_eq_ok.mp h
  obtain ⟨_, -, h⟩ := bind_eq_ok.mp h
  obtain ⟨_, harguments, -⟩ := bind_eq_ok.mp h
  refine ⟨require_eq_ok.mp hname, (token_eq_ok.mp himage).1, fun argument hargument => ?_⟩
  obtain ⟨text, htext, -⟩ := bind_eq_ok.mp (forM_eq_ok.mp harguments argument hargument)
  exact (token_eq_ok.mp htext).1

theorem checkComponents_eq_ok {host : HostPaths} {names : List String}
    {components : List Component} (h : checkComponents host names components = .ok ()) :
    (∀ component ∈ components, component.validate host = .ok () ∧ component.name ∉ names) ∧
      (components.map Component.name).Nodup := by
  induction components generalizing names with
  | nil => exact ⟨List.forall_mem_nil _, List.nodup_nil⟩
  | cons component components ih =>
    obtain ⟨_, hvalid, h⟩ := bind_eq_ok.mp h
    obtain ⟨_, hnew, h⟩ := bind_eq_ok.mp h
    obtain ⟨hrest, hnodup⟩ := ih h
    constructor
    · intro other hother
      rcases List.mem_cons.mp hother with rfl | hother
      · exact ⟨hvalid, require_eq_ok.mp hnew⟩
      · have hnames := (hrest other hother).2
        exact ⟨(hrest other hother).1, fun hmem => hnames (List.mem_cons_of_mem _ hmem)⟩
    · rw [List.map_cons, List.nodup_cons]
      refine ⟨fun hmem => ?_, hnodup⟩
      obtain ⟨other, hother, hname⟩ := List.mem_map.mp hmem
      apply (hrest other hother).2
      rw [hname]
      exact List.mem_cons_self

theorem System.of_validate {host : HostPaths} {system : System}
    (h : system.validate host = .ok ()) :
    (∀ component ∈ system.components, component.validate host = .ok ()) ∧
      (system.components.map Component.name).Nodup := by
  obtain ⟨_, -, h⟩ := bind_eq_ok.mp h
  obtain ⟨_, -, h⟩ := bind_eq_ok.mp h
  obtain ⟨_, hcomponents, -⟩ := bind_eq_ok.mp h
  obtain ⟨hvalid, hnodup⟩ := checkComponents_eq_ok hcomponents
  exact ⟨fun component hmem => (hvalid component hmem).1, hnodup⟩

/-- What the rendered lines take from a valid component without a check of their own. -/
theorem Component.named_of_validate {host : HostPaths} {component : Component}
    (h : component.validate host = .ok ()) :
    (∀ endpoint ∈ component.inputs ++ component.outputs,
      matchesService endpoint.service = true ∧ matchesName endpoint.name = true) ∧
      (∀ volume ∈ component.volumes, matchesName volume.name = true) ∧
      ∀ port ∈ component.ports, port.protocol ∈ ["tcp", "udp"] := by
  obtain ⟨_, -, h⟩ := bind_eq_ok.mp h
  obtain ⟨_, -, h⟩ := bind_eq_ok.mp h
  obtain ⟨_, hendpoints, h⟩ := bind_eq_ok.mp h
  obtain ⟨_, -, h⟩ := bind_eq_ok.mp h
  obtain ⟨_, -, h⟩ := bind_eq_ok.mp h
  obtain ⟨_, -, h⟩ := bind_eq_ok.mp h
  obtain ⟨_, hvolumes, h⟩ := bind_eq_ok.mp h
  obtain ⟨_, -, h⟩ := bind_eq_ok.mp h
  obtain ⟨_, -, h⟩ := bind_eq_ok.mp h
  obtain ⟨_, hports, -⟩ := bind_eq_ok.mp h
  refine ⟨fun endpoint hmem => ?_, fun volume hmem => ?_, fun port hmem => ?_⟩
  · obtain ⟨_, hservice, hname⟩ := bind_eq_ok.mp (forM_eq_ok.mp hendpoints endpoint hmem)
    exact ⟨require_eq_ok.mp hservice, require_eq_ok.mp hname⟩
  · obtain ⟨_, hname, -⟩ := bind_eq_ok.mp (forM_eq_ok.mp hvolumes volume hmem)
    exact require_eq_ok.mp hname
  · obtain ⟨_, hprotocol, -⟩ := bind_eq_ok.mp (forM_eq_ok.mp hports port hmem)
    exact require_eq_ok.mp hprotocol

/-- The four names of a link. -/
def Link.names (link : Link) : List String :=
  [link.consumer, link.input, link.provider, link.output]

theorem Link.names_of_validate {link : Link} (h : link.validateNames = .ok ()) :
    ∀ name ∈ link.names, matchesName name = true := by
  obtain ⟨_, hconsumer, h⟩ := bind_eq_ok.mp h
  obtain ⟨_, hinput, h⟩ := bind_eq_ok.mp h
  obtain ⟨_, hprovider, houtput⟩ := bind_eq_ok.mp h
  simp only [Link.names, List.forall_mem_cons]
  exact ⟨require_eq_ok.mp hconsumer, require_eq_ok.mp hinput, require_eq_ok.mp hprovider,
    require_eq_ok.mp houtput, List.forall_mem_nil _⟩

theorem checkLinks_names {components : List Component} {linked result : List (String × String)}
    {links : List Link} (h : checkLinks components linked links = .ok result) :
    ∀ link ∈ links, ∀ name ∈ link.names, matchesName name = true := by
  induction links generalizing linked with
  | nil => exact List.forall_mem_nil _
  | cons link links ih =>
    obtain ⟨_, hnames, h⟩ := bind_eq_ok.mp h
    refine List.forall_mem_cons.mpr ⟨Link.names_of_validate hnames, ?_⟩
    split at h
    · split at h
      · obtain ⟨_, -, h⟩ := bind_eq_ok.mp h
        obtain ⟨_, -, h⟩ := bind_eq_ok.mp h
        exact ih h
      · cases h
    · cases h

theorem System.named_of_validate {host : HostPaths} {system : System}
    (h : system.validate host = .ok ()) : matchesName system.name = true ∧
      ∀ link ∈ system.links, ∀ name ∈ link.names, matchesName name = true := by
  obtain ⟨_, hname, h⟩ := bind_eq_ok.mp h
  obtain ⟨_, -, h⟩ := bind_eq_ok.mp h
  obtain ⟨_, -, h⟩ := bind_eq_ok.mp h
  obtain ⟨_, hlinks, -⟩ := bind_eq_ok.mp h
  exact ⟨require_eq_ok.mp hname, checkLinks_names hlinks⟩

end Cyclo.Dcomp
