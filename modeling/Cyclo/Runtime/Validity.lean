import Cyclo.Runtime.Composition

/-! When the composition of an accepted configuration exists, when it is valid, and what it exposes. -/
namespace Cyclo.Runtime
open Python HostConf Dcomp

variable {site : Site} {images : HostImages}

/-- The ids of images are tokens. -/
structure HostImages.Tokens (images : HostImages) : Prop where
  gateway : isToken images.gateway = true
  providers : ∀ name image, images.providers.lookup name = some image → isToken image = true
  components : ∀ name image, images.components.lookup name = some image → isToken image = true

variable {paths : HostPaths}

theorem providerEndpoint_valid : providerEndpoint.validate = .ok () := endpoint_valid rfl rfl

theorem port_valid {address : String} {port container : ℤ} (haddress : isToken address = true)
    (hport : 0 ≤ port ∧ port ≤ 65535) (hcontainer : 1 ≤ container ∧ container ≤ 65535) :
    (⟨address, port, container, "tcp"⟩ : PublishedPort).validate = .ok () := by
  have hprotocol : "tcp" ∈ ["tcp", "udp"] := List.mem_cons_self
  unfold PublishedPort.validate
  rw [Dcomp.require_eq_ok.mpr hprotocol, ok_bind, token_eq_ok.mpr ⟨haddress, rfl⟩, ok_bind,
    Dcomp.require_eq_ok.mpr hport, ok_bind]
  exact Dcomp.require_eq_ok.mpr hcontainer

theorem providerPort_valid : providerPort.validate = .ok () :=
  port_valid (by decide) (by decide) (by decide)

theorem credentials_valid : (⟨"credentials", "/var/lib/cyclo-gateway", false⟩ : Volume).validate =
    .ok () := by
  have htoken : isToken "/var/lib/cyclo-gateway" = true := by decide
  unfold Volume.validate checkContainerPath checkName
  rw [Dcomp.require_eq_ok.mpr (by decide), ok_bind, token_eq_ok.mpr ⟨htoken, rfl⟩, ok_bind]
  exact Dcomp.require_eq_ok.mpr (by decide +kernel)

theorem gatewayComponent_valid {image : String} (himage : isToken image = true) (publish : Bool) :
    (gatewayComponent image publish).Valid paths where
  name := gateway_name
  image := himage
  endpoints := List.forall_mem_singleton.mpr providerEndpoint_valid
  inputs := List.nodup_nil
  outputs := List.nodup_singleton _
  binds := List.forall_mem_nil _
  volumes := List.forall_mem_singleton.mpr credentials_valid
  targets := rfl
  arguments := List.forall_mem_nil _
  ports := by
    intro port hport
    unfold gatewayComponent at hport
    split_ifs at hport
    · rw [List.mem_singleton.mp hport]
      exact providerPort_valid
    · cases hport
  egress := Or.inr rfl

/-- The component of a provider is valid unless an argument has a number sign in it. -/
theorem providerComponent_valid_iff {host : Host} {provider : Provider} {image : String}
    (hsound : host.Sound) (hprovider : provider ∈ host.providers) (himage : isToken image = true) :
    Component.Valid paths ⟨provider.name, image, provider.contract.inputs,
      provider.contract.outputs, [], [],
        provider.arguments, if provider.name = host.outerComponent then [providerPort] else [],
        decide (provider.name = host.outerComponent)⟩ ↔
      ∀ argument ∈ provider.arguments, '#' ∉ argument.toList := by
  obtain ⟨hname, hcontract, hplain⟩ := hsound.providers provider hprovider
  constructor
  · intro h argument hargument
    exact (hplain argument hargument).isToken_iff.mp (h.arguments argument hargument)
  · intro h
    refine ⟨hname, himage, ?_, hcontract.inputs.nodup, hcontract.outputs.nodup, List.forall_mem_nil _,
      List.forall_mem_nil _, rfl, fun argument hargument => ?_, ?_, ?_⟩
    · intro endpoint hendpoint
      rcases List.mem_append.mp hendpoint with hendpoint | hendpoint
      · exact hcontract.inputs.valid endpoint hendpoint
      · exact hcontract.outputs.valid endpoint hendpoint
    · exact (hplain argument hargument).isToken_iff.mpr (h argument hargument)
    · intro port hport
      dsimp only at hport
      split_ifs at hport
      · rw [List.mem_singleton.mp hport]
        exact providerPort_valid
      · cases hport
    · dsimp only
      by_cases houter : provider.name = host.outerComponent
      · exact Or.inr (decide_eq_true houter)
      · exact Or.inl (if_neg houter)

theorem hostComponent_valid {configured : HostComponent} {image : String} (hsound : configured.Sound)
    (himage : isToken image = true) :
    Component.Valid paths ⟨configured.name, image, [providerEndpoint], [], [], [], [],
      [⟨configured.bind, configured.port, 8080, "tcp"⟩], true⟩ where
  name := by
    rw [hsound.name]
    exact openai_name
  image := himage
  endpoints := List.forall_mem_singleton.mpr providerEndpoint_valid
  inputs := List.nodup_singleton _
  outputs := List.nodup_nil
  binds := List.forall_mem_nil _
  volumes := List.forall_mem_nil _
  targets := rfl
  arguments := List.forall_mem_nil _
  ports := List.forall_mem_singleton.mpr 
    (port_valid hsound.bind (by have := hsound.port; omega) (by decide))
  egress := Or.inr rfl

variable {instances : List StateStore.Record} {found : System}

theorem mem_activeOf {record : StateStore.Record} :
    record ∈ activeOf instances ↔ record ∈ instances ∧ record.fields.intent.text = "running" := by
  unfold activeOf
  rw [(sortedBy_perm _ _).mem_iff, List.mem_filter, decide_eq_true_iff]

theorem system_eq_ok (h : system site images instances = .ok found) :
    validateInstances site.surroundings ((activeOf instances).map StateStore.Record.fields) = .ok () ∧
      ∃ parts : Parts site images (activeOf instances), found.name = "cyclo-" ++ site.system ∧
        found.components = parts.all.map Part.component ∧
        found.links = parts.all.flatMap Part.links := by
  unfold system at h
  obtain ⟨_, haccepted, h⟩ := bind_eq_ok.mp h
  obtain ⟨parts, hparts, h⟩ := bind_eq_ok.mp h
  cases h
  obtain ⟨all, rfl⟩ := Parts.of_partsOf hparts
  exact ⟨haccepted, all, rfl, rfl, rfl⟩

def zeros : String := "0000000000000000000000000000000000000000000000000000000000000000"

/-- The last digits of a number with these bytes for digits. -/
def localHash : Sha256 where
  hexdigest raw :=
    let value := raw.foldl (fun n byte => n * 257 + byte.toNat) 0
    String.ofList ((List.range 64).map fun i => Nat.digitChar (value / 16 ^ i % 16))
  length_hexdigest raw := by rw [String.length_ofList, List.length_map, List.length_range]
  hexadecimal raw c hc := by
    have hdigit : ∀ n < 16, isDigit (Nat.digitChar n) = true ∨ 'a' ≤ Nat.digitChar n ∧
        Nat.digitChar n ≤ 'f' := by
      decide
    rw [String.toList_ofList] at hc
    obtain ⟨i, -, rfl⟩ := List.mem_map.mp hc
    exact hdigit _ (Nat.mod_lt _ (by decide))

def localConf : String :=
  "provider local ./p up=gateway.provider -- --model small\ncomponent openai port=9000\n"

def localDescriptor : String :=
  "docker img\ninput cyclo.provider.v1.Provider up\noutput cyclo.provider.v1.Provider provider\n"

def localMachine : Machine where
  cwd := ⟨"/", []⟩
  home _ := none
  openFile path :=
    .regular (utf8 (if path.name = "component.dcomp" then localDescriptor.toList
      else localConf.toList))
  resolveStrict path := some path
  isDirectory _ := true
  componentsRoot := ⟨"/", ["opt"]⟩
  decimal c := if isDigit c then some (c.toNat - 48) else none
  sha256 := localHash.hexdigest

def localHost : Host where
  path := ⟨"/", ["host.conf"]⟩
  providers := [{
    name := "local"
    source := ⟨"/", ["p"]⟩
    context := ⟨"/", ["p"]⟩
    contract := ⟨"img", [⟨providerService, "up"⟩], [⟨providerService, "provider"⟩]⟩
    bindings := [⟨"up", "gateway", "provider"⟩]
    arguments := ["--model", "small"]
    line := 1 }]
  generation := localHash.hexdigest (utf8 localConf.toList)
  components := [⟨"openai", "127.0.0.1", 9000, 2⟩]

theorem localHost_loaded : loadHost localMachine ⟨"/", ["host.conf"]⟩ = .ok localHost := by
  decide +kernel

def localSite : Site where
  surroundings := {
    resolve := some
    resolveStrict := some
    home := fun name => if name = "~" then some ⟨"/", ["home", "cyclo"]⟩ else none
    cwd := ⟨"/", []⟩
    isRoot := false
    uid := 1000
    runtimeDirectory := ""
    endpointSocket := some none
    stateRoot := ⟨"/", ["state"]⟩
    packageRoot := ⟨"/", ["opt", "cyclo"]⟩
    host := localHost
    dcompExecutable := none }
  canonical := ⟨by decide, by decide⟩
  sha256 := localHash
  materializes _ := true

def localImages : HostImages := ⟨"sha256:g", [("local", "sha256:p")], [("openai", "sha256:o")]⟩

def localPaths : HostPaths := ⟨id, some⟩

def offlineInstance : StateStore.Instance where
  id := .str "Alpha"
  teamName := .str "team"
  teamPath := .str "/srv/team"
  generation := .str "g1"
  models := .list [.str "provider/model"]
  image := .str ("sha256:" ++ zeros)
  imageOverride := .str ""
  teamWrite := .bool false
  offline := .bool true
  verbose := .bool false
  agentwsHost := .str "127.0.0.1"
  intent := .str "running"
  requestedPort := .int 0
  teamRoster := .str "roster"
  teamProtocol := .bool true
  piDefaultProvider := .str "provider"
  piDefaultModel := .str "model"
  projectName := .str "project"
  projectFile := .str "/srv/project/project.cyclo"
  projectDescription := .str "A project"
  projectGeneration := .str "p1"
  projectConfig := .str "project project"
  projectMounts := .list [.dict [("name", .str "src"), ("path", .str "/srv/src"), ("mode", .str "rw")]]
  runtimeVersion := .str "1"

def isOk {ε α : Type} : Except ε α → Bool
  | .ok _ => true
  | .error _ => false

theorem eq_ok_of_isOk {ε : Type} {result : Except ε Unit} (h : isOk result = true) :
    result = .ok () := by
  cases result with
  | ok _ => rfl
  | error e => cases h

def offlineRecord : StateStore.Record := ⟨offlineInstance, eq_ok_of_isOk (by decide +kernel)⟩

theorem localImages_tokens : localImages.Tokens where
  gateway := by decide
  providers name image h := by
    rw [localImages, List.lookup_cons] at h
    split at h
    · cases h
      decide
    · cases h
  components name image h := by
    rw [localImages, List.lookup_cons] at h
    split at h
    · cases h
      decide
    · cases h

theorem localSite_accepts :
    validateInstances localSite.surroundings
      ((activeOf [offlineRecord]).map StateStore.Record.fields) = .ok () :=
  eq_ok_of_isOk (by decide +kernel)

theorem localSite_compiles : ∃ found, system localSite localImages [offlineRecord] = .ok found ∧
    (found.components.map Component.name).Nodup := by
  have hcompiles : (system localSite localImages [offlineRecord]).toOption.any
      (fun found => decide (found.components.map Component.name).Nodup) = true := by
    decide +kernel
  cases hsystem : system localSite localImages [offlineRecord] with
  | error e =>
    rw [hsystem] at hcompiles
    cases hcompiles
  | ok found =>
    rw [hsystem] at hcompiles
    exact ⟨found, rfl, of_decide_eq_true hcompiles⟩

/-- There is a composition exactly when the running instances are accepted, every image is there and
every instance can be prepared. -/
theorem system_returns {machine : Machine} {path : PurePath}
    (hhost : loadHost machine path = .ok site.surroundings.host) :
    (∃ found, system site images instances = .ok found) ↔
      validateInstances site.surroundings ((activeOf instances).map StateStore.Record.fields) =
        .ok () ∧ (∀ provider ∈ site.surroundings.host.providers,
          ∃ image, images.providers.lookup provider.name = some image) ∧
        (∀ configured ∈ site.surroundings.host.components,
          ∃ image, images.components.lookup configured.name = some image) ∧
        ∀ record ∈ instances, record.fields.intent.text = "running" →
        site.materializes record = true := by
  have hsound := loadHost_sound hhost
  obtain ⟨output, houter, -⟩ := outer_output hsound
  have hteam : ∀ record, (∃ part, teamPart site site.surroundings.host record = .ok part) ↔
      ∃ component, makeTeamComponent site record = .ok component := by
    intro record
    constructor
    · intro h
      obtain ⟨part, h⟩ := h
      obtain ⟨component, hcomponent, -⟩ := (teamPart_eq_ok houter).mp h
      exact ⟨component, hcomponent⟩
    · intro h
      obtain ⟨component, hcomponent⟩ := h
      exact ⟨_, (teamPart_eq_ok houter).mpr ⟨component, hcomponent, rfl⟩⟩
  constructor
  · intro h
    obtain ⟨found, h⟩ := h
    obtain ⟨haccepted, parts, -⟩ := system_eq_ok h
    refine ⟨haccepted, fun provider hprovider => ?_, fun configured hconfigured => ?_,
      fun record hrecord hrunning => ?_⟩
    · obtain ⟨part, -, hpart⟩ := (mem_of_forall₂ parts.ofProviders).2 provider hprovider
      obtain ⟨image, himage, -⟩ := providerPart_eq_ok.mp hpart
      exact ⟨image, himage⟩
    · obtain ⟨part, -, hpart⟩ := (mem_of_forall₂ parts.ofComponents).2 configured hconfigured
      obtain ⟨image, himage, -⟩ := (hostComponentPart_eq_ok houter).mp hpart
      exact ⟨image, himage⟩
    · obtain ⟨part, -, hpart⟩ := (mem_of_forall₂ parts.ofTeams).2 record
        (mem_activeOf.mpr ⟨hrecord, hrunning⟩)
      exact (makeTeamComponent_returns.mp ((hteam record).mp ⟨part, hpart⟩)).2
  · intro h
    obtain ⟨haccepted, hproviders, hcomponents, hmaterializes⟩ := h
    have hprovided : ∀ provider ∈ site.surroundings.host.providers,
        ∃ part, providerPart site.surroundings.host images provider = .ok part := by
      intro provider hprovider
      obtain ⟨image, himage⟩ := hproviders provider hprovider
      exact ⟨_, providerPart_eq_ok.mpr ⟨image, himage, rfl⟩⟩
    have hconfigured : ∀ configured ∈ site.surroundings.host.components,
        ∃ part, hostComponentPart site.surroundings.host images configured = .ok part := by
      intro configured hmem
      obtain ⟨image, himage⟩ := hcomponents configured hmem
      exact ⟨_, (hostComponentPart_eq_ok houter).mpr ⟨image, himage, rfl⟩⟩
    have hteams : ∀ record ∈ activeOf instances,
        ∃ part, teamPart site site.surroundings.host record = .ok part := by
      intro record hrecord
      obtain ⟨hmem, hrunning⟩ := mem_activeOf.mp hrecord
      have hread : ∃ bound, readInstance site.surroundings record.fields = .ok bound := by
        have hactive := List.mem_map_of_mem (f := StateStore.Record.fields) hrecord
        rcases validateInstances_eq_ok.mp haccepted with hnil | ⟨-, roots, -, hall⟩
        · rw [hnil] at hactive
          cases hactive
        · obtain ⟨bound, hbound, -⟩ := hall _ hactive
          exact ⟨bound, hbound⟩
      exact (hteam record).mpr (makeTeamComponent_returns.mpr
        ⟨hread, hmaterializes record hmem hrunning⟩)
    obtain ⟨providers, hproviders⟩ := mapM_returns.mpr hprovided
    obtain ⟨components, hcomponents⟩ := mapM_returns.mpr hconfigured
    obtain ⟨teams, hteams⟩ := mapM_returns.mpr hteams
    unfold system partsOf
    dsimp only
    rw [haccepted, ok_bind, hproviders, ok_bind, hcomponents, ok_bind, hteams, ok_bind]
    exact ⟨_, rfl⟩

theorem localSite_returns : ∃ found, system localSite localImages [offlineRecord] = .ok found := by
  refine (system_returns localHost_loaded).mpr ⟨localSite_accepts, ?_, ?_, fun _ _ _ => rfl⟩
  · exact List.forall_mem_singleton.mpr ⟨"sha256:p", by decide⟩
  · exact List.forall_mem_singleton.mpr ⟨"sha256:o", by decide⟩

/-- The composition of an accepted configuration is valid exactly when no argument of a provider has
a number sign in it, no two components share a name, and the components of the teams are valid. -/
theorem system_validates {machine : Machine} {path : PurePath}
    (hhost : loadHost machine path = .ok site.surroundings.host) (himages : images.Tokens)
    (h : system site images instances = .ok found) :
    found.validate paths = .ok () ↔
      (∀ provider ∈ site.surroundings.host.providers, ∀ argument ∈ provider.arguments,
        '#' ∉ argument.toList) ∧ (found.components.map Component.name).Nodup ∧
        ∀ record ∈ instances, record.fields.intent.text = "running" → ∀ component,
          makeTeamComponent site record = .ok component → component.validate paths = .ok () := by
  have hsound := loadHost_sound hhost
  obtain ⟨output, houter, -⟩ := outer_output hsound
  obtain ⟨-, parts, hname, hcomponents, hlinks⟩ := system_eq_ok h
  have hne : found.components ≠ [] := by
    rw [hcomponents]
    exact List.cons_ne_nil _ _
  have hvalid : (∀ component ∈ found.components, component.validate paths = .ok ()) ↔
      (∀ provider ∈ site.surroundings.host.providers, ∀ argument ∈ provider.arguments,
        '#' ∉ argument.toList) ∧ ∀ record ∈ instances, record.fields.intent.text = "running" →
        ∀ component,
          makeTeamComponent site record = .ok component → component.validate paths = .ok () := by
    rw [hcomponents]
    simp only [List.forall_mem_map]
    constructor
    · intro hall
      constructor
      · intro provider hprovider
        obtain ⟨part, hpart, hok⟩ := (mem_of_forall₂ parts.ofProviders).2 provider hprovider
        obtain ⟨image, himage, rfl⟩ := providerPart_eq_ok.mp hok
        have hpartValid := hall _ (parts.mem_all.mpr (Or.inr (Or.inl hpart)))
        rw [Component.validate_eq_ok] at hpartValid
        exact (providerComponent_valid_iff hsound hprovider (himages.providers _ _ himage)).mp
          hpartValid
      · intro record hrecord hrunning component hcomponent
        obtain ⟨part, hpart, hok⟩ :=
          (mem_of_forall₂ parts.ofTeams).2 record (mem_activeOf.mpr ⟨hrecord, hrunning⟩)
        obtain ⟨made, hmade, rfl⟩ := (teamPart_eq_ok houter).mp hok
        rw [hcomponent] at hmade
        cases hmade
        exact hall _ (parts.mem_all.mpr (Or.inr (Or.inr (Or.inr hpart))))
    · intro hall part hpart
      rcases parts.cases_of_mem houter hpart with rfl | ⟨provider, hprovider, image, himage, rfl⟩ |
        ⟨configured, hconfigured, image, himage, rfl⟩ | ⟨record, hrecord, component, hok, rfl⟩
      · exact Component.validate_eq_ok.mpr (gatewayComponent_valid himages.gateway _)
      · rw [Component.validate_eq_ok]
        exact (providerComponent_valid_iff hsound hprovider (himages.providers _ _ himage)).mpr
          (hall.1 provider hprovider)
      · exact Component.validate_eq_ok.mpr
          (hostComponent_valid (hsound.components configured hconfigured)
            (himages.components _ _ himage))
      · obtain ⟨hmem, hrunning⟩ := mem_activeOf.mp hrecord
        exact hall.2 record hmem hrunning component hok
  rw [System.validate_eq_ok, hvalid]
  constructor
  · intro h
    obtain ⟨-, -, hparts, hnodup, -⟩ := h
    exact ⟨hparts.1, hnodup, hparts.2⟩
  · intro h
    obtain ⟨harguments, hnodup, hteams⟩ := h
    have hnames : ∀ part ∈ parts.all, matchesName part.component.name = true := by
      intro part hpart
      have hcomponent := hvalid.mpr ⟨harguments, hteams⟩ part.component (by
        rw [hcomponents]
        exact List.mem_map_of_mem hpart)
      exact (Component.validate_eq_ok.mp hcomponent).name
    refine ⟨?_, hne, ⟨harguments, hteams⟩, hnodup, ?_⟩
    · rw [hname]
      exact system_name site
    · rw [hcomponents, hlinks]
      refine wired_of_parts (parts.assembled hsound) ?_ (parts.joins hsound hnames)
      rw [hcomponents, List.map_map] at hnodup
      exact hnodup

theorem localSite_valid : ∃ found, system localSite localImages [offlineRecord] = .ok found ∧
    found.validate localPaths = .ok () := by
  obtain ⟨found, hfound, hnodup⟩ := localSite_compiles
  refine ⟨found, hfound, (system_validates localHost_loaded localImages_tokens hfound).mpr
    ⟨?_, hnodup, ?_⟩⟩
  · exact List.forall_mem_singleton.mpr (by decide)
  · intro record hrecord _ component hcomponent
    have hteam : (makeTeamComponent localSite offlineRecord).toOption.all
        (fun component => isOk (component.validate localPaths)) = true := by
      decide +kernel
    rw [List.mem_singleton.mp hrecord] at hcomponent
    rw [hcomponent] at hteam
    exact eq_ok_of_isOk hteam

/-- A component publishes the port of a provider. -/
def Publishes (component : Component) : Prop := ∃ port ∈ component.ports, port.containerPort = 50051

theorem Parts.outer_part {active : List StateStore.Record} (parts : Parts site images active)
    (hsound : site.surroundings.host.Sound) :
    ∃ part ∈ parts.all, part.component.name = site.surroundings.host.outerComponent ∧
      part.component.ports = [providerPort] := by
  obtain ⟨output, -, -, -, hwhere⟩ := outer_output hsound
  rcases hwhere with ⟨hnone, hname, -⟩ | ⟨provider, hprovider, hname, -⟩
  · refine ⟨gatewayPart site.surroundings.host images, parts.mem_all.mpr (Or.inl rfl), hname.symm, ?_⟩
    unfold gatewayPart gatewayComponent
    rw [decide_eq_true hnone]
    rfl
  · obtain ⟨part, hpart, hok⟩ := (mem_of_forall₂ parts.ofProviders).2 provider hprovider
    obtain ⟨image, -, rfl⟩ := providerPart_eq_ok.mp hok
    exact ⟨_, parts.mem_all.mpr (Or.inr (Or.inl hpart)), hname, if_pos hname⟩

/-- Only the outer component publishes the port of a provider. -/
theorem Parts.publishes {active : List StateStore.Record} (parts : Parts site images active)
    (hsound : site.surroundings.host.Sound) {outer other : Part} (houterPart : outer ∈ parts.all)
    (hother : other ∈ parts.all) (hpublishes : Publishes outer.component)
    (hpublishes' : Publishes other.component) : outer = other := by
  obtain ⟨output, houter, -, -, hwhere⟩ := outer_output hsound
  have hinjective : ∀ provider ∈ site.surroundings.host.providers,
      ∀ provider' ∈ site.surroundings.host.providers,
      provider.name = provider'.name → provider = provider' := by
    have hnames := (List.nodup_cons.mp hsound.names).2
    intro provider hprovider provider' hprovider'
    exact List.inj_on_of_nodup_map (List.Nodup.of_append_left hnames) hprovider hprovider'
  -- who publishes is the gateway without providers, or the outer provider
  have hwho : ∀ part ∈ parts.all, Publishes part.component →
      site.surroundings.host.providers = [] ∧ part = gatewayPart site.surroundings.host images ∨
      ∃ provider ∈ site.surroundings.host.providers, provider.name =
        site.surroundings.host.outerComponent ∧
        providerPart site.surroundings.host images provider = .ok part := by
    intro part hpart hpublishes
    obtain ⟨port, hport, hcontainer⟩ := hpublishes
    rcases parts.cases_of_mem houter hpart with rfl | ⟨provider, hprovider, image, himage, rfl⟩ |
      ⟨configured, hconfigured, image, -, rfl⟩ | ⟨record, hrecord, component, hok, rfl⟩
    · left
      refine ⟨?_, rfl⟩
      by_contra hsome
      unfold gatewayPart gatewayComponent at hport
      rw [decide_eq_false hsome] at hport
      cases hport
    · right
      refine ⟨provider, hprovider, ?_, providerPart_eq_ok.mpr ⟨image, himage, rfl⟩⟩
      by_contra hinner
      dsimp only at hport
      rw [if_neg hinner] at hport
      cases hport
    · rw [List.mem_singleton.mp hport] at hcontainer
      exact absurd hcontainer (by decide : (8080 : ℤ) ≠ 50051)
    · rw [(makeTeamComponent_eq_ok hok).ports] at hport
      split_ifs at hport
      · cases hport
      · rw [List.mem_singleton.mp hport] at hcontainer
        exact absurd hcontainer (by decide : (4137 : ℤ) ≠ 50051)
  rcases hwho outer houterPart hpublishes with ⟨hnone, rfl⟩ | ⟨provider, hprovider, hname, hok⟩
  · rcases hwho other hother hpublishes' with ⟨-, rfl⟩ | ⟨provider', hprovider', -, -⟩
    · rfl
    · rw [hnone] at hprovider'
      cases hprovider'
  · rcases hwho other hother hpublishes' with ⟨hnone, rfl⟩ | ⟨provider', hprovider', hname', hok'⟩
    · rw [hnone] at hprovider
      cases hprovider
    · rw [hinjective provider hprovider provider' hprovider' (hname.trans hname'.symm)] at hok
      rw [hok] at hok'
      cases hok'
      rfl

/-- In every composition exactly the outer component publishes the port of a provider, and only on
the loopback address; only the gateway has a volume, the credentials; and a team that runs offline
publishes nothing and reaches no network beyond its links. -/
theorem system_exposes {machine : Machine} {path : PurePath}
    (hhost : loadHost machine path = .ok site.surroundings.host)
    (h : system site images instances = .ok found) :
    (∃ outer ∈ found.components, outer.name = site.surroundings.host.outerComponent ∧
      outer.ports = [providerPort] ∧ ∀ other ∈ found.components, Publishes other → other = outer) ∧
    (∀ component ∈ found.components, component.volumes ≠ [] →
      component.name = "gateway" ∧ component.volumes =
        [⟨"credentials", "/var/lib/cyclo-gateway", false⟩]) ∧
    ∀ record ∈ instances, record.fields.intent.text = "running" → record.fields.offline.truthy = true →
      ∃ component ∈ found.components, teamComponentName site.sha256 record.id = .ok component.name ∧
        component.ports = [] ∧ component.egress = false := by
  have hsound := loadHost_sound hhost
  obtain ⟨output, houter, -⟩ := outer_output hsound
  obtain ⟨-, parts, -, hcomponents, -⟩ := system_eq_ok h
  rw [hcomponents]
  refine ⟨?_, ?_, ?_⟩
  · obtain ⟨outer, hmem, hname, hports⟩ := parts.outer_part hsound
    have hpublishes : Publishes outer.component := by
      refine ⟨providerPort, ?_, rfl⟩
      rw [hports]
      exact List.mem_singleton_self _
    refine ⟨outer.component, List.mem_map_of_mem hmem, hname, hports,
      fun other hother hpublishes' => ?_⟩
    obtain ⟨part, hpart, rfl⟩ := List.mem_map.mp hother
    rw [parts.publishes hsound hmem hpart hpublishes hpublishes']
  · intro component hcomponent hvolumes
    obtain ⟨part, hpart, rfl⟩ := List.mem_map.mp hcomponent
    rcases parts.cases_of_mem houter hpart with rfl | ⟨provider, hprovider, image, -, rfl⟩ |
      ⟨configured, hconfigured, image, -, rfl⟩ | ⟨record, hrecord, component, hok, rfl⟩
    · exact ⟨rfl, rfl⟩
    · exact absurd rfl hvolumes
    · exact absurd rfl hvolumes
    · exact absurd (makeTeamComponent_eq_ok hok).volumes hvolumes
  · intro record hrecord hrunning hoffline
    obtain ⟨part, hpart, hok⟩ := (mem_of_forall₂ parts.ofTeams).2 record
      (mem_activeOf.mpr ⟨hrecord, hrunning⟩)
    obtain ⟨component, hcomponent, rfl⟩ := (teamPart_eq_ok houter).mp hok
    have hteam := makeTeamComponent_eq_ok hcomponent
    refine ⟨component, List.mem_map_of_mem (parts.mem_all.mpr (Or.inr (Or.inr (Or.inr hpart)))),
      hteam.name, ?_, ?_⟩
    · rw [hteam.ports, if_pos hoffline]
    · rw [hteam.egress, hoffline]
      rfl

theorem localSite_exposes : ∃ found, system localSite localImages [offlineRecord] = .ok found ∧
    ∃ outer ∈ found.components, outer.name = "local" ∧ outer.ports = [providerPort] ∧
      ∀ other ∈ found.components, Publishes other → other = outer := by
  obtain ⟨found, hfound, -⟩ := localSite_compiles
  exact ⟨found, hfound, (system_exposes localHost_loaded hfound).1⟩

end Cyclo.Runtime
