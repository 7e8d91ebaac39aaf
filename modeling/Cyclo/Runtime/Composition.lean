import Cyclo.Runtime.Compile

/-! The parts of the composition that is made of an accepted configuration and accepted instances,
and how their links join them. -/
namespace Cyclo.Runtime
open Python HostConf Dcomp

theorem matchesName_of {value : String} {c : Char} {rest : List Char}
    (hvalue : value.toList = c :: rest)
    (hfirst : isLower c = true) (hrest : ∀ d ∈ rest, isNameChar d = true)
    (hlength : rest.length ≤ 62) : matchesName value = true := by
  unfold matchesName
  rw [hvalue]
  have hall : (rest.all fun d => isLower d || isDigit d || decide (d = '-')) = true :=
    List.all_eq_true.mpr hrest
  dsimp only
  rw [hfirst, hall, decide_eq_true hlength]
  rfl

theorem gateway_name : matchesName "gateway" = true := by decide

theorem provider_name : matchesName "provider" = true := by decide

theorem openai_name : matchesName "openai" = true := by decide

theorem isNameChar_dashed (replaced : Bool) (text : List Char) :
    ∀ c ∈ dashed replaced text, isNameChar c = true := by
  induction text generalizing replaced with
  | nil => exact List.forall_mem_nil _
  | cons c rest ih =>
    unfold dashed
    split_ifs with hname hreplaced
    · exact List.forall_mem_cons.mpr ⟨hname, ih false⟩
    · exact ih true
    · exact List.forall_mem_cons.mpr ⟨rfl, ih true⟩

theorem isNameChar_orInstance {text : List Char} (h : ∀ c ∈ text, isNameChar c = true) :
    ∀ c ∈ orInstance text, isNameChar c = true := by
  unfold orInstance
  split_ifs
  · decide
  · exact h

theorem sliceTo_subset {α : Type} (text : List α) (stop : ℤ) : sliceTo text stop ⊆ text := by
  unfold sliceTo
  split_ifs
  · exact List.take_subset _ _
  · exact List.take_subset _ _

theorem isNameChar_of_hex {c : Char} (h : isDigit c = true ∨ 'a' ≤ c ∧ c ≤ 'f') :
    isNameChar c = true := by
  unfold isNameChar
  rcases h with hdigit | ⟨hlo, hhi⟩
  · rw [hdigit, Bool.or_true, Bool.true_or]
  · have hlower : isLower c = true := by
      unfold isLower
      rw [decide_eq_true hlo, decide_eq_true (hhi.trans (by decide)), Bool.true_and]
    rw [hlower, Bool.true_or, Bool.true_or]

theorem nameStem_chars (room : ℤ) (identifier : List Char) :
    ∀ c ∈ nameStem room identifier, isNameChar c = true := by
  refine isNameChar_orInstance fun c hc => ?_
  have hslice := sliceTo_subset _ room ((List.rdropWhile_prefix _ _).subset hc)
  refine isNameChar_orInstance (fun d hd => ?_) c hslice
  exact isNameChar_dashed _ _ d (Text.strip_subset _ _ hd)

theorem length_nameStem_le {room : ℕ} (hroom : 8 ≤ room) (identifier : List Char) :
    (nameStem room identifier).length ≤ room := by
  have hdefault : "instance".toList.length = 8 := rfl
  have hslice : ∀ readable : List Char, (sliceTo readable room).length ≤ room := by
    intro readable
    unfold sliceTo
    rw [if_pos (by omega), Int.toNat_natCast]
    exact List.length_take_le room readable
  unfold nameStem
  dsimp only
  generalize orInstance (Text.strip (· == '-') (dashed false (identifier.map Char.toLower))) = readable
  unfold orInstance
  split_ifs
  · omega
  · exact (List.rdropWhile_prefix _ _).length_le.trans (hslice readable)

/-- Every identifier has a component name. -/
theorem teamComponentName_ok (sha256 : Sha256) (identifier : String) :
    ∃ name, teamComponentName sha256 identifier = .ok name ∧ matchesName name = true := by
  have hkind : checkedName "team" "component kind" = .ok "team" := rfl
  unfold teamComponentName componentName
  rw [hkind]
  dsimp only [bind, Except.bind]
  have hhex : ∀ d ∈ (sha256.hexdigest (encode identifier)).toList.take 10, isNameChar d = true :=
    fun d hd =>
    isNameChar_of_hex (sha256.hexadecimal _ d (List.mem_of_mem_take hd))
  have hlength : ((sha256.hexdigest (encode identifier)).toList.take 10).length = 10 := by
    have hall : (sha256.hexdigest (encode identifier)).toList.length = 64 := sha256.length_hexdigest _
    rw [List.length_take, hall]
    rfl
  have hroom : (63 - ("team".length : ℤ) - ((sha256.hexdigest (encode identifier)).toList.take
      10).length - 2) = (47 : ℕ) := by
    rw [hlength]
    rfl
  rw [hroom]
  generalize (sha256.hexdigest (encode identifier)).toList.take 10 = digest at hhex hlength
  have hstem := nameStem_chars (47 : ℕ) identifier.toList
  have hle := length_nameStem_le (show 8 ≤ 47 by omega) identifier.toList
  generalize nameStem (47 : ℕ) identifier.toList = stem at hstem hle
  have htext : ("team" ++ "-" ++ String.ofList stem ++ "-" ++ String.ofList digest).toList =
      't' :: ("eam-".toList ++ stem ++ '-' :: digest) := by
    simp
  have hprefix : ∀ d ∈ "eam-".toList, isNameChar d = true := by decide
  have hname : matchesName ("team" ++ "-" ++ String.ofList stem ++ "-" ++ String.ofList digest) =
      true := by
    refine matchesName_of htext rfl (fun d hd => ?_) ?_
    · rw [List.mem_append, List.mem_append, List.mem_cons] at hd
      rcases hd with (hd | hd) | rfl | hd
      · exact hprefix d hd
      · exact hstem d hd
      · rfl
      · exact hhex d hd
    · have hfour : "eam-".toList.length = 4 := rfl
      simp only [List.length_append, List.length_cons]
      omega
  exact ⟨_, if_pos hname, hname⟩

theorem system_name (site : Site) : matchesName ("cyclo-" ++ site.system) = true := by
  let raw := encode site.surroundings.stateRoot.text
  have htext : ("cyclo-" ++ site.system).toList =
      'c' :: ("yclo-".toList ++ (site.sha256.hexdigest raw).toList.take 12) := by
    simp [Site.system, raw]
  have hprefix : ∀ d ∈ "yclo-".toList, isNameChar d = true := by decide
  refine matchesName_of htext rfl (fun d hd => ?_) ?_
  · rcases List.mem_append.mp hd with hd | hd
    · exact hprefix d hd
    · exact isNameChar_of_hex (site.sha256.hexadecimal raw d (List.mem_of_mem_take hd))
  · have hlength := List.length_take_le 12 (site.sha256.hexdigest raw).toList
    have hfive : "yclo-".toList.length = 5 := rfl
    rw [List.length_append]
    omega

variable {site : Site} {images : HostImages}

/-- A record is bound to an immutable image, and its roster is a file name. -/
theorem record_fields (record : StateStore.Record) :
    record.fields.image.text.startsWith "sha256:" = true ∧
    (PurePath.ofText record.fields.teamRoster.text).name = record.fields.teamRoster.text := by
  have h := record.valid
  unfold StateStore.Instance.check at h
  obtain ⟨_, -, h⟩ := bind_eq_ok.mp h
  obtain ⟨_, -, h⟩ := bind_eq_ok.mp h
  obtain ⟨_, -, h⟩ := bind_eq_ok.mp h
  obtain ⟨_, -, h⟩ := bind_eq_ok.mp h
  obtain ⟨_, -, h⟩ := bind_eq_ok.mp h
  obtain ⟨_, -, h⟩ := bind_eq_ok.mp h
  obtain ⟨_, -, h⟩ := bind_eq_ok.mp h
  obtain ⟨_, -, h⟩ := bind_eq_ok.mp h
  obtain ⟨_, -, h⟩ := bind_eq_ok.mp h
  obtain ⟨_, himage, h⟩ := bind_eq_ok.mp h
  obtain ⟨_, -, h⟩ := bind_eq_ok.mp h
  obtain ⟨_, hroster, -⟩ := bind_eq_ok.mp h
  have himage := StateStore.require_eq_ok.mp himage
  have hroster := StateStore.require_eq_ok.mp hroster
  unfold StateStore.isImageId at himage
  unfold StateStore.isFileName at hroster
  rw [Bool.and_eq_true, Bool.and_eq_true] at himage
  rw [Bool.and_eq_true, Bool.and_eq_true, decide_eq_true_iff] at hroster
  exact ⟨himage.1.1, hroster.1.1⟩

theorem record_teamPath (record : StateStore.Record) : record.fields.teamPath.isStr = true := by
  have h := record.valid
  unfold StateStore.Instance.check at h
  obtain ⟨_, -, h⟩ := bind_eq_ok.mp h
  obtain ⟨_, htexts, -⟩ := bind_eq_ok.mp h
  have hmem : ("team_path", record.fields.teamPath) ∈ record.fields.textFields :=
    List.mem_cons_of_mem _ (List.mem_cons_of_mem _ List.mem_cons_self)
  exact StateStore.require_eq_ok.mp (forM_eq_ok.mp htexts _ hmem)

/-- What the component of a team consists of. -/
structure TeamComponent (site : Site) (record : StateStore.Record) (component : Component) : Prop where
  name : teamComponentName site.sha256 record.id = .ok component.name
  inputs : component.inputs = [providerEndpoint]
  outputs : component.outputs = []
  volumes : component.volumes = []
  ports : component.ports = if record.fields.offline.truthy then []
    else [⟨record.fields.agentwsHost.text, requestedPort record.fields, 4137, "tcp"⟩]
  egress : component.egress = !record.fields.offline.truthy
  binds : ∃ bound, readInstance site.surroundings record.fields = .ok bound ∧
    component.binds = teamBinds site record bound.team bound.mounts

theorem makeTeamComponent_eq_ok {record : StateStore.Record} {component : Component}
    (h : makeTeamComponent site record = .ok component) : TeamComponent site record component := by
  unfold makeTeamComponent at h
  obtain ⟨_, -, h⟩ := bind_eq_ok.mp h
  obtain ⟨mounts, hmounts, h⟩ := bind_eq_ok.mp h
  obtain ⟨_, -, h⟩ := bind_eq_ok.mp h
  split at h
  · cases h
  · rename_i teamRoot hteam
    obtain ⟨_, -, h⟩ := bind_eq_ok.mp h
    obtain ⟨name, hname, h⟩ := bind_eq_ok.mp h
    cases h
    refine ⟨hname, rfl, rfl, rfl, rfl, rfl, ?_⟩
    let bound : Bound := ⟨record.id, record.fields.projectName.text,
      (record.fields.projectFile.text, record.fields.projectGeneration.text), teamRoot, mounts⟩
    have hread : readInstance site.surroundings record.fields = .ok bound := by
      unfold readInstance
      rw [hmounts, ok_bind, demand_eq_ok.mpr (record_teamPath record), ok_bind, hteam]
      rfl
    exact ⟨bound, hread, rfl⟩

/-- There is a component for every instance that can be read and prepared. -/
theorem makeTeamComponent_returns {record : StateStore.Record} :
    (∃ component, makeTeamComponent site record = .ok component) ↔
      (∃ bound, readInstance site.surroundings record.fields = .ok bound) ∧
      site.materializes record = true := by
  constructor
  · intro h
    obtain ⟨component, h⟩ := h
    obtain ⟨bound, hread, -⟩ := (makeTeamComponent_eq_ok h).binds
    refine ⟨⟨bound, hread⟩, ?_⟩
    unfold makeTeamComponent at h
    obtain ⟨_, -, h⟩ := bind_eq_ok.mp h
    obtain ⟨_, -, h⟩ := bind_eq_ok.mp h
    obtain ⟨_, hmaterializes, -⟩ := bind_eq_ok.mp h
    exact demand_eq_ok.mp hmaterializes
  · intro h
    obtain ⟨⟨bound, hread⟩, hmaterializes⟩ := h
    obtain ⟨himage, hroster⟩ := record_fields record
    obtain ⟨name, hname, -⟩ := teamComponentName_ok site.sha256 record.id
    unfold readInstance at hread
    obtain ⟨mounts, hmounts, hread⟩ := bind_eq_ok.mp hread
    obtain ⟨_, -, hread⟩ := bind_eq_ok.mp hread
    unfold makeTeamComponent
    dsimp only
    rw [demand_eq_ok.mpr himage, ok_bind, hmounts, ok_bind, demand_eq_ok.mpr hmaterializes, ok_bind]
    cases hteam : site.surroundings.resolveStrict (PurePath.ofText record.fields.teamPath.text) with
    | none =>
      rw [hteam] at hread
      cases hread
    | some teamRoot =>
      dsimp only
      rw [demand_eq_ok.mpr hroster, ok_bind, hname, ok_bind]
      exact ⟨_, rfl⟩

/-- The links of a component lead to its inputs, one to each. -/
structure Part.Assembled (part : Part) : Prop where
  consumer : ∀ link ∈ part.links, link.consumer = part.component.name
  once : (part.links.map Link.input).Nodup
  all : ∀ input ∈ part.component.inputs, input.name ∈ part.links.map Link.input

theorem wired_of_parts {parts : List Part} (hassembled : ∀ part ∈ parts, part.Assembled)
    (hnames : (parts.map fun part => part.component.name).Nodup)
    (hjoins : ∀ part ∈ parts, ∀ link ∈ part.links, link.Joins (parts.map Part.component)) :
    Wired (parts.map Part.component) (parts.flatMap Part.links) := by
  have hkey : ∀ part ∈ parts, ∀ key ∈ part.links.map Link.key, key.1 = part.component.name := by
    intro part hpart key hmem
    obtain ⟨link, hlink, hsame⟩ := List.mem_map.mp hmem
    rw [← hsame]
    exact (hassembled part hpart).consumer link hlink
  constructor
  · intro link hlink
    obtain ⟨part, hpart, hmem⟩ := List.mem_flatMap.mp hlink
    exact hjoins part hpart link hmem
  · rw [List.map_flatMap, List.nodup_flatMap]
    constructor
    · intro part hpart
      have honce := (hassembled part hpart).once
      have hsnd : part.links.map Link.input = (part.links.map Link.key).map Prod.snd := by
        rw [List.map_map]
        rfl
      rw [hsnd] at honce
      exact List.Nodup.of_map _ honce
    · refine (List.pairwise_map.mp hnames).imp_of_mem fun {left right} hleft hright hne => ?_
      intro key hkl hkr
      exact hne ((hkey left hleft key hkl).symm.trans (hkey right hright key hkr))
  · intro component hcomponent input hinput
    obtain ⟨part, hpart, rfl⟩ := List.mem_map.mp hcomponent
    obtain ⟨link, hlink, hname⟩ := List.mem_map.mp ((hassembled part hpart).all input hinput)
    refine List.mem_map.mpr ⟨link, List.mem_flatMap.mpr ⟨part, hpart, hlink⟩, ?_⟩
    rw [Link.key, (hassembled part hpart).consumer link hlink, hname]

theorem outer_output {host : Host} (h : host.Sound) : ∃ output, host.outerOutput = .ok output ∧
    matchesName host.outerComponent = true ∧ matchesName output = true ∧
      (host.providers = [] ∧ host.outerComponent = "gateway" ∧ output = "provider" ∨
        ∃ provider ∈ host.providers, provider.name = host.outerComponent ∧
          ⟨providerService, output⟩ ∈ provider.contract.outputs) := by
  unfold Host.outerOutput Host.outerComponent
  cases hlast : host.providers.getLast? with
  | none => exact ⟨"provider", rfl, rfl, rfl, Or.inl ⟨List.getLast?_eq_none_iff.mp hlast, rfl, rfl⟩⟩
  | some provider =>
    have hmem := List.mem_of_getLast? hlast
    obtain ⟨hname, hcontract, -⟩ := h.providers provider hmem
    obtain ⟨output, houtputs, hoffers⟩ := hcontract.output
    have hvalid := hcontract.outputs.valid _ hoffers
    obtain ⟨_, -, houtput⟩ := bind_eq_ok.mp hvalid
    refine ⟨output, ?_, hname, Dcomp.require_eq_ok.mp houtput, Or.inr ⟨provider, hmem, rfl, hoffers⟩⟩
    dsimp only
    unfold Provider.providerOutput
    rw [houtputs]

theorem outerLink_eq_ok {host : Host} {consumer output : String} (h : host.outerOutput = .ok output) :
    outerLink host consumer = .ok ⟨consumer, "provider", host.outerComponent, output⟩ := by
  unfold outerLink
  rw [h]

theorem providerPart_eq_ok {host : Host} {provider : Provider} {part : Part} :
    providerPart host images provider = .ok part ↔
    ∃ image, images.providers.lookup provider.name = some image ∧
      part = ⟨⟨provider.name, image, provider.contract.inputs, provider.contract.outputs, [],
        [], provider.arguments,
          if provider.name = host.outerComponent then [providerPort] else [],
          decide (provider.name = host.outerComponent)⟩,
        provider.bindings.map fun binding =>
          ⟨provider.name, binding.input, binding.component, binding.output⟩⟩ := by
  unfold providerPart
  cases images.providers.lookup provider.name with
  | none => exact iff_of_false (fun h => by cases h) fun h => by cases h.choose_spec.1
  | some image =>
    constructor
    · intro h
      cases h
      exact ⟨image, rfl, by simp⟩
    · intro h
      obtain ⟨_, himage, rfl⟩ := h
      cases himage
      simp

theorem hostComponentPart_eq_ok {host : Host} {configured : HostComponent} {part : Part}
    {output : String} (houter : host.outerOutput = .ok output) :
    hostComponentPart host images configured = .ok part ↔ ∃ image,
      images.components.lookup configured.name = some image ∧
        part = ⟨⟨configured.name, image, [providerEndpoint], [], [], [], [],
            [⟨configured.bind, configured.port, 8080, "tcp"⟩], true⟩,
          [⟨configured.name, "provider", host.outerComponent, output⟩]⟩ := by
  unfold hostComponentPart
  cases images.components.lookup configured.name with
  | none => exact iff_of_false (fun h => by cases h) fun h => by cases h.choose_spec.1
  | some image =>
    dsimp only
    rw [outerLink_eq_ok houter]
    constructor
    · intro h
      cases h
      exact ⟨image, rfl, rfl⟩
    · intro h
      obtain ⟨_, himage, rfl⟩ := h
      cases himage
      rfl

theorem teamPart_eq_ok {host : Host} {record : StateStore.Record} {part : Part} {output : String}
    (houter : host.outerOutput = .ok output) :
    teamPart site host record = .ok part ↔ ∃ component, makeTeamComponent site record = .ok component ∧
      part = ⟨component, [⟨component.name, "provider", host.outerComponent, output⟩]⟩ := by
  unfold teamPart
  constructor
  · intro h
    obtain ⟨component, hcomponent, h⟩ := bind_eq_ok.mp h
    rw [outerLink_eq_ok houter] at h
    cases h
    exact ⟨component, hcomponent, rfl⟩
  · intro h
    obtain ⟨component, hcomponent, rfl⟩ := h
    rw [hcomponent, ok_bind, outerLink_eq_ok houter]
    rfl

def gatewayPart (host : Host) (images : HostImages) : Part :=
  ⟨gatewayComponent images.gateway (decide (host.providers = [])), []⟩

/-- The parts of a composition, kind by kind. -/
structure Parts (site : Site) (images : HostImages) (active : List StateStore.Record) where
  providers : List Part
  components : List Part
  teams : List Part
  ofProviders : site.surroundings.host.providers.Forall₂
    (fun provider part => providerPart site.surroundings.host images provider = .ok part) providers
  ofComponents : site.surroundings.host.components.Forall₂
    (fun configured part => hostComponentPart site.surroundings.host images configured = .ok part)
      components
  ofTeams : active.Forall₂ (fun record part => teamPart site site.surroundings.host record =
    .ok part) teams

namespace Parts

variable {active : List StateStore.Record} (found : Parts site images active)

def all : List Part := gatewayPart site.surroundings.host images :: found.providers ++
    found.components ++ found.teams

theorem of_partsOf {parts : List Part} (h : partsOf site images active = .ok parts) :
    ∃ found : Parts site images active, parts = found.all := by
  obtain ⟨providers, hproviders, h⟩ := bind_eq_ok.mp h
  obtain ⟨components, hcomponents, h⟩ := bind_eq_ok.mp h
  obtain ⟨teams, hteams, h⟩ := bind_eq_ok.mp h
  cases h
  exact ⟨⟨providers, components, teams, mapM_eq_ok.mp hproviders, mapM_eq_ok.mp hcomponents,
    mapM_eq_ok.mp hteams⟩, rfl⟩

theorem mem_all {part : Part} : part ∈ found.all ↔ part = gatewayPart site.surroundings.host images ∨
    part ∈ found.providers ∨ part ∈ found.components ∨ part ∈ found.teams := by
  unfold all
  rw [List.mem_append, List.mem_append, List.mem_cons, or_assoc, or_assoc]

/-- Every part comes from the gateway, a provider, a terminal component or a running instance. -/
theorem cases_of_mem {part : Part} {output : String}
    (houter : site.surroundings.host.outerOutput = .ok output) (h : part ∈ found.all) :
    part = gatewayPart site.surroundings.host images ∨
    (∃ provider ∈ site.surroundings.host.providers,
      ∃ image, images.providers.lookup provider.name = some image ∧
      part = ⟨⟨provider.name, image, provider.contract.inputs, provider.contract.outputs, [],
        [], provider.arguments,
          if provider.name = site.surroundings.host.outerComponent then [providerPort] else [],
          decide (provider.name = site.surroundings.host.outerComponent)⟩,
        provider.bindings.map fun binding =>
          ⟨provider.name, binding.input, binding.component, binding.output⟩⟩) ∨
    (∃ configured ∈ site.surroundings.host.components, ∃ image,
      images.components.lookup configured.name = some image ∧
        part = ⟨⟨configured.name, image, [providerEndpoint], [], [], [], [],
            [⟨configured.bind, configured.port, 8080, "tcp"⟩], true⟩,
          [⟨configured.name, "provider", site.surroundings.host.outerComponent, output⟩]⟩) ∨
    ∃ record ∈ active, ∃ component, makeTeamComponent site record = .ok component ∧
      part = ⟨component, [⟨component.name, "provider", site.surroundings.host.outerComponent,
        output⟩]⟩ := by
  rcases found.mem_all.mp h with h | h | h | h
  · exact Or.inl h
  · right; left
    obtain ⟨provider, hprovider, hpart⟩ := (mem_of_forall₂ found.ofProviders).1 part h
    obtain ⟨image, himage, hsame⟩ := providerPart_eq_ok.mp hpart
    exact ⟨provider, hprovider, image, himage, hsame⟩
  · right; right; left
    obtain ⟨configured, hconfigured, hpart⟩ := (mem_of_forall₂ found.ofComponents).1 part h
    obtain ⟨image, himage, hsame⟩ := (hostComponentPart_eq_ok houter).mp hpart
    exact ⟨configured, hconfigured, image, himage, hsame⟩
  · right; right; right
    obtain ⟨record, hrecord, hpart⟩ := (mem_of_forall₂ found.ofTeams).1 part h
    obtain ⟨component, hcomponent, hsame⟩ := (teamPart_eq_ok houter).mp hpart
    exact ⟨record, hrecord, component, hcomponent, hsame⟩

/-- Every provider of the configuration has its part. -/
theorem provider_mem {provider : Provider} (h : provider ∈ site.surroundings.host.providers) :
    ∃ part ∈ found.all, part.component.name = provider.name ∧
      part.component.outputs = provider.contract.outputs := by
  obtain ⟨part, hpart, hok⟩ := (mem_of_forall₂ found.ofProviders).2 provider h
  obtain ⟨image, -, hsame⟩ := providerPart_eq_ok.mp hok
  refine ⟨part, found.mem_all.mpr (Or.inr (Or.inl hpart)), ?_⟩
  rw [hsame]
  exact ⟨rfl, rfl⟩

/-- Some component has this endpoint among its outputs. -/
def Offers (components : List Component) (name : String) (endpoint : Endpoint) : Prop :=
  ∃ component ∈ components, component.name = name ∧ endpoint ∈ component.outputs

theorem offers_gateway : Offers (found.all.map Part.component) "gateway" providerEndpoint :=
  ⟨(gatewayPart site.surroundings.host images).component,
    List.mem_map_of_mem (found.mem_all.mpr (Or.inl rfl)), rfl, List.mem_singleton_self _⟩

theorem offers_provider {provider : Provider} {endpoint : Endpoint}
    (h : provider ∈ site.surroundings.host.providers)
    (hendpoint : endpoint ∈ provider.contract.outputs) :
    Offers (found.all.map Part.component) provider.name endpoint := by
  obtain ⟨part, hpart, hname, houtputs⟩ := found.provider_mem h
  refine ⟨part.component, List.mem_map_of_mem hpart, hname, ?_⟩
  rw [houtputs]
  exact hendpoint

theorem joins_of_offers {components : List Component} {link : Link} {consumer : Component}
    {input : Endpoint} (hnames : link.validateNames = .ok ()) (hconsumer : consumer ∈ components)
    (hname : consumer.name = link.consumer)
    (hinput : input ∈ consumer.inputs) (hiname : input.name = link.input)
    (h : Offers components link.provider ⟨input.service, link.output⟩) : link.Joins components := by
  obtain ⟨provider, hprovider, hpname, houtput⟩ := h
  exact ⟨hnames, consumer, hconsumer, provider, hprovider, input, hinput, _, houtput, hname,
    hpname, hiname, rfl, rfl⟩

theorem outer_offers {output : String} (hsound : site.surroundings.host.Sound)
    (houter : site.surroundings.host.outerOutput = .ok output) :
    Offers (found.all.map Part.component) site.surroundings.host.outerComponent
      ⟨providerService, output⟩ := by
  obtain ⟨output', houter', -, -, hwhere⟩ := outer_output hsound
  rw [houter] at houter'
  cases houter'
  rcases hwhere with ⟨-, hname, houtput⟩ | ⟨provider, hprovider, hname, hoffers⟩
  · rw [hname, houtput]
    exact found.offers_gateway
  · rw [← hname]
    exact found.offers_provider hprovider hoffers

/-- Every link of every part joins an input to an output of its service, where components have valid
names. -/
theorem joins (hsound : site.surroundings.host.Sound)
    (hnames : ∀ part ∈ found.all, matchesName part.component.name = true) :
    ∀ part ∈ found.all, ∀ link ∈ part.links, link.Joins (found.all.map Part.component) := by
  obtain ⟨output, houter, hcomponent, houtput, -⟩ := outer_output hsound
  intro part hpart link hlink
  have hname := hnames part hpart
  have hmem : part.component ∈ found.all.map Part.component := List.mem_map_of_mem hpart
  have hinner : ∀ {component : Component}, part.component = component →
      component.inputs = [providerEndpoint] →
      link = ⟨component.name, "provider", site.surroundings.host.outerComponent, output⟩ →
        link.Joins (found.all.map Part.component) := by
    intro component hsame hinputs hlink
    rw [hsame] at hmem hname
    have hvalid : link.validateNames = .ok () := by
      rw [hlink]
      exact Link.validateNames_eq_ok.mpr ⟨hname, provider_name, hcomponent, houtput⟩
    have hinput : providerEndpoint ∈ component.inputs := by
      rw [hinputs]
      exact List.mem_singleton_self _
    have hconsumer : component.name = link.consumer := by rw [hlink]
    have hiname : providerEndpoint.name = link.input := by
      rw [hlink]
      rfl
    refine joins_of_offers hvalid hmem hconsumer hinput hiname ?_
    rw [hlink]
    exact found.outer_offers hsound houter
  rcases found.cases_of_mem houter hpart with rfl | ⟨provider, hprovider, image, -, rfl⟩ |
    ⟨configured, hconfigured, image, -, rfl⟩ | ⟨record, hrecord, component, hok, rfl⟩
  · cases hlink
  · obtain ⟨binding, hbinding, rfl⟩ := List.mem_map.mp hlink
    obtain ⟨hbcomponent, hboutput, input, hinput, hiname, hwhere⟩ :=
      hsound.bound provider hprovider binding hbinding
    have hcontract := (hsound.providers provider hprovider).2.1
    obtain ⟨_, -, hinputName⟩ := bind_eq_ok.mp (hcontract.inputs.valid input hinput)
    have hvalid := Dcomp.require_eq_ok.mp hinputName
    rw [hiname] at hvalid
    refine joins_of_offers (Link.validateNames_eq_ok.mpr ⟨hname, hvalid, hbcomponent, hboutput⟩)
      hmem rfl hinput hiname ?_
    rcases hwhere with ⟨hgateway, hprovider', hservice⟩ | ⟨other, hother, honame, hoffers⟩
    · dsimp only
      rw [hgateway, hprovider', hservice]
      exact found.offers_gateway
    · dsimp only
      rw [← honame]
      exact found.offers_provider hother hoffers
  · exact hinner rfl rfl (List.mem_singleton.mp hlink)
  · exact hinner rfl (makeTeamComponent_eq_ok hok).inputs (List.mem_singleton.mp hlink)

theorem assembled (hsound : site.surroundings.host.Sound) : ∀ part ∈ found.all, part.Assembled := by
  obtain ⟨output, houter, -⟩ := outer_output hsound
  intro part hpart
  have hinner : ∀ {component : Component} {link : Link}, component.inputs = [providerEndpoint] →
      link.consumer = component.name → link.input = "provider" →
      Part.Assembled ⟨component, [link]⟩ := by
    intro component link hinputs hconsumer hinput
    refine ⟨?_, List.nodup_singleton _, ?_⟩
    · intro other hother
      rw [List.mem_singleton.mp hother]
      exact hconsumer
    · intro input hmem
      dsimp only at hmem ⊢
      rw [hinputs] at hmem
      rw [List.mem_singleton.mp hmem, List.map_singleton, hinput]
      exact List.mem_singleton_self _
  rcases found.cases_of_mem houter hpart with rfl | ⟨provider, hprovider, image, -, rfl⟩ |
    ⟨configured, hconfigured, image, -, rfl⟩ | ⟨record, hrecord, component, hok, rfl⟩
  · exact ⟨List.forall_mem_nil _, List.nodup_nil, List.forall_mem_nil _⟩
  · have hinputs : ∀ bindings : List Binding, (bindings.map fun binding =>
        (⟨provider.name, binding.input, binding.component, binding.output⟩ : Link)).map Link.input =
          bindings.map Binding.input := by
      intro bindings
      rw [List.map_map]
      rfl
    constructor
    · intro link hlink
      obtain ⟨binding, -, rfl⟩ := List.mem_map.mp hlink
      rfl
    · dsimp only
      rw [hinputs]
      exact hsound.once provider hprovider
    · intro input hinput
      dsimp only
      rw [hinputs]
      exact hsound.all provider hprovider input hinput
  · exact hinner rfl rfl rfl
  · exact hinner (makeTeamComponent_eq_ok hok).inputs rfl rfl

end Parts

end Cyclo.Runtime
