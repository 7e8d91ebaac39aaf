import Cyclo.Project.Generation

/-! The generation of a project covers what is rendered, so written files are never in the way. -/
namespace Cyclo.Project
open Python

theorem map_eq_map_of_imp {α β γ : Type} {f : α → β} {g : α → γ} (hfg : ∀ a b, f a = f b → g a = g b)
    {xs ys : List α} (h : xs.map f = ys.map f) : xs.map g = ys.map g := by
  induction xs generalizing ys with
  | nil =>
    have hys : ys = [] := by simpa using h.symm
    simp [hys]
  | cons x xs ih =>
    cases ys with
    | nil => simp at h
    | cons y ys =>
      obtain ⟨hxy, hrest⟩ := List.cons.inj h
      rw [List.map_cons, List.map_cons, hfg x y hxy, ih hrest]

theorem AccessMode.text_injective {mode mode' : AccessMode} (h : mode.text = mode'.text) :
    mode = mode' := by
  cases mode <;> cases mode' <;> first | rfl | cases h

/-- What equal payloads have in common. -/
structure SamePayload (project project' : ProjectDefinition) : Prop where
  name : project.name = project'.name
  description : project.description = project'.description
  context : project.context = project'.context
  mounts : project.mounts.map mountJson = project'.mounts.map mountJson
  teams : project.teams.map teamJson = project'.teams.map teamJson

theorem samePayload_of_encoded {project project' : ProjectDefinition}
    (h : project.encoded = project'.encoded) : SamePayload project project' := by
  have hpayload := Json.dumps_injective (utf8_injective h)
  simp only [ProjectDefinition.payload, Json.dict.injEq, List.cons.injEq, Prod.mk.injEq,
    Json.str.injEq, Json.list.injEq, String.ofList_inj, true_and, and_true] at hpayload
  obtain ⟨hcontext, hdescription, hmounts, hname, hteams⟩ := hpayload
  exact ⟨hname, hdescription, hcontext, hmounts, hteams⟩

theorem SamePayload.symm {project project' : ProjectDefinition}
    (h : SamePayload project project') : SamePayload project' project :=
  ⟨h.name.symm, h.description.symm, h.context.symm, h.mounts.symm, h.teams.symm⟩

theorem teamJson_inj {team team' : ProjectTeam} (h : teamJson team = teamJson team') :
    team.mode = team'.mode ∧ team.path.text = team'.path.text := by
  simp only [teamJson, Json.dict.injEq, List.cons.injEq, Prod.mk.injEq, Json.str.injEq,
    String.ofList_inj, true_and, and_true] at h
  exact ⟨AccessMode.text_injective h.1, h.2⟩

theorem mountItem_congr {mount mount' : ProjectMount} (h : mountJson mount = mountJson mount') :
    mountItem mount = mountItem mount' := by
  simp only [mountJson, Json.dict.injEq, List.cons.injEq, Prod.mk.injEq, Json.str.injEq,
    String.ofList_inj, true_and, and_true] at h
  obtain ⟨hmode, hname, -⟩ := h
  unfold mountItem ProjectMount.containerPath
  rw [hname, AccessMode.text_injective hmode]

/-- The rendering reads no more than the payload, and the mode of the team. -/
theorem SamePayload.render_eq {project project' : ProjectDefinition} {team team' : ProjectTeam}
    (h : SamePayload project project') (hteam : team ∈ project.teams)
    (hteam' : team' ∈ project'.teams) (hmode : team.mode = team'.mode) :
    renderContainerProject project team = renderContainerProject project' team' := by
  have htext : ∀ context, projectText project team.mode context =
      projectText project' team'.mode context := by
    intro context
    unfold projectText rootItems
    rw [h.name, h.description, hmode, map_eq_map_of_imp (fun _ _ => mountItem_congr) h.mounts]
  unfold renderContainerProject
  rw [demand_eq_ok.mpr hteam, demand_eq_ok.mpr hteam', h.context]
  simp only [htext]

/-- The teams so far are found on the host, under different names. -/
structure Parsed.Located (host : Host) (parsed : Parsed) : Prop where
  resolved : ∀ team ∈ parsed.teams, ∃ path, host.resolve path = some team.path
  names : (parsed.teams.map fun team => foldedName team.path).Nodup

theorem resolveDirectory_resolved {host : Host} {source : PurePath} {value : List Char} {line : ℕ}
    {label : String} {path : PurePath} (h : resolveDirectory host source value line label = .ok path) :
    host.resolve (selectPath source value) = some path := by
  unfold resolveDirectory at h
  obtain ⟨_, -, h⟩ := bind_eq_ok.mp h
  split at h
  · cases h
  · rename_i resolved hresolved
    obtain ⟨_, -, h⟩ := bind_eq_ok.mp h
    obtain ⟨_, -, h⟩ := bind_eq_ok.mp h
    cases h
    exact hresolved

theorem located_directive {host : Host} {source : PurePath} {parsed parsed' : Parsed} {lineNo : ℕ}
    {line : List Char} {block : Option Block} (h : parsed.Located host)
    (hd : Directive host source parsed lineNo line parsed' block) : parsed'.Located host := by
  cases hd with
  | comment _ => exact h
  | name hname =>
    obtain ⟨_, _, -, -, -, rfl⟩ := parseName_eq_ok.mp hname
    exact ⟨h.resolved, h.names⟩
  | description hdescription =>
    obtain ⟨-, -, -, rfl⟩ := parseDescription_eq_ok.mp hdescription
    exact ⟨h.resolved, h.names⟩
  | context _ => exact h
  | team hteam =>
    obtain ⟨_, value, mode, path, -, hpath, -, -, -, hnames, rfl⟩ := parseTeam_eq_ok.mp hteam
    constructor
    · rw [List.forall_mem_append, List.forall_mem_singleton]
      exact ⟨h.resolved, _, resolveDirectory_resolved hpath⟩
    · rw [List.map_append, List.map_singleton, List.nodup_append]
      refine ⟨h.names, List.nodup_singleton _, ?_⟩
      intro a ha b hb hab
      obtain ⟨team, hmem, rfl⟩ := List.mem_map.mp ha
      rw [List.mem_singleton.mp hb] at hab
      exact hnames team hmem hab
  | mount hmount =>
    obtain ⟨_, _, _, _, _, -, -, -, -, -, rfl⟩ := parseMount_eq_ok.mp hmount
    exact ⟨h.resolved, h.names⟩

theorem located_close {host : Host} {parsed parsed' : Parsed} {block : Block}
    (h : parsed.Located host) (hclose : closeBlock parsed block = .ok parsed') :
    parsed'.Located host := by
  obtain ⟨-, rfl⟩ := closeBlock_eq_ok.mp hclose
  exact ⟨h.resolved, h.names⟩

theorem located_loadProject {host : Host} {source : PurePath} {content : List UInt8}
    {project : ProjectDefinition} (h : loadProject host source content = .ok project) :
    (∀ team ∈ project.teams, ∃ path, host.resolve path = some team.path) ∧
      (project.teams.map fun team => foldedName team.path).Nodup := by
  obtain ⟨text, parsed, -, -, hparsed, hfinish⟩ := loadProject_eq_ok h
  have hempty : Parsed.empty.Located host := ⟨List.forall_mem_nil _, List.nodup_nil⟩
  have hlocated := parseLines_invariant located_directive located_close hempty hparsed
  obtain ⟨_, _, -, -, -, -, -, rfl⟩ := finish_eq_ok hfinish
  exact ⟨hlocated.resolved, hlocated.names⟩

section
variable {load load' : Load} {project project' : ProjectDefinition} {team team' : ProjectTeam}

theorem Load.project_eq_ok (h : load.project = .ok project) :
    loadProject load.host load.source load.content = .ok project := mapError_eq_ok.mp h

theorem Load.readBack (h : load.project = .ok project) (hteam : team ∈ project.teams) :
    PurePath.ofText team.path.text = team.path := by
  obtain ⟨path, hpath⟩ := (located_loadProject (Load.project_eq_ok h)).1 team hteam
  exact load.canonical path team.path hpath

/-- A team of one definition is a team of the other. -/
theorem SamePayload.counterpart (h : SamePayload project project') (hload : load.project = .ok project)
    (hload' : load'.project = .ok project') (hteam : team ∈ project.teams) :
    ∃ other ∈ project'.teams, other.path = team.path ∧ other.mode = team.mode := by
  have hmem : teamJson team ∈ project'.teams.map teamJson := by
    rw [← h.teams]
    exact List.mem_map_of_mem hteam
  obtain ⟨other, hother, heq⟩ := List.mem_map.mp hmem
  obtain ⟨hmode, htext⟩ := teamJson_inj heq
  refine ⟨other, hother, ?_, hmode⟩
  rw [← Load.readBack hload' hother, htext, Load.readBack hload hteam]

theorem teams_eq_of_path (hload : load.project = .ok project) (hteam : team ∈ project.teams)
    (hteam' : team' ∈ project.teams) (hpath : team.path = team'.path) : team = team' := by
  have hnodup := (located_loadProject (Load.project_eq_ok hload)).2
  apply List.inj_on_of_nodup_map hnodup hteam hteam'
  rw [hpath]

/-- Equal payloads are rendered alike for the same team. -/
theorem render_eq_of_encoded (hload : load.project = .ok project)
    (hload' : load'.project = .ok project') (h : project.encoded = project'.encoded)
    (hteam : team ∈ project.teams) (hteam' : team' ∈ project'.teams)
    (hpath : team.path = team'.path) :
    renderContainerProject project team = renderContainerProject project' team' := by
  have hsame := samePayload_of_encoded h
  obtain ⟨other, hother, hopath, homode⟩ := hsame.counterpart hload hload' hteam
  have he : other = team' := teams_eq_of_path hload' hother hteam' (by rw [hopath, hpath])
  rw [he] at homode
  exact hsame.render_eq hteam hteam' homode.symm

end

/-- The digests of a run tell apart what is hashed in it: the definitions, the settings of agents,
and, shortened in long identifiers, the teams of projects at different paths. -/
structure NoCollision (sha256 : List UInt8 → List Char) (loads : List Load) : Prop where
  hexdigest : ∀ bytes, (sha256 bytes).length = 64
  definitions : ∀ load ∈ loads, ∀ load' ∈ loads, ∀ project project',
    load.project = .ok project → load'.project = .ok project' →
    sha256 project.encoded = sha256 project'.encoded → project.encoded = project'.encoded
  settings : ∀ load ∈ loads, ∀ load' ∈ loads, ∀ project project',
    load.project = .ok project → load'.project = .ok project' →
    ∀ team ∈ project.teams, ∀ team' ∈ project'.teams,
      sha256 (piSettings (load.firstAgent team.path).1 (load.firstAgent team.path).2) =
        sha256 (piSettings (load'.firstAgent team'.path).1 (load'.firstAgent team'.path).2) →
      piSettings (load.firstAgent team.path).1 (load.firstAgent team.path).2 =
        piSettings (load'.firstAgent team'.path).1 (load'.firstAgent team'.path).2
  identities : ∀ load ∈ loads, ∀ load' ∈ loads, ∀ project project',
    load.project = .ok project → load'.project = .ok project' → project.path ≠ project'.path →
    ∀ team ∈ project.teams, ∀ team' ∈ project'.teams,
      (sha256 (identityBytes project team)).take 8 ≠ (sha256 (identityBytes project' team')).take 8

/-- The instance was made for a team that alone has this identifier in its project. -/
structure Made (sha256 : List UInt8 → List Char) (load : Load) (project : ProjectDefinition)
    (team : ProjectTeam) (identifier : List Char) (i : Instance) : Prop where
  loaded : load.project = .ok project
  member : team ∈ project.teams
  identified : projectInstanceId sha256 project team = .ok identifier
  unique : ∀ other ∈ project.teams, projectInstanceId sha256 project other = .ok identifier →
    other = team
  made : newInstance sha256 load project team = .ok i

section
variable {sha256 : List UInt8 → List Char} {loads : List Load} {load load' : Load}
  {project project' : ProjectDefinition} {team team' : ProjectTeam} {identifier : List Char}
  {i i' : Instance}

theorem projectInstanceId_eq_ok (h : projectInstanceId sha256 project team = .ok identifier) :
    rawInstanceId sha256 project team = identifier := by
  unfold projectInstanceId validateInstanceId at h
  obtain ⟨_, -, h⟩ := bind_eq_ok.mp h
  cases h
  rfl

theorem projectInstanceId_congr
    (h : rawInstanceId sha256 project team = rawInstanceId sha256 project' team') :
    projectInstanceId sha256 project team = projectInstanceId sha256 project' team' := by
  unfold projectInstanceId
  rw [h]

/-- The identifier says which path the project has, or does not depend on it. -/
theorem rawInstanceId_congr (hname : project.name = project'.name) (hpath : team.path = team'.path)
    (h : (readableId project team).length ≤ 64 ∨ project.path = project'.path) :
    rawInstanceId sha256 project team = rawInstanceId sha256 project' team' := by
  have hreadable : readableId project team = readableId project' team' := by
    unfold readableId
    rw [hname, hpath]
  unfold rawInstanceId
  rw [← hreadable]
  split_ifs with hshort
  · rfl
  · have hproject := h.resolve_left hshort
    unfold identityBytes
    rw [hproject, hpath]

theorem digest_eq_of_rawInstanceId (hlength : ∀ bytes, (sha256 bytes).length = 64)
    (hlong : ¬ (readableId project team).length ≤ 64)
    (hlong' : ¬ (readableId project' team').length ≤ 64)
    (h : rawInstanceId sha256 project team = rawInstanceId sha256 project' team') :
    (sha256 (identityBytes project team)).take 8 =
      (sha256 (identityBytes project' team')).take 8 := by
  unfold rawInstanceId at h
  rw [if_neg hlong, if_neg hlong'] at h
  have htail := List.append_inj_right' h (by simp [hlength])
  exact (List.cons.inj htail).2

/-- Instances with one identifier and one generation are those of one team. -/
theorem mode_eq_of_made (hsha : NoCollision sha256 loads) (hload : load ∈ loads)
    (hload' : load' ∈ loads) (h : Made sha256 load project team identifier i)
    (h' : Made sha256 load' project' team' identifier i')
    (hsame : SamePayload project project') : team.mode = team'.mode := by
  have hraw := projectInstanceId_eq_ok h.identified
  have hraw' := projectInstanceId_eq_ok h'.identified
  -- the counterpart of a team in the other definition has the same identifier
  have hleft : (readableId project team).length ≤ 64 ∨ project.path = project'.path →
      team.mode = team'.mode := by
    intro hcase
    obtain ⟨other, hother, hpath, hmode⟩ := hsame.counterpart h.loaded h'.loaded h.member
    have hcongr : rawInstanceId sha256 project team = rawInstanceId sha256 project' other :=
      rawInstanceId_congr hsame.name hpath.symm hcase
    have hid : projectInstanceId sha256 project' other = .ok identifier := by
      rw [← projectInstanceId_congr hcongr]
      exact h.identified
    rw [← hmode, h'.unique other hother hid]
  have hright : (readableId project' team').length ≤ 64 → team.mode = team'.mode := by
    intro hcase
    obtain ⟨other, hother, hpath, hmode⟩ := hsame.symm.counterpart h'.loaded h.loaded h'.member
    have hcongr : rawInstanceId sha256 project' team' = rawInstanceId sha256 project other :=
      rawInstanceId_congr hsame.symm.name hpath.symm (.inl hcase)
    have hid : projectInstanceId sha256 project other = .ok identifier := by
      rw [← projectInstanceId_congr hcongr]
      exact h'.identified
    rw [← hmode, h.unique other hother hid]
  by_cases hshort : (readableId project team).length ≤ 64
  · exact hleft (.inl hshort)
  by_cases hshort' : (readableId project' team').length ≤ 64
  · exact hright hshort'
  by_cases hpath : project.path = project'.path
  · exact hleft (.inr hpath)
  have hdigest := digest_eq_of_rawInstanceId hsha.hexdigest hshort hshort' (hraw.trans hraw'.symm)
  exact absurd hdigest (hsha.identities load hload load' hload' project project' h.loaded h'.loaded
    hpath team h.member team' h'.member)

theorem newInstance_eq_ok (h : newInstance sha256 load project team = .ok i) :
    renderContainerProject project team = .ok i.projectConfig ∧
      i.projectGeneration = definitionSha256 sha256 project ∧
      settingsContent i =
        piSettings (load.firstAgent team.path).1 (load.firstAgent team.path).2 := by
  unfold newInstance at h
  obtain ⟨config, hconfig, h⟩ := bind_eq_ok.mp h
  cases h
  exact ⟨mapError_eq_ok.mp hconfig, rfl, rfl⟩

/-- One generation of an instance is rendered in one way. -/
theorem projectConfig_eq (hsha : NoCollision sha256 loads) (hload : load ∈ loads)
    (hload' : load' ∈ loads) (h : Made sha256 load project team identifier i)
    (h' : Made sha256 load' project' team' identifier i')
    (hgeneration : i.projectGeneration = i'.projectGeneration) :
    i.projectConfig = i'.projectConfig := by
  obtain ⟨hconfig, hdigest, -⟩ := newInstance_eq_ok h.made
  obtain ⟨hconfig', hdigest', -⟩ := newInstance_eq_ok h'.made
  rw [hdigest, hdigest'] at hgeneration
  have hencoded := hsha.definitions load hload load' hload' project project' h.loaded h'.loaded
    hgeneration
  have hsame := samePayload_of_encoded hencoded
  have hmode := mode_eq_of_made hsha hload hload' h h' hsame
  rw [hsame.render_eq h.member h'.member hmode, hconfig'] at hconfig
  exact (Except.ok.inj hconfig).symm

theorem made_of_refresh (h : refreshInstance sha256 load identifier = .ok i) :
    ∃ project team, Made sha256 load project team identifier i := by
  unfold refreshInstance at h
  obtain ⟨project, hproject, h⟩ := bind_eq_ok.mp h
  obtain ⟨named, hnamed, h⟩ := bind_eq_ok.mp h
  have hnames := mem_of_forall₂ (mapM_eq_ok.mp hnamed)
  -- every entry is a team with its identifier
  have hentry : ∀ team found, (do
      let found ← projectInstanceId sha256 project team
      return (found, team) : Except RunRejection (List Char × ProjectTeam)) = .ok found →
      projectInstanceId sha256 project team = .ok found.1 ∧ found.2 = team := by
    intro team found hfound
    obtain ⟨identifier, hid, hfound⟩ := bind_eq_ok.mp hfound
    cases hfound
    exact ⟨hid, rfl⟩
  split at h
  · rename_i entry hfilter
    have hmem : entry ∈ named.filter fun entry => entry.1 = identifier := by
      rw [hfilter]
      exact List.mem_cons_self
    rw [List.mem_filter, decide_eq_true_eq] at hmem
    obtain ⟨team, hteam, hfound⟩ := hnames.1 entry hmem.1
    obtain ⟨hid, he⟩ := hentry team entry hfound
    refine ⟨project, entry.2, ?_⟩
    constructor
    case loaded => exact hproject
    case member => rw [he]; exact hteam
    case identified => rw [he, hid, hmem.2]
    case made => exact h
    case unique =>
      intro other hother hsame
      obtain ⟨found, hfoundmem, hfound⟩ := hnames.2 other hother
      obtain ⟨hid', he'⟩ := hentry other found hfound
      have hin : found ∈ named.filter fun entry => entry.1 = identifier := by
        rw [List.mem_filter, decide_eq_true_eq]
        refine ⟨hfoundmem, ?_⟩
        rw [hid'] at hsame
        exact Except.ok.inj hsame
      rw [hfilter, List.mem_singleton] at hin
      rw [← he', hin]
  · cases h

theorem bindTeams_eq_ok {identifiers : List (List Char)} {teams : List ProjectTeam}
    {bindings : List (List Char × Instance)}
    (h : bindTeams sha256 load project identifiers teams = .ok bindings) :
    List.Forall₂ (fun team binding => projectInstanceId sha256 project team = .ok binding.1 ∧
      newInstance sha256 load project team = .ok binding.2) teams bindings ∧
      (bindings.map Prod.fst).Nodup ∧ ∀ binding ∈ bindings, binding.1 ∉ identifiers := by
  induction teams generalizing identifiers bindings with
  | nil =>
    cases h
    exact ⟨.nil, List.nodup_nil, List.forall_mem_nil _⟩
  | cons team teams ih =>
    obtain ⟨identifier, hid, h⟩ := bind_eq_ok.mp h
    obtain ⟨_, hfresh, h⟩ := bind_eq_ok.mp h
    obtain ⟨made, hmade, h⟩ := bind_eq_ok.mp h
    obtain ⟨rest, hrest, h⟩ := bind_eq_ok.mp h
    cases h
    obtain ⟨hall, hnodup, hnot⟩ := ih hrest
    refine ⟨.cons ⟨hid, hmade⟩ hall, ?_, ?_⟩
    · rw [List.map_cons, List.nodup_cons]
      refine ⟨?_, hnodup⟩
      intro hmem
      obtain ⟨binding, hbinding, he⟩ := List.mem_map.mp hmem
      have hno := hnot binding hbinding
      rw [he] at hno
      exact hno List.mem_cons_self
    · rw [List.forall_mem_cons]
      refine ⟨demand_eq_ok.mp hfresh, ?_⟩
      intro binding hbinding hmem
      exact hnot binding hbinding (List.mem_cons_of_mem _ hmem)

/-- Bound teams have different identifiers. -/
theorem bound_unique {teams : List ProjectTeam} {bindings : List (List Char × Instance)}
    (hall : List.Forall₂ (fun team binding => projectInstanceId sha256 project team = .ok binding.1 ∧
      newInstance sha256 load project team = .ok binding.2) teams bindings)
    (hnodup : (bindings.map Prod.fst).Nodup) (hteam : team ∈ teams) (hteam' : team' ∈ teams)
    (hid : projectInstanceId sha256 project team = .ok identifier)
    (hid' : projectInstanceId sha256 project team' = .ok identifier) : team' = team := by
  -- a later team has another identifier than the first
  have hlater : ∀ {first other : ProjectTeam} {binding : List Char × Instance}
      {teams : List ProjectTeam} {bindings : List (List Char × Instance)},
      List.Forall₂ (fun team binding => projectInstanceId sha256 project team = .ok binding.1 ∧
        newInstance sha256 load project team = .ok binding.2) teams bindings →
      binding.1 ∉ bindings.map Prod.fst →
      projectInstanceId sha256 project first = .ok binding.1 → other ∈ teams →
      projectInstanceId sha256 project first = .ok identifier →
      projectInstanceId sha256 project other ≠ .ok identifier := by
    intro first other binding teams bindings hall hnot hfirst hother hid hid'
    obtain ⟨found, hfound, hothers, -⟩ := (mem_of_forall₂ hall).2 other hother
    rw [hfirst] at hid
    rw [hothers, ← hid] at hid'
    exact hnot (Except.ok.inj hid' ▸ List.mem_map_of_mem hfound)
  induction hall with
  | nil => cases hteam
  | cons hhead htail ih =>
    rw [List.map_cons, List.nodup_cons] at hnodup
    rcases List.mem_cons.mp hteam with rfl | hmem
    · rcases List.mem_cons.mp hteam' with rfl | hmem'
      · rfl
      · exact absurd hid' (hlater htail hnodup.1 hhead.1 hmem' hid)
    · rcases List.mem_cons.mp hteam' with rfl | hmem'
      · exact absurd hid (hlater htail hnodup.1 hhead.1 hmem hid')
      · exact ih hnodup.2 hmem hmem'

theorem made_of_run {bindings : List (List Char × Instance)}
    (h : projectRunBindings sha256 load = .ok bindings) {binding : List Char × Instance}
    (hbinding : binding ∈ bindings) :
    ∃ project team, Made sha256 load project team binding.1 binding.2 := by
  unfold projectRunBindings at h
  obtain ⟨project, hproject, h⟩ := bind_eq_ok.mp h
  obtain ⟨hall, hnodup, -⟩ := bindTeams_eq_ok h
  obtain ⟨team, hteam, hid, hmade⟩ := (mem_of_forall₂ hall).1 binding hbinding
  refine ⟨project, team, ?_⟩
  constructor
  case loaded => exact hproject
  case member => exact hteam
  case identified => exact hid
  case made => exact hmade
  case unique =>
    intro other hother hid'
    exact bound_unique hall hnodup hteam hother hid hid'

/-- Every instance was made from a load, and every file written for such an instance. -/
structure Settled (sha256 : List UInt8 → List Char) (loads : List Load) (state : State) : Prop where
  instances : ∀ identifier i, state.instances identifier = some i →
    ∃ load ∈ loads, ∃ project team, Made sha256 load project team identifier i
  configs : ∀ identifier generation content,
    state.files (.projectConfig identifier generation) = some content →
    ∃ load ∈ loads, ∃ project team i, Made sha256 load project team identifier i ∧
      i.projectGeneration = generation ∧ content = configContent i.projectConfig
  settings : ∀ identifier digest content,
    state.files (.piSettings identifier digest) = some content →
    ∃ load ∈ loads, ∃ project team i, Made sha256 load project team identifier i ∧
      digest = sha256 (settingsContent i) ∧ content = settingsContent i

variable {state : State}

theorem immutableFile_eq_ok {file : RuntimeFile} {content : List UInt8} {files : Files}
    (h : ∀ found, files file = some found → found = content) :
    ∃ files', immutableFile file content files = .ok files' ∧
      ∀ other, files' other = if other = file then some content else files other := by
  unfold immutableFile
  cases hfile : files file with
  | none => exact ⟨_, rfl, fun _ => rfl⟩
  | some found =>
    refine ⟨files, if_pos (h found hfile), ?_⟩
    intro other
    split_ifs with ho
    · rw [ho, hfile, h found hfile]
    · rfl

/-- What is written for a settled instance agrees with what was written before. -/
theorem Settled.materialize (hsha : NoCollision sha256 loads) (h : Settled sha256 loads state)
    (hi : state.instances identifier = some i) :
    (materializeInstance sha256 identifier i state.files).2 = none ∧
      Settled sha256 loads
        { state with files := (materializeInstance sha256 identifier i state.files).1 } := by
  obtain ⟨load, hload, project, team, hmade⟩ := h.instances identifier i hi
  have hconfig : ∀ found, state.files (.projectConfig identifier i.projectGeneration) = some found →
      found = configContent i.projectConfig := by
    intro found hfound
    obtain ⟨load', hload', project', team', i', hmade', hgeneration, hcontent⟩ :=
      h.configs identifier _ found hfound
    rw [hcontent, projectConfig_eq hsha hload' hload hmade' hmade hgeneration]
  have hsettings : ∀ found,
      state.files (.piSettings identifier (sha256 (settingsContent i))) = some found →
      found = settingsContent i := by
    intro found hfound
    obtain ⟨load', hload', project', team', i', hmade', hdigest, hcontent⟩ :=
      h.settings identifier _ found hfound
    obtain ⟨-, -, hs⟩ := newInstance_eq_ok hmade.made
    obtain ⟨-, -, hs'⟩ := newInstance_eq_ok hmade'.made
    rw [hs, hs'] at hdigest
    rw [hcontent, hs, hs', hsha.settings load hload load' hload' project project' hmade.loaded
      hmade'.loaded team hmade.member team' hmade'.member hdigest]
  obtain ⟨files, hfirst, hfiles⟩ := immutableFile_eq_ok hconfig
  have hsettings' : ∀ found,
      files (.piSettings identifier (sha256 (settingsContent i))) = some found →
      found = settingsContent i := by
    intro found hfound
    rw [hfiles, if_neg (by simp)] at hfound
    exact hsettings found hfound
  obtain ⟨files', hsecond, hfiles'⟩ := immutableFile_eq_ok hsettings'
  have hrun : materializeInstance sha256 identifier i state.files = (files', none) := by
    unfold materializeInstance
    rw [hfirst]
    dsimp only
    rw [hsecond]
  rw [hrun]
  refine ⟨rfl, ?_⟩
  constructor
  case instances => exact h.instances
  case configs =>
    intro other generation content hcontent
    dsimp only at hcontent
    rw [hfiles', if_neg (by simp), hfiles] at hcontent
    split_ifs at hcontent with he
    · cases he
      cases hcontent
      exact ⟨load, hload, project, team, i, hmade, rfl, rfl⟩
    · exact h.configs other generation content hcontent
  case settings =>
    intro other digest content hcontent
    dsimp only at hcontent
    rw [hfiles'] at hcontent
    split_ifs at hcontent with he
    · cases he
      cases hcontent
      exact ⟨load, hload, project, team, i, hmade, rfl, rfl⟩
    · rw [hfiles, if_neg (by simp)] at hcontent
      exact h.settings other digest content hcontent

theorem Settled.save (h : Settled sha256 loads state) (hload : load ∈ loads)
    (hmade : Made sha256 load project team identifier i) :
    Settled sha256 loads (state.save identifier i) := by
  refine ⟨?_, h.configs, h.settings⟩
  intro other i' hi'
  unfold State.save at hi'
  dsimp only at hi'
  split_ifs at hi' with he
  · cases hi'
    exact ⟨load, hload, project, team, he ▸ hmade⟩
  · exact h.instances other i' hi'

theorem Settled.saveAll {bindings : List (List Char × Instance)} (h : Settled sha256 loads state)
    (hload : load ∈ loads)
    (hmade : ∀ binding ∈ bindings, ∃ project team, Made sha256 load project team binding.1 binding.2) :
    Settled sha256 loads (bindings.foldl (fun state binding => state.save binding.1 binding.2)
      state) := by
  induction bindings generalizing state with
  | nil => exact h
  | cons binding bindings ih =>
    rw [List.forall_mem_cons] at hmade
    obtain ⟨⟨project, team, hfirst⟩, hrest⟩ := hmade
    exact ih (h.save hload hfirst) hrest

theorem Settled.forget (h : Settled sha256 loads state) (identifier : List Char) :
    Settled sha256 loads (state.forget identifier) := by
  constructor
  case instances =>
    intro other i hi
    unfold State.forget at hi
    dsimp only at hi
    split_ifs at hi
    exact h.instances other i hi
  case configs =>
    intro other generation content hcontent
    unfold State.forget at hcontent
    dsimp only at hcontent
    split_ifs at hcontent
    exact h.configs other generation content hcontent
  case settings =>
    intro other digest content hcontent
    unfold State.forget at hcontent
    dsimp only at hcontent
    split_ifs at hcontent
    exact h.settings other digest content hcontent

theorem Settled.step (hsha : NoCollision sha256 loads) (h : Settled sha256 loads state)
    {event : Event} (hevent : ∀ load ∈ event.load, load ∈ loads) :
    Settled sha256 loads (step sha256 state event) := by
  cases event with
  | run load =>
    have hload := hevent load rfl
    unfold Project.step
    dsimp only
    split
    · exact h
    · rename_i bindings hbindings
      split_ifs
      · exact h.saveAll hload fun binding hbinding => made_of_run hbindings hbinding
      · exact h
  | refresh load identifier =>
    have hload := hevent load rfl
    unfold Project.step
    dsimp only
    split
    · rename_i hrefresh
      obtain ⟨project, team, hmade⟩ := made_of_refresh hrefresh
      exact h.save hload hmade
    · exact h
  | materialize identifier =>
    unfold Project.step
    dsimp only
    split
    · exact h
    · rename_i i hi
      exact (h.materialize hsha hi).2
  | forget identifier => exact h.forget identifier

/-- The loads of a run. -/
def loadsOf (events : List Event) : List Load := events.filterMap Event.load

theorem settled_run (events : List Event) (hsha : NoCollision sha256 loads)
    (hloads : ∀ event ∈ events, ∀ load ∈ event.load, load ∈ loads)
    (h : Settled sha256 loads state) :
    Settled sha256 loads (events.foldl (Project.step sha256) state) := by
  induction events generalizing state with
  | nil => exact h
  | cons event events ih =>
    rw [List.forall_mem_cons] at hloads
    exact ih hloads.2 (h.step hsha hloads.1)

theorem settled_empty : Settled sha256 loads .empty := by
  constructor <;> intros <;> contradiction

end

/-- Definitions with one digest are rendered alike for a team, and in every run of loads, refreshes
and removals no instance finds another content in its files than the one to be written. -/
theorem generation_covers_rendering (sha256 : List UInt8 → List Char) :
    (∀ (load load' : Load) (project project' : ProjectDefinition) (team team' : ProjectTeam),
      load.project = .ok project → load'.project = .ok project' →
      (sha256 project.encoded = sha256 project'.encoded → project.encoded = project'.encoded) →
      definitionSha256 sha256 project = definitionSha256 sha256 project' →
      team ∈ project.teams → team' ∈ project'.teams → team.path = team'.path →
      renderContainerProject project team = renderContainerProject project' team') ∧
    ∀ events : List Event, NoCollision sha256 (loadsOf events) →
      ∀ identifier i, (run sha256 events).instances identifier = some i →
        (materializeInstance sha256 identifier i (run sha256 events).files).2 = none := by
  constructor
  · intro load load' project project' team team' hload hload' hsha hdigest hteam hteam' hpath
    exact render_eq_of_encoded hload hload' (hsha hdigest) hteam hteam' hpath
  · intro events hsha identifier i hi
    have hloads : ∀ event ∈ events, ∀ load ∈ event.load, load ∈ loadsOf events := by
      intro event hevent load hload
      exact List.mem_filterMap.mpr ⟨event, hevent, hload⟩
    have hsettled := settled_run events hsha hloads settled_empty
    exact (hsettled.materialize hsha hi).1

/-- A host with two directories. -/
def twoDirectories : Host where
  resolve path :=
    if path = ⟨"/", ["t"]⟩ then some ⟨"/", ["t"]⟩
    else if path = ⟨"/", ["d"]⟩ then some ⟨"/", ["d"]⟩
    else none
  isDirectory _ := true

def twoDirectoriesLoad : Load where
  host := twoDirectories
  source := ⟨"/", ["p", "a.cyclo"]⟩
  content := utf8 "name a\ndescription b\nteam /t ro\nmount m /d rw\n".toList
  firstAgent _ := (['w'], ['m'])
  canonical := by
    intro path resolved h
    unfold twoDirectories at h
    dsimp only at h
    split_ifs at h
    · cases h
      decide +kernel
    · cases h
      decide +kernel

/-- A digest of the right length, which counts the bytes. -/
def countingDigest (bytes : List UInt8) : List Char :=
  List.replicate (64 - (Nat.toDigits 16 (bytes.length % 2 ^ 32)).length) '0' ++
    Nat.toDigits 16 (bytes.length % 2 ^ 32)

theorem length_countingDigest (bytes : List UInt8) : (countingDigest bytes).length = 64 := by
  have hlt : bytes.length % 2 ^ 32 < 16 ^ 8 := Nat.mod_lt _ (by decide)
  have hle := (Nat.length_toDigits_le_iff (by decide : 1 < 16) (by decide : 0 < 8)).mpr hlt
  simp only [countingDigest, List.length_append, List.length_replicate]
  omega

/-- An instance is started, refreshed without a change, and started again. -/
def refreshedEvents : List Event :=
  [.run twoDirectoriesLoad, .materialize "a-t".toList, .refresh twoDirectoriesLoad "a-t".toList]

theorem noCollision_refreshed : NoCollision countingDigest (loadsOf refreshedEvents) := by
  have hloads : ∀ load ∈ loadsOf refreshedEvents, load = twoDirectoriesLoad := by
    intro load hload
    have hcases : load = twoDirectoriesLoad ∨ load = twoDirectoriesLoad := by
      simpa [loadsOf, refreshedEvents, Event.load, eq_comm] using hload
    exact or_self_iff.mp hcases
  have hsame : ∀ load ∈ loadsOf refreshedEvents, ∀ load' ∈ loadsOf refreshedEvents,
      ∀ project project', load.project = .ok project → load'.project = .ok project' →
        project = project' := by
    intro load hload load' hload' project project' h h'
    rw [hloads load hload] at h
    rw [hloads load' hload', h] at h'
    exact Except.ok.inj h'
  constructor
  case hexdigest => exact length_countingDigest
  case definitions =>
    intro load hload load' hload' project project' h h' _
    rw [hsame load hload load' hload' project project' h h']
  case settings =>
    intro load hload load' hload' project project' _ _ team _ team' _ _
    rw [hloads load hload, hloads load' hload']
    rfl
  case identities =>
    intro load hload load' hload' project project' h h' hpath
    exact absurd (by rw [hsame load hload load' hload' project project' h h']) hpath

theorem refreshed_materializes : ∃ i,
    (run countingDigest refreshedEvents).instances "a-t".toList = some i ∧
      (materializeInstance countingDigest "a-t".toList i
        (run countingDigest refreshedEvents).files).2 = none := by
  have hsome : ((run countingDigest refreshedEvents).instances "a-t".toList).isSome = true := by
    decide +kernel
  obtain ⟨i, hi⟩ := Option.isSome_iff_exists.mp hsome
  exact ⟨i, hi, (generation_covers_rendering countingDigest).2 refreshedEvents
    noCollision_refreshed _ i hi⟩

end Cyclo.Project
