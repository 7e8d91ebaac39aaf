import Cyclo.Team.Definition
import Cyclo.Text.Frames

/-! The generation of a team, and what it says about the files of the definition. -/
namespace Cyclo.Team
open Python

def TeamDirectory.readRole (directory : TeamDirectory) (name : List Char) : Option Entry :=
  match directory.roles with
  | .directory roles => roles.read name
  | _ => none

/-- The file is the role file of this name. -/
structure RoleRead (roles : Directory) (name : List Char) (file : TeamFile) : Prop where
  path : file.path = rolePath name
  content : roles.read name = some (.file file.content)

/-- A snapshot holds the files of a directory. -/
structure TeamSnapshot.Of (snapshot : TeamSnapshot) (directory : TeamDirectory) : Prop where
  rosterName : snapshot.roster.path ∈ rosterNames
  roster : directory.root.read snapshot.roster.path = some (.file snapshot.roster.content)
  roles : ∃ roles, directory.roles = .directory roles ∧
    List.Forall₂ (RoleRead roles) (roleNamesOf roles) snapshot.roles
  protocol : directory.root.read agentsFile =
    snapshot.protocol.map fun file => .file file.content
  protocolPath : ∀ file ∈ snapshot.protocol, file.path = agentsFile
  dockerfile : directory.root.read dockerfileName = some (.file snapshot.dockerfile.content)
  dockerfilePath : snapshot.dockerfile.path = dockerfileName

theorem readRegularFileAt_eq_ok {directory : Directory} {name path : List Char} {label : Label}
    {file : TeamFile} (h : readRegularFileAt directory name path label = .ok file) :
    directory.read name = some (.file file.content) ∧ file.path = path := by
  unfold readRegularFileAt at h
  split at h
  case h_5 content hread =>
    obtain ⟨_, _, h⟩ := bind_eq_ok.mp h
    cases h
    exact ⟨hread, rfl⟩
  all_goals cases h

theorem chooseRoster_eq_ok {directory : TeamDirectory} {name? : Option (List Char)}
    {name : List Char} (h : chooseRoster directory name? = .ok name) :
    name ∈ rosterNames ∧ chooseRoster directory (some name) = .ok name := by
  unfold chooseRoster at h
  split at h
  · cases h
  · obtain ⟨_, hmem, h⟩ := bind_eq_ok.mp h
    cases h
    have hmem := demand_eq_ok.mp hmem
    refine ⟨hmem, ?_⟩
    change (demand (name ∈ rosterNames) _ >>= fun _ => pure name) = _
    rw [demand_eq_ok.mpr hmem]
    rfl

theorem readProtocol_eq_ok {directory : TeamDirectory} {protocol : Option TeamFile}
    (h : readProtocol directory = .ok protocol) :
    directory.root.read agentsFile = protocol.map (fun file => .file file.content) ∧
      ∀ file ∈ protocol, file.path = agentsFile := by
  unfold readProtocol at h
  split_ifs at h with hsome
  · cases hread : readRegularFileAt directory.root agentsFile agentsFile .protocol with
    | error reason =>
      rw [hread] at h
      cases h
    | ok file =>
      rw [hread] at h
      cases h
      obtain ⟨hcontent, hpath⟩ := readRegularFileAt_eq_ok hread
      exact ⟨hcontent, fun file hfile => Option.some.inj hfile ▸ hpath⟩
  · cases h
    exact ⟨by simpa using hsome, nofun⟩

theorem readTeamSnapshot_eq_ok {directory : TeamDirectory} {name? : Option (List Char)}
    {snapshot : TeamSnapshot} (h : readTeamSnapshot directory name? = .ok snapshot) :
    snapshot.Of directory ∧
      readTeamSnapshot directory (some snapshot.roster.path) = .ok snapshot := by
  have hrun := h
  unfold readTeamSnapshot at h
  obtain ⟨name, hname, h⟩ := bind_eq_ok.mp h
  have hrest := h
  obtain ⟨roster, hroster, h⟩ := bind_eq_ok.mp h
  obtain ⟨roles, hroles, h⟩ := bind_eq_ok.mp h
  obtain ⟨files, hfiles, h⟩ := bind_eq_ok.mp h
  obtain ⟨protocol, hprotocol, h⟩ := bind_eq_ok.mp h
  obtain ⟨dockerfile, hdockerfile, h⟩ := bind_eq_ok.mp h
  obtain ⟨_, _, h⟩ := bind_eq_ok.mp h
  cases h
  obtain ⟨hmem, hchosen⟩ := chooseRoster_eq_ok hname
  obtain ⟨hcontent, hpath⟩ := readRegularFileAt_eq_ok hroster
  obtain ⟨hdocker, hdockerPath⟩ := readRegularFileAt_eq_ok hdockerfile
  obtain ⟨hagents, hagentsPath⟩ := readProtocol_eq_ok hprotocol
  have hdirectory : directory.roles = .directory roles := by
    unfold openRolesDirectory at hroles
    split at hroles
    · cases hroles
    · cases hroles
    · rename_i found hfound
      cases hroles
      exact hfound
  have hread : List.Forall₂ (RoleRead roles) (roleNamesOf roles) files := by
    refine (mapM_eq_ok.mp hfiles).imp ?_
    intro role file hfile
    obtain ⟨hcontent, hpath⟩ := readRegularFileAt_eq_ok hfile
    exact ⟨hpath, hcontent⟩
  constructor
  · constructor
    case rosterName => exact hpath ▸ hmem
    case roster => exact hpath ▸ hcontent
    case roles => exact ⟨roles, hdirectory, hread⟩
    case protocol => exact hagents
    case protocolPath => exact hagentsPath
    case dockerfile => exact hdocker
    case dockerfilePath => exact hdockerPath
  · rw [hpath]
    exact bind_eq_ok.mpr ⟨name, hchosen, hrest⟩

/-- What is loaded is read again in the same way. -/
theorem teamGeneration_of_loadTeam {directory : TeamDirectory} {snapshot : TeamSnapshot}
    {team : Team} (sha256 : List UInt8 → List Char) (head : Option (List Char))
    (hs : readTeamSnapshot directory none = .ok snapshot) (ht : loadTeam directory = .ok team) :
    team.roster = snapshot.roster.path ∧
      teamGeneration sha256 head directory team = .ok ((head.map strip).getD "unborn".toList ++
        "-content-".toList ++ (sha256 snapshot.stream).take 16) := by
  unfold loadTeam at ht
  rw [hs, ok_bind] at ht
  obtain ⟨agents, hagents, ht⟩ := bind_eq_ok.mp ht
  obtain ⟨_, hdocker, ht⟩ := bind_eq_ok.mp ht
  cases ht
  have hagain := (readTeamSnapshot_eq_ok hs).2
  have hnone : snapshot.protocol.isNone = (snapshot.protocol.map TeamFile.path).isNone := by
    cases snapshot.protocol <;> rfl
  refine ⟨rfl, ?_⟩
  unfold teamGeneration
  rw [hagain, ok_bind, demand_eq_ok.mpr hnone, ok_bind, hagents, ok_bind,
    demand_eq_ok.mpr rfl, ok_bind, hdocker, ok_bind]
  rfl

def TeamFile.named (file : TeamFile) : List Char × List UInt8 := (file.path, file.content)

/-- The files as the stream has them. -/
def TeamSnapshot.named (snapshot : TeamSnapshot) : List (List Char × List UInt8) :=
  snapshot.files.map TeamFile.named

def TeamSnapshot.frames (snapshot : TeamSnapshot) : List (Text.Frame UInt8) :=
  snapshot.named.map fun file => (utf8 file.1, file.2)

theorem stream_eq_framed (snapshot : TeamSnapshot) :
    snapshot.stream = Text.framed 0 snapshot.frames := by
  simp [TeamSnapshot.stream, TeamSnapshot.frames, TeamSnapshot.named, TeamFile.named, Text.framed,
    Text.frame, List.flatMap_map]

theorem frames_inj {snapshot snapshot' : TeamSnapshot} :
    snapshot.frames = snapshot'.frames ↔ snapshot.named = snapshot'.named := by
  unfold TeamSnapshot.frames
  refine (List.map_injective_iff.mpr ?_).eq_iff
  intro file file' h
  exact Prod.ext (utf8_injective (Prod.mk.inj h).1) (Prod.mk.inj h).2

theorem mem_rolePath {name : List Char} {c : Char} (h : c ∈ rolePath name) :
    c ∈ "roles/".toList ∨ c ∈ name := List.mem_append.mp h

theorem rolePath_inj {name name' : List Char} : rolePath name = rolePath name' ↔ name = name' :=
  List.append_right_inj _

theorem rolePath_ne {path : List Char} (h : path.head? ≠ some 'r') (name : List Char) :
    rolePath name ≠ path := by
  intro he
  rw [← he] at h
  exact h rfl

theorem rosterNames_head {path : List Char} (h : path ∈ rosterNames) :
    path.head? ≠ some 'r' ∧ path ≠ agentsFile ∧ path ≠ dockerfileName ∧ '\x00' ∉ path := by
  revert path
  decide

theorem lookup_cons_if {α β : Type} [BEq α] [LawfulBEq α] [DecidableEq α] (key k : α) (value : β)
    (entries : List (α × β)) :
    ((k, value) :: entries).lookup key = if key = k then some value else entries.lookup key := by
  rw [List.lookup_cons]
  split_ifs with h
  · rw [h, beq_self_eq_true]
  · rw [beq_eq_false_iff_ne.mpr h]

section
variable {roles : Directory} {names : List (List Char)} {files : List TeamFile}

theorem lookup_role (h : List.Forall₂ (RoleRead roles) names files) {name : List Char}
    (hname : name ∈ names) :
    roles.read name = ((files.map TeamFile.named).lookup (rolePath name)).map Entry.file := by
  induction h with
  | nil => simp at hname
  | @cons name' file names files hread _ ih =>
    rw [List.map_cons, TeamFile.named, hread.path, lookup_cons_if]
    split_ifs with he
    · rw [rolePath_inj.mp he]
      exact hread.content
    · have hne : name ≠ name' := fun heq => he (rolePath_inj.mpr heq)
      exact ih ((List.mem_cons.mp hname).resolve_left hne)

theorem lookup_other (h : List.Forall₂ (RoleRead roles) names files) {path : List Char}
    (hpath : ∀ name ∈ names, rolePath name ≠ path) :
    (files.map TeamFile.named).lookup path = none := by
  induction h with
  | nil => rfl
  | @cons name' file names files hread _ ih =>
    have hne : path ≠ rolePath name' := fun he => hpath name' List.mem_cons_self he.symm
    rw [List.map_cons, TeamFile.named, hread.path, lookup_cons_if, if_neg hne]
    exact ih fun name hname => hpath name (List.mem_cons_of_mem _ hname)

theorem read_isSome (directory : Directory) (name : List Char) :
    (directory.read name).isSome ↔ name ∈ directory.entries.map Prod.fst := by
  unfold Directory.read
  induction directory.entries with
  | nil => simp
  | cons entry entries ih =>
    rw [List.lookup_cons, List.map_cons, List.mem_cons, ← ih]
    by_cases he : name = entry.1
    · simp [he]
    · simp [beq_eq_false_iff_ne.mpr he, he]

theorem mem_roleNamesOf {name : List Char} :
    name ∈ roleNamesOf roles ↔ (roles.read name).isSome ∧ isRoleName name = true := by
  rw [roleNamesOf, (sortedBy_perm _ _).mem_iff, List.mem_filter, read_isSome]

/-- The sorted names depend only on which names there are. -/
theorem roleNamesOf_eq {roles' : Directory}
    (h : ∀ name, isRoleName name = true → roles.read name = roles'.read name) :
    roleNamesOf roles = roleNamesOf roles' := by
  have hnodup : ∀ directory : Directory, (roleNamesOf directory).Nodup := by
    intro directory
    exact (sortedBy_perm _ _).nodup_iff.mpr (directory.nodup.filter _)
  have hperm : (roleNamesOf roles).Perm (roleNamesOf roles') := by
    refine (List.perm_ext_iff_of_nodup (hnodup roles) (hnodup roles')).mpr ?_
    intro name
    rw [mem_roleNamesOf, mem_roleNamesOf]
    constructor
    · intro hn
      exact ⟨h name hn.2 ▸ hn.1, hn.2⟩
    · intro hn
      exact ⟨(h name hn.2).symm ▸ hn.1, hn.2⟩
  have hsorted : ∀ directory : Directory, (roleNamesOf directory).Pairwise (· ≤ ·) := by
    intro directory
    exact List.pairwise_insertionSort (fun x y : List Char => x ≤ y) _
  exact hperm.eq_of_pairwise' (hsorted roles) (hsorted roles')

end

section
variable {directory directory' : TeamDirectory} {snapshot snapshot' : TeamSnapshot}

theorem lookup_named (snapshot : TeamSnapshot) (path : List Char) :
    snapshot.named.lookup path = if path = snapshot.roster.path then some snapshot.roster.content
      else ((snapshot.roles.map TeamFile.named).lookup path).or
        (((snapshot.protocol.toList.map TeamFile.named).lookup path).or
          (if path = snapshot.dockerfile.path then some snapshot.dockerfile.content else none)) := by
  unfold TeamSnapshot.named TeamSnapshot.files
  rw [List.cons_append, List.cons_append, List.map_cons, TeamFile.named, lookup_cons_if,
    List.map_append, List.map_append, List.lookup_append, List.lookup_append, Option.or_assoc,
    List.map_singleton, TeamFile.named, lookup_cons_if, List.lookup_nil]

theorem TeamSnapshot.Of.readRole (h : snapshot.Of directory) {name : List Char}
    (hname : isRoleName name = true) :
    directory.readRole name = (snapshot.named.lookup (rolePath name)).map Entry.file := by
  obtain ⟨roles, hroles, hread⟩ := h.roles
  have hroster := rolePath_ne (rosterNames_head h.rosterName).1 name
  have hagents : rolePath name ≠ agentsFile := rolePath_ne (by decide) name
  have hdocker : rolePath name ≠ dockerfileName := rolePath_ne (by decide) name
  have hprotocol : (snapshot.protocol.toList.map TeamFile.named).lookup (rolePath name) = none := by
    cases hp : snapshot.protocol with
    | none => rfl
    | some file =>
      have hpath := h.protocolPath file (by rw [hp]; rfl)
      simp [TeamFile.named, List.lookup_cons, hpath, beq_eq_false_iff_ne.mpr hagents]
  rw [lookup_named, if_neg hroster, hprotocol, h.dockerfilePath, if_neg hdocker, Option.or_none,
    Option.or_none]
  unfold TeamDirectory.readRole
  rw [hroles]
  by_cases hmem : name ∈ roleNamesOf roles
  · exact lookup_role hread hmem
  · have hnone : roles.read name = none := by
      by_contra hsome
      exact hmem (mem_roleNamesOf.mpr ⟨Option.isSome_iff_ne_none.mpr hsome, hname⟩)
    have hother : ∀ name' ∈ roleNamesOf roles, rolePath name' ≠ rolePath name := by
      intro name' hname' he
      rw [rolePath_inj.mp he] at hname'
      exact hmem hname'
    rw [lookup_other hread hother]
    exact hnone

theorem TeamSnapshot.Of.readRoster (h : snapshot.Of directory) :
    directory.root.read snapshot.roster.path =
      (snapshot.named.lookup snapshot.roster.path).map Entry.file := by
  rw [lookup_named, if_pos rfl]
  exact h.roster

theorem lookup_roles_of_head (h : snapshot.Of directory) {path : List Char}
    (hpath : path.head? ≠ some 'r') : (snapshot.roles.map TeamFile.named).lookup path = none := by
  obtain ⟨_, _, hread⟩ := h.roles
  exact lookup_other hread fun name _ => rolePath_ne hpath name

theorem TeamSnapshot.Of.readProtocol (h : snapshot.Of directory) :
    directory.root.read agentsFile = (snapshot.named.lookup agentsFile).map Entry.file := by
  have hroster := (rosterNames_head h.rosterName).2.1
  have hroles : (snapshot.roles.map TeamFile.named).lookup agentsFile = none :=
    lookup_roles_of_head h (by decide)
  have hdocker : agentsFile ≠ snapshot.dockerfile.path := by
    rw [h.dockerfilePath]
    decide
  rw [lookup_named, if_neg hroster.symm, hroles, Option.none_or, if_neg hdocker, Option.or_none,
    h.protocol]
  cases hp : snapshot.protocol with
  | none => rfl
  | some file =>
    have hpath := h.protocolPath file (by rw [hp]; rfl)
    simp [TeamFile.named, hpath]

theorem TeamSnapshot.Of.readDockerfile (h : snapshot.Of directory) :
    directory.root.read dockerfileName = (snapshot.named.lookup dockerfileName).map Entry.file := by
  have hroster := (rosterNames_head h.rosterName).2.2.1
  have hroles : (snapshot.roles.map TeamFile.named).lookup dockerfileName = none :=
    lookup_roles_of_head h (by decide)
  have hprotocol : (snapshot.protocol.toList.map TeamFile.named).lookup dockerfileName = none := by
    cases hp : snapshot.protocol with
    | none => rfl
    | some file =>
      have hpath := h.protocolPath file (by rw [hp]; rfl)
      have hne : dockerfileName ≠ agentsFile := by decide
      simp [TeamFile.named, List.lookup_cons, hpath, beq_eq_false_iff_ne.mpr hne]
  rw [lookup_named, if_neg hroster.symm, hroles, Option.none_or, hprotocol, Option.none_or,
    if_pos h.dockerfilePath.symm]
  exact h.dockerfile

theorem TeamSnapshot.Of.nul_not_mem_path (h : snapshot.Of directory) :
    ∀ file ∈ snapshot.files, '\x00' ∉ file.path := by
  obtain ⟨roles, _, hread⟩ := h.roles
  intro file hfile
  unfold TeamSnapshot.files at hfile
  simp only [List.cons_append, List.mem_cons, List.mem_append, Option.mem_toList,
    List.not_mem_nil, or_false] at hfile
  rcases hfile with rfl | (hrole | hprotocol) | rfl
  · exact (rosterNames_head h.rosterName).2.2.2
  · obtain ⟨name, hname, hread⟩ := (mem_of_forall₂ hread).1 file hrole
    have hmem := (read_isSome roles name).mp (mem_roleNamesOf.mp hname).1
    obtain ⟨entry, hentry, rfl⟩ := List.mem_map.mp hmem
    rw [hread.path]
    intro hmem
    rcases mem_rolePath hmem with h | h
    · exact absurd h (by decide +kernel)
    · exact (roles.names entry hentry).2 h
  · rw [h.protocolPath file hprotocol]
    decide +kernel
  · rw [h.dockerfilePath]
    decide +kernel

end

/-- The definitions are the same: the same roster, role files, protocol and Dockerfile, with the
same bytes. -/
structure SameDefinition (directory directory' : TeamDirectory) (team team' : Team) : Prop where
  rosterName : team.roster = team'.roster
  roster : directory.root.read team.roster = directory'.root.read team'.roster
  roles : ∀ name, isRoleName name = true → directory.readRole name = directory'.readRole name
  protocol : directory.root.read agentsFile = directory'.root.read agentsFile
  dockerfile : directory.root.read dockerfileName = directory'.root.read dockerfileName

section
variable {directory directory' : TeamDirectory} {snapshot snapshot' : TeamSnapshot}
  {team team' : Team}

theorem named_roles_eq {roles roles' : Directory} {names : List (List Char)}
    {files files' : List TeamFile} (h : ∀ name ∈ names, roles.read name = roles'.read name)
    (hfiles : List.Forall₂ (RoleRead roles) names files)
    (hfiles' : List.Forall₂ (RoleRead roles') names files') :
    files.map TeamFile.named = files'.map TeamFile.named := by
  induction hfiles generalizing files' with
  | nil =>
    cases hfiles'
    rfl
  | cons hread _ ih =>
    cases hfiles' with
    | cons hread' hrest' =>
      rw [List.forall_mem_cons] at h
      have hcontent := h.1
      rw [hread.content, hread'.content] at hcontent
      rw [List.map_cons, List.map_cons, ih h.2 hrest', TeamFile.named, TeamFile.named, hread.path,
        hread'.path, Entry.file.inj (Option.some.inj hcontent)]

theorem named_protocol_eq (h : snapshot.Of directory) (h' : snapshot'.Of directory')
    (hread : directory.root.read agentsFile = directory'.root.read agentsFile) :
    snapshot.protocol.toList.map TeamFile.named = snapshot'.protocol.toList.map TeamFile.named := by
  rw [h.protocol, h'.protocol] at hread
  cases hp : snapshot.protocol with
  | none =>
    cases hp' : snapshot'.protocol with
    | none => rfl
    | some file' => simp [hp, hp'] at hread
  | some file =>
    cases hp' : snapshot'.protocol with
    | none => simp [hp, hp'] at hread
    | some file' =>
      have hpath := h.protocolPath file (by rw [hp]; rfl)
      have hpath' := h'.protocolPath file' (by rw [hp']; rfl)
      have hcontent : file.content = file'.content := by simpa [hp, hp'] using hread
      simp [TeamFile.named, hpath, hpath', hcontent]

/-- Definitions are the same exactly where the hashed names and contents are. -/
theorem sameDefinition_iff (h : snapshot.Of directory) (h' : snapshot'.Of directory')
    (ht : team.roster = snapshot.roster.path) (ht' : team'.roster = snapshot'.roster.path) :
    SameDefinition directory directory' team team' ↔ snapshot.named = snapshot'.named := by
  constructor
  · intro hsame
    obtain ⟨roles, hroles, hread⟩ := h.roles
    obtain ⟨roles', hroles', hread'⟩ := h'.roles
    have hfound : ∀ name, isRoleName name = true → roles.read name = roles'.read name := by
      intro name hname
      have hrole := hsame.roles name hname
      unfold TeamDirectory.readRole at hrole
      rw [hroles, hroles'] at hrole
      exact hrole
    rw [← roleNamesOf_eq hfound] at hread'
    have hrolesNamed := named_roles_eq
      (fun name hname => hfound name (mem_roleNamesOf.mp hname).2) hread hread'
    have hprotocol := named_protocol_eq h h' hsame.protocol
    have hname := hsame.rosterName
    have hroster := hsame.roster
    have hdocker := hsame.dockerfile
    rw [ht, ht'] at hname
    rw [ht, ht', h.roster, h'.roster] at hroster
    rw [h.dockerfile, h'.dockerfile] at hdocker
    unfold TeamSnapshot.named TeamSnapshot.files
    simp only [List.cons_append, List.map_cons, List.map_append, List.map_nil]
    rw [hrolesNamed, hprotocol]
    unfold TeamFile.named
    rw [hname, h.dockerfilePath, h'.dockerfilePath, Entry.file.inj (Option.some.inj hroster),
      Entry.file.inj (Option.some.inj hdocker)]
  · intro hnamed
    have hname : snapshot.roster.path = snapshot'.roster.path := by
      unfold TeamSnapshot.named TeamSnapshot.files at hnamed
      exact (Prod.mk.inj (List.cons.inj hnamed).1).1
    constructor
    case rosterName => rw [ht, ht', hname]
    case roster => rw [ht, ht', h.readRoster, h'.readRoster, hnamed, hname]
    case roles =>
      intro name hrole
      rw [h.readRole hrole, h'.readRole hrole, hnamed]
    case protocol => rw [h.readProtocol, h'.readProtocol, hnamed]
    case dockerfile => rw [h.readDockerfile, h'.readDockerfile, hnamed]

theorem zero_not_mem_utf8 {text : List Char} (h : '\x00' ∉ text) : (0 : UInt8) ∉ utf8 text := by
  intro hmem
  obtain ⟨c, hc, hbyte⟩ := List.mem_flatMap.mp hmem
  rcases utf8EncodeChar_cases c with ⟨hsmall, hbytes⟩ | ⟨_, _, hlarge⟩
  · rw [hbytes, List.mem_singleton] at hbyte
    have hzero : c.toNat = 0 := by
      have := congrArg UInt8.toNat hbyte
      rw [Nat.toUInt8_eq, UInt8.toNat_ofNat'] at this
      simp at this
      omega
    have he : c = '\x00' := Char.toNat_inj.mp hzero
    exact h (he ▸ hc)
  · have := hlarge 0 hbyte
    simp at this

theorem zero_not_mem_frame_name (h : snapshot.Of directory) :
    ∀ frame ∈ snapshot.frames, (0 : UInt8) ∉ frame.1 := by
  intro frame hframe
  obtain ⟨named, hnamed, rfl⟩ := List.mem_map.mp hframe
  obtain ⟨file, hfile, rfl⟩ := List.mem_map.mp hnamed
  exact zero_not_mem_utf8 (h.nul_not_mem_path file hfile)

/-- Where no two streams have the same shortened digest, the generations of two teams at the same
commit identify their definitions exactly unless one definition arises from the other, a different
one, by cutting files at a NUL, a name and a NUL, and joining files so. -/
theorem teamGeneration_identifies_iff (sha256 : List UInt8 → List Char) (head : Option (List Char))
    (hs : readTeamSnapshot directory none = .ok snapshot)
    (hs' : readTeamSnapshot directory' none = .ok snapshot')
    (ht : loadTeam directory = .ok team) (ht' : loadTeam directory' = .ok team')
    (hsha : (sha256 snapshot.stream).take 16 = (sha256 snapshot'.stream).take 16 →
      snapshot.stream = snapshot'.stream) :
    (teamGeneration sha256 head directory team = teamGeneration sha256 head directory' team' →
      SameDefinition directory directory' team team') ↔
      (Text.Recut 0 snapshot.frames snapshot'.frames → snapshot.frames = snapshot'.frames) := by
  have hof := (readTeamSnapshot_eq_ok hs).1
  have hof' := (readTeamSnapshot_eq_ok hs').1
  obtain ⟨hroster, hgeneration⟩ := teamGeneration_of_loadTeam sha256 head hs ht
  obtain ⟨hroster', hgeneration'⟩ := teamGeneration_of_loadTeam sha256 head hs' ht'
  have hstream : snapshot.stream = snapshot'.stream ↔
      Text.Recut 0 snapshot.frames snapshot'.frames := by
    rw [stream_eq_framed, stream_eq_framed]
    exact Text.framed_eq_iff (zero_not_mem_frame_name hof) (zero_not_mem_frame_name hof')
  rw [hgeneration, hgeneration', sameDefinition_iff hof hof' hroster hroster', ← frames_inj,
    ← hstream]
  constructor
  · intro h hequal
    apply h
    rw [hequal]
  · intro h hequal
    have htake := List.append_cancel_left (Except.ok.inj hequal)
    exact h (hsha htake)

/-- Files without a NUL cannot be cut differently. -/
theorem frames_eq_of_recut (h : snapshot.Of directory) (h' : snapshot'.Of directory')
    (hn : ∀ frame ∈ snapshot.frames, (0 : UInt8) ∉ frame.2)
    (hn' : ∀ frame ∈ snapshot'.frames, (0 : UInt8) ∉ frame.2)
    (hrecut : Text.Recut 0 snapshot.frames snapshot'.frames) :
    snapshot.frames = snapshot'.frames := by
  refine Text.framed_injective ?_ ?_ hrecut.framed_eq
  · intro frame hframe
    exact ⟨zero_not_mem_frame_name h frame hframe, hn frame hframe⟩
  · intro frame hframe
    exact ⟨zero_not_mem_frame_name h' frame hframe, hn' frame hframe⟩

end

/-- A directory with one planner, and the given files under `roles`. -/
def teamWith (roles : Directory) : TeamDirectory where
  root := {
    entries := [("team".toList, .file (utf8 "p planner pi work/m\n".toList)),
      (dockerfileName, .file (utf8 "ARG CYCLO_TEAM_BASE\nFROM $CYCLO_TEAM_BASE\n".toList))]
    nodup := by decide
    names := by decide }
  roles := .directory roles

/-- The role files, with the role of the planner spelled out. -/
def rolesWith (files : List (List Char × List Char)) (nodup : (files.map Prod.fst).Nodup)
    (names : ∀ file ∈ files, '/' ∉ file.1 ∧ '\x00' ∉ file.1) : Directory where
  entries := files.map fun file => (file.1, .file (utf8 file.2))
  nodup := by
    rw [List.map_map]
    exact nodup
  names := by
    intro entry hentry
    obtain ⟨file, hfile, rfl⟩ := List.mem_map.mp hentry
    exact names file hfile

def twoRoles : TeamDirectory := teamWith (rolesWith
  [("planner.md".toList, "x".toList), ("reviewer.md".toList, "y".toList)] (by decide) (by decide))

/-- The snapshot of such a directory. -/
def snapshotWith (roles : List (List Char × List Char)) : TeamSnapshot where
  roster := ⟨"team".toList, .roster, utf8 "p planner pi work/m\n".toList⟩
  roles := roles.map fun file => ⟨rolePath file.1, .role file.1, utf8 file.2⟩
  protocol := none
  dockerfile := ⟨dockerfileName, .dockerfile,
    utf8 "ARG CYCLO_TEAM_BASE\nFROM $CYCLO_TEAM_BASE\n".toList⟩

def twoRolesSnapshot : TeamSnapshot :=
  snapshotWith [("planner.md".toList, "x".toList), ("reviewer.md".toList, "y".toList)]

/-- The team in both directories. -/
def plannerTeam : Team where
  roster := "team".toList
  protocol := none
  agents := [⟨"p".toList, planner, "pi".toList, "work/m".toList⟩]

def noRole : TeamDirectory := teamWith (rolesWith
  [("planner.md".toList, [])] (by decide) (by decide))

def noRoleSnapshot : TeamSnapshot := snapshotWith [("planner.md".toList, [])]

/-- A digest that tells the two streams apart. -/
def lengthDigest (bytes : List UInt8) : List Char := Nat.toDigits 16 bytes.length

theorem twoRoles_identified :
    twoRolesSnapshot.frames ≠ noRoleSnapshot.frames ∧
      (teamGeneration lengthDigest none twoRoles plannerTeam =
          teamGeneration lengthDigest none noRole plannerTeam →
        SameDefinition twoRoles noRole plannerTeam plannerTeam) := by
  have hs : readTeamSnapshot twoRoles none = .ok twoRolesSnapshot := by decide +kernel
  have hs' : readTeamSnapshot noRole none = .ok noRoleSnapshot := by decide +kernel
  have ht : loadTeam twoRoles = .ok plannerTeam := by decide +kernel
  have ht' : loadTeam noRole = .ok plannerTeam := by decide +kernel
  have hsha : (lengthDigest twoRolesSnapshot.stream).take 16 =
      (lengthDigest noRoleSnapshot.stream).take 16 →
        twoRolesSnapshot.stream = noRoleSnapshot.stream := by decide +kernel
  refine ⟨by decide +kernel, ?_⟩
  refine (teamGeneration_identifies_iff lengthDigest none hs hs' ht ht' hsha).mpr ?_
  exact frames_eq_of_recut (readTeamSnapshot_eq_ok hs).1 (readTeamSnapshot_eq_ok hs').1
    (by decide +kernel) (by decide +kernel)

/-- One role file whose content reads like the two. -/
def oneRole : TeamDirectory := teamWith (rolesWith
  [("planner.md".toList, "x\x00roles/reviewer.md\x00y".toList)] (by decide) (by decide))

def oneRoleSnapshot : TeamSnapshot :=
  snapshotWith [("planner.md".toList, "x\x00roles/reviewer.md\x00y".toList)]

/-- Two accepted teams with different role files have one generation, whatever the digest. -/
theorem oneRole_same_generation :
    loadTeam twoRoles = .ok plannerTeam ∧ loadTeam oneRole = .ok plannerTeam ∧
      (∀ sha256 head, teamGeneration sha256 head twoRoles plannerTeam =
        teamGeneration sha256 head oneRole plannerTeam) ∧
      ¬ SameDefinition twoRoles oneRole plannerTeam plannerTeam := by
  have hs : readTeamSnapshot twoRoles none = .ok twoRolesSnapshot := by decide +kernel
  have hs' : readTeamSnapshot oneRole none = .ok oneRoleSnapshot := by decide +kernel
  have ht : loadTeam twoRoles = .ok plannerTeam := by decide +kernel
  have ht' : loadTeam oneRole = .ok plannerTeam := by decide +kernel
  refine ⟨ht, ht', ?_, ?_⟩
  · intro sha256 head
    have hstream : twoRolesSnapshot.stream = oneRoleSnapshot.stream := by decide +kernel
    rw [(teamGeneration_of_loadTeam sha256 head hs ht).2,
      (teamGeneration_of_loadTeam sha256 head hs' ht').2, hstream]
  · intro hsame
    have hrole := hsame.roles "reviewer.md".toList (by decide)
    have hsome : (twoRoles.readRole "reviewer.md".toList).isSome = true := by decide +kernel
    have hnone : (oneRole.readRole "reviewer.md".toList).isSome = false := by decide +kernel
    rw [hrole, hnone] at hsome
    contradiction

end Cyclo.Team
