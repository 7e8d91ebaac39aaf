import Cyclo.Runtime.Validity

/-! Teams are isolated from each other: what their components bind has nothing in common, but for
sources that they share on purpose. -/
namespace Cyclo.Runtime
open Python HostConf Dcomp

variable {site : Site}

theorem Canonical.spelled_eq {surroundings : Surroundings} {path : PurePath} (h : Canonical path) :
    spelled surroundings path = some path := by
  have hexpand : path.expanduser surroundings.home = some path := by
    unfold PurePath.expanduser
    split
    · exact if_neg fun hrelative => h.absolute hrelative.1
    · rfl
  have hjoin : surroundings.cwd.join path = path := by
    have habsolute : path.isAbsolute = true := decide_eq_true h.absolute
    unfold PurePath.join
    rw [if_pos habsolute]
  unfold spelled PurePath.abspath
  rw [hexpand, Option.map_some, hjoin, PurePath.normpath_of_plain h.plain]

/-- `path / name / …`, for plain names -/
theorem Canonical.join {path : PurePath} (h : Canonical path) {parts : List String}
    (hparts : ".." ∉ parts) : Canonical (path.join ⟨"", parts⟩) := by
  have hjoin : path.join ⟨"", parts⟩ = ⟨path.root, path.parts ++ parts⟩ := rfl
  rw [hjoin]
  refine ⟨h.absolute, fun hmem => ?_⟩
  rcases List.mem_append.mp hmem with hmem | hmem
  · exact h.plain hmem
  · exact hparts hmem

theorem join_mem_tree (path : PurePath) (parts : List String) : path.join ⟨"", parts⟩ ∈ path.tree :=
  PurePath.isRelativeTo_iff.mpr ⟨rfl, List.prefix_append _ _⟩

theorem mem_tree_trans {path middle other : PurePath} (h : middle ∈ path.tree)
    (h' : other ∈ middle.tree) : other ∈ path.tree := PurePath.isRelativeTo_trans h' h

theorem tree_subset {path middle : PurePath} (h : middle ∈ path.tree) : middle.tree ⊆ path.tree :=
  fun _ hother => mem_tree_trans h hother

/-- The directories of two instances have nothing in common. -/
theorem disjoint_instanceDir {left right : String} (hne : left ≠ right) :
    Disjoint (site.instanceDir left).tree (site.instanceDir right).tree := by
  rw [Set.disjoint_left]
  intro path hleft hright
  have hl := (PurePath.isRelativeTo_iff.mp hleft).2
  have hr := (PurePath.isRelativeTo_iff.mp hright).2
  have hlength : (site.instanceDir left).parts.length = (site.instanceDir right).parts.length := by
    unfold Site.instanceDir
    change (site.surroundings.stateRoot.parts ++ ["instances", left]).length =
      (site.surroundings.stateRoot.parts ++ ["instances", right]).length
    rw [List.length_append, List.length_append]
    rfl
  have hparts := (List.prefix_of_prefix_length_le hl hr hlength.le).eq_of_length hlength
  have hlast : ["instances", left] = ["instances", right] := List.append_cancel_left hparts
  exact hne (by simpa using hlast)

/-- The generation of a project is one plain name. -/
def PlainGeneration (record : StateStore.Record) : Prop :=
  PurePath.ofText record.fields.projectGeneration.text = ⟨"", [record.fields.projectGeneration.text]⟩ ∧
    record.fields.projectGeneration.text ≠ ".."

theorem hexdigest_ne (sha256 : Sha256) (raw : List UInt8) : sha256.hexdigest raw ≠ ".." := by
  intro he
  have hlength := sha256.length_hexdigest raw
  rw [he] at hlength
  exact absurd hlength (by decide)

theorem id_ne (record : StateStore.Record) : record.id ≠ ".." := by
  intro he
  have hvalid := record.validId
  rw [he] at hvalid
  exact absurd hvalid (by decide)

/-- What a team binds is a team or mount source, or a part of the directory of its instance. -/
theorem teamBinds_cases {record : StateStore.Record}
    (hgeneration : PlainGeneration record) {bound : Bound} {bind : Bind}
    (h : bind ∈ teamBinds site record bound.team bound.mounts) :
    bind.source ∈ bound.sources ∨
      Canonical bind.source ∧ bind.source ∈ (site.instanceDir record.id).tree := by
  have hdirectory : Canonical (site.instanceDir record.id) := by
    refine site.canonical.join fun hmem => ?_
    rw [List.mem_cons, List.mem_singleton] at hmem
    rcases hmem with hmem | hmem
    · exact absurd hmem (by decide)
    · exact id_ne record hmem.symm
  have hinside : ∀ parts : List String, ".." ∉ parts →
      Canonical ((site.instanceDir record.id).join ⟨"", parts⟩) ∧
        (site.instanceDir record.id).join ⟨"", parts⟩ ∈ (site.instanceDir record.id).tree :=
    fun parts hparts => ⟨hdirectory.join hparts, join_mem_tree _ _⟩
  have hjoin : ∀ first second : List String,
      ((site.instanceDir record.id).join ⟨"", first⟩).join ⟨"", second⟩ =
        (site.instanceDir record.id).join ⟨"", first ++ second⟩ := by
    intro first second
    change (⟨_, (_ ++ first) ++ second⟩ : PurePath) = ⟨_, _ ++ (first ++ second)⟩
    rw [List.append_assoc]
    rfl
  have hqueue : ∀ name, name ≠ ".." → Canonical ((site.queueRoot record.id).join ⟨"", [name]⟩) ∧
      (site.queueRoot record.id).join ⟨"", [name]⟩ ∈ (site.instanceDir record.id).tree := by
    intro name hname
    unfold Site.queueRoot
    rw [hjoin]
    refine hinside _ ?_
    simp [hname.symm]
  unfold teamBinds stateBinds at h
  rcases List.mem_append.mp h with h | h
  · rcases List.mem_append.mp h with h | h
    · simp only [List.mem_cons, List.not_mem_nil, or_false] at h
      right
      rcases h with rfl | rfl | rfl
      · exact hqueue "tasks" (by decide)
      · exact hqueue "jobs" (by decide)
      · exact hqueue "agents" (by decide)
    · simp only [List.mem_cons, List.not_mem_nil, or_false] at h
      rcases h with rfl | rfl | rfl | rfl
      · right
        unfold instanceFiles
        dsimp only
        rw [hgeneration.1, hjoin, hjoin]
        refine hinside _ ?_
        simp [hgeneration.2.symm]
      · right
        refine hinside _ ?_
        simp [(hexdigest_ne site.sha256 _).symm]
      · right
        exact hinside ["pi"] (by decide)
      · left
        exact List.mem_cons_self
  · left
    obtain ⟨mount, hmount, rfl⟩ := List.mem_map.mp h
    exact List.mem_cons_of_mem _ (List.mem_map_of_mem hmount)

/-- The trees of two paths have nothing in common as they are spelled. -/
def SpelledApart (surroundings : Surroundings) (left right : PurePath) : Prop :=
  ∃ l r, spelled surroundings left = some l ∧ spelled surroundings right = some r ∧
  Disjoint l.tree r.tree

theorem SpelledApart.symm {surroundings : Surroundings} {left right : PurePath}
    (h : SpelledApart surroundings left right) : SpelledApart surroundings right left := by
  obtain ⟨l, r, hl, hr, hdisjoint⟩ := h
  exact ⟨r, l, hr, hl, hdisjoint.symm⟩

/-- What lies in a directory is apart from what is apart from the directory. -/
theorem SpelledApart.mono {surroundings : Surroundings} {source directory inside : PurePath}
    (h : SpelledApart surroundings source directory) (hdirectory : Canonical directory)
    (hinside : Canonical inside) (hmem : inside ∈ directory.tree) :
    SpelledApart surroundings source inside := by
  obtain ⟨l, r, hl, hr, hdisjoint⟩ := h
  rw [hdirectory.spelled_eq] at hr
  cases hr
  exact ⟨l, inside, hl, hinside.spelled_eq, hdisjoint.mono_right (tree_subset hmem)⟩

/-- Two teams of a composition have nothing in common, but for whole sources outside the state of
Cyclo that both bind; and no source that a team binds overlaps that state. -/
theorem teams_isolated {images : HostImages} {instances : List StateStore.Record} {found : System}
    (h : system site images instances = .ok found) {left right : StateStore.Record}
    {component other : Component} (hleft : left ∈ activeOf instances)
    (hright : right ∈ activeOf instances) (hne : left.id ≠ right.id)
    (hgenerations : PlainGeneration left ∧ PlainGeneration right)
    (hcomponent : makeTeamComponent site left = .ok component)
    (hother : makeTeamComponent site right = .ok other) {bind : Bind} {bind' : Bind}
    (hbind : bind ∈ component.binds) (hbind' : bind' ∈ other.binds) :
    SpelledApart site.surroundings bind.source bind'.source ∨
      bind.source = bind'.source ∧ SpelledApart site.surroundings bind.source
        site.surroundings.stateRoot := by
  obtain ⟨haccepted, -⟩ := system_eq_ok h
  have hfields : left.fields ∈ (activeOf instances).map StateStore.Record.fields :=
    List.mem_map_of_mem hleft
  have hfields' : right.fields ∈ (activeOf instances).map StateStore.Record.fields :=
    List.mem_map_of_mem hright
  obtain ⟨bound, hread, hbinds⟩ := (makeTeamComponent_eq_ok hcomponent).binds
  obtain ⟨bound', hread', hbinds'⟩ := (makeTeamComponent_eq_ok hother).binds
  rw [hbinds] at hbind
  rw [hbinds'] at hbind'
  rcases validateInstances_eq_ok.mp haccepted with hnil | ⟨-, roots, hroots, hall⟩
  · rw [hnil] at hfields
    cases hfields
  obtain ⟨_, hok, hguarded, hcompatible⟩ := hall _ hfields
  rw [hread] at hok
  cases hok
  obtain ⟨_, hok', hguarded', -⟩ := hall _ hfields'
  rw [hread'] at hok'
  cases hok'
  have hstate : (site.surroundings.stateRoot, Label.text "Cyclo state") ∈ roots := by
    unfold protectedPaths at hroots
    obtain ⟨_, -, hroots⟩ := bind_eq_ok.mp hroots
    obtain ⟨_, -, hroots⟩ := bind_eq_ok.mp hroots
    cases hroots
    simp
  have hinside : ∀ {identifier : String},
      site.instanceDir identifier ∈ site.surroundings.stateRoot.tree :=
    fun {identifier} => join_mem_tree _ ["instances", identifier]
  rcases teamBinds_cases hgenerations.1 hbind with hsource | ⟨hcanonical, hmem⟩
  · have hapart : SpelledApart site.surroundings bind.source site.surroundings.stateRoot :=
      (hguarded _ hsource _ hstate).2
    rcases teamBinds_cases hgenerations.2 hbind' with hsource' | ⟨hcanonical', hmem'⟩
    · rcases (hcompatible _ hfields' _ hread').separate _ hsource _ hsource' with hsame | hseparate
      · exact Or.inr ⟨hsame, hapart⟩
      · exact Or.inl hseparate.2
    · exact Or.inl (hapart.mono site.canonical hcanonical' (mem_tree_trans hinside hmem'))
  · left
    rcases teamBinds_cases hgenerations.2 hbind' with hsource' | ⟨hcanonical', hmem'⟩
    · have hapart : SpelledApart site.surroundings bind'.source site.surroundings.stateRoot :=
        (hguarded' _ hsource' _ hstate).2
      exact (hapart.mono site.canonical hcanonical (mem_tree_trans hinside hmem)).symm
    · refine ⟨_, _, hcanonical.spelled_eq, hcanonical'.spelled_eq, ?_⟩
      exact (disjoint_instanceDir hne).mono (tree_subset hmem) (tree_subset hmem')

/-- A second team, of the same project. -/
def secondRecord : StateStore.Record :=
  ⟨{ offlineInstance with id := .str "beta" }, eq_ok_of_isOk (by decide +kernel)⟩

theorem makeTeamComponent_localSite (record : StateStore.Record)
    (h : isOk (makeTeamComponent localSite record) = true) :
    ∃ component, makeTeamComponent localSite record = .ok component := by
  cases hmade : makeTeamComponent localSite record with
  | error e =>
    rw [hmade] at h
    cases h
  | ok component => exact ⟨component, rfl⟩

theorem tasksDir_mem {record : StateStore.Record} {component : Component}
    (h : makeTeamComponent localSite record = .ok component) :
    (⟨localSite.tasksDir record.id, "/agentws/tasks", false⟩ : Bind) ∈ component.binds := by
  obtain ⟨bound, -, hbinds⟩ := (makeTeamComponent_eq_ok h).binds
  rw [hbinds]
  exact List.mem_cons_self

/-- Two teams that share their team directory and their mount do not share their tasks. -/
theorem localSite_isolated : SpelledApart localSite.surroundings (localSite.tasksDir "Alpha")
    (localSite.tasksDir "beta") := by
  have hcompiles : isOk (system localSite localImages [offlineRecord, secondRecord]) = true := by
    decide +kernel
  have hgeneration : PlainGeneration offlineRecord ∧ PlainGeneration secondRecord := by
    have hplain : PurePath.ofText "p1" = ⟨"", ["p1"]⟩ ∧ "p1" ≠ ".." := by decide +kernel
    exact ⟨hplain, hplain⟩
  obtain ⟨component, hcomponent⟩ := makeTeamComponent_localSite offlineRecord (by decide +kernel)
  obtain ⟨other, hother⟩ := makeTeamComponent_localSite secondRecord (by decide +kernel)
  cases hsystem : system localSite localImages [offlineRecord, secondRecord] with
  | error e =>
    rw [hsystem] at hcompiles
    cases hcompiles
  | ok found =>
    have hisolated := teams_isolated hsystem
      (mem_activeOf.mpr ⟨List.mem_cons_self, by decide⟩)
      (mem_activeOf.mpr ⟨List.mem_cons_of_mem _ List.mem_cons_self, by decide⟩) (by decide) hgeneration
      hcomponent hother (tasksDir_mem hcomponent) (tasksDir_mem hother)
    exact hisolated.resolve_right fun hsame => absurd hsame.1 (by decide)

end Cyclo.Runtime
