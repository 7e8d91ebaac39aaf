import Cyclo.Runtime.Mounts
import Cyclo.StateStore.Instance
import Mathlib.Data.List.Pairwise

/-! The recheck of the trees that running instances bind, before any of them is handed to the container
runtime. -/
namespace Cyclo.Runtime
open Python HostConf

/-- `ProjectMount`, as far as an instance keeps it. -/
structure Mount where
  name : String
  path : PurePath
  readOnly : Bool

/-- One entry of `project_mounts` that has no issue. -/
def decodeMount : StateStore.Value → Option Mount
  | .dict mount =>
    match mount.lookup "name", mount.lookup "path", mount.lookup "mode" with
    | some (.str name), some (.str path), some (.str mode) => some ⟨name, .ofText path, mode = "ro"⟩
    | _, _, _ => none
  | _ => none

def decodedMounts (i : StateStore.Instance) : List Mount :=
  match i.projectMounts with
  | .list mounts => mounts.filterMap decodeMount
  | _ => []

/-- The mounts of `decode_instance_project(instance).require_valid()` -/
def requireValid (i : StateStore.Instance) : Except Refusal (List Mount) :=
  match StateStore.decodeInstanceProject i with
  | .ok [] => .ok (decodedMounts i)
  | .ok _ => .error (.project i.id.text)
  | .error _ => .error .raised

/-- What one instance binds. -/
structure Bound where
  identifier : String
  projectName : String
  /-- The project file and its generation. -/
  key : String × String
  team : PurePath
  mounts : List Mount

variable (surroundings : Surroundings)

/-- The part of the loop of `validate_instances` that may raise. -/
def readInstance (i : StateStore.Instance) : Except Refusal Bound := do
  let mounts ← requireValid i
  -- `Path` raises for anything else
  demand (i.teamPath.isStr = true) .raised
  match surroundings.resolveStrict (.ofText i.teamPath.text) with
  | none => throw (.teamPath i.id.text)
  | some team =>
    return ⟨i.id.text, i.projectName.text, (i.projectFile.text, i.projectGeneration.text),
      team, mounts⟩

/-- The dictionaries of the teams and of the mounts. -/
structure Sources where
  teams : List (PurePath × Label)
  mounts : List (PurePath × Label)

/-- `found.setdefault(path, label)` -/
def setDefault (found : List (PurePath × Label)) (path : PurePath) (label : Label) :
    List (PurePath × Label) :=
  if path ∈ found.map Prod.fst then found else found ++ [(path, label)]

def Sources.add (sources : Sources) (bound : Bound) : Sources where
  teams := setDefault sources.teams bound.team (.instanceTeam bound.identifier)
  mounts := bound.mounts.foldl
    (fun found mount => setDefault found mount.path (.instanceMount mount.name bound.projectName))
      sources.mounts

def Sources.empty : Sources := ⟨[], []⟩

/-- `groups.setdefault(key, ({}, {}))`, and the two dictionaries of the group with one more
instance. -/
def addToGroup (bound : Bound) : List ((String × String) × Sources) →
    List ((String × String) × Sources)
  | [] => [(bound.key, Sources.empty.add bound)]
  | (key, sources) :: groups =>
    if key = bound.key then (key, sources.add bound) :: groups
    else (key, sources) :: addToGroup bound groups

def groupsOf (bounds : List Bound) : List ((String × String) × Sources) :=
  bounds.foldl (fun groups bound => addToGroup bound groups) []

def allOf (bounds : List Bound) : Sources := bounds.foldl Sources.add .empty

def validateInstances (instances : List StateStore.Instance) : Except Refusal Unit := do
  demand (instances = [] ∨ surroundings.isRoot = false) .root
  let bounds ← instances.mapM (readInstance surroundings)
  match groupsOf bounds with
  | [] => return ()
  | groups =>
    groups.forM fun (_, sources) => validateMountAuthority surroundings sources.teams sources.mounts
    let all := allOf bounds
    validateStrictSourceRootSeparation surroundings (all.teams ++ all.mounts)
    validateTeamMountSeparation surroundings all.teams all.mounts

variable {surroundings} {bound : Bound} {bounds : List Bound} {path : PurePath} {label : Label}
  {found : List (PurePath × Label)}

/-- The paths of a dictionary. -/
def paths (found : List (PurePath × Label)) : List PurePath := found.map Prod.fst

theorem mem_paths_setDefault {other : PurePath} :
    other ∈ paths (setDefault found path label) ↔ other ∈ paths found ∨ other = path := by
  unfold setDefault
  split_ifs with h
  · refine (or_iff_left_of_imp fun he => ?_).symm
    rw [he]
    exact h
  · unfold paths
    rw [List.map_append, List.mem_append, List.map_singleton, List.mem_singleton]

theorem nodup_paths_setDefault (h : (paths found).Nodup) :
    (paths (setDefault found path label)).Nodup := by
  unfold setDefault
  split_ifs with hfound
  · exact h
  · unfold paths
    rw [List.map_append, List.nodup_append]
    refine ⟨h, List.nodup_singleton _, fun other hother last hlast => ?_⟩
    rw [List.map_singleton, List.mem_singleton] at hlast
    intro he
    rw [hlast] at he
    rw [he] at hother
    exact hfound hother

/-- All paths that an instance binds. -/
def Bound.sources (bound : Bound) : List PurePath := bound.team :: bound.mounts.map Mount.path

structure Sources.Of (sources : Sources) (bounds : List Bound) : Prop where
  teamsNodup : (paths sources.teams).Nodup
  mountsNodup : (paths sources.mounts).Nodup
  mem_teams : ∀ path, path ∈ paths sources.teams ↔ ∃ bound ∈ bounds, path = bound.team
  mem_mounts : ∀ path, path ∈ paths sources.mounts ↔
    ∃ bound ∈ bounds, path ∈ bound.mounts.map Mount.path

theorem Sources.empty_of : Sources.empty.Of [] where
  teamsNodup := List.nodup_nil
  mountsNodup := List.nodup_nil
  mem_teams path := by simp [Sources.empty, paths]
  mem_mounts path := by simp [Sources.empty, paths]

theorem addMounts (mounts : List Mount) (project : String) (h : (paths found).Nodup) :
    (paths (mounts.foldl (fun found mount =>
      setDefault found mount.path (.instanceMount mount.name project)) found)).Nodup ∧
    ∀ path, path ∈ paths (mounts.foldl
      (fun found mount => setDefault found mount.path (.instanceMount mount.name project)) found) ↔
        path ∈ paths found ∨ path ∈ mounts.map Mount.path := by
  induction mounts generalizing found with
  | nil => exact ⟨h, fun path => by simp⟩
  | cons mount mounts ih =>
    have hnodup : (paths (setDefault found mount.path (.instanceMount mount.name project))).Nodup :=
      nodup_paths_setDefault h
    have hrest := ih hnodup
    refine ⟨hrest.1, fun path => ?_⟩
    rw [List.foldl_cons, hrest.2, mem_paths_setDefault, List.map_cons, List.mem_cons, or_assoc]

theorem Sources.Of.add {sources : Sources} (h : sources.Of bounds) (bound : Bound) :
    (sources.add bound).Of (bounds ++ [bound]) := by
  have hmounts := addMounts bound.mounts bound.projectName h.mountsNodup
  constructor
  · exact nodup_paths_setDefault h.teamsNodup
  · exact hmounts.1
  · intro path
    unfold Sources.add
    rw [mem_paths_setDefault, h.mem_teams]
    simp [or_and_right, exists_or]
  · intro path
    unfold Sources.add
    rw [hmounts.2, h.mem_mounts]
    simp [or_and_right, exists_or]

theorem foldl_add_of {sources : Sources} {done : List Bound} (h : sources.Of done)
    (bounds : List Bound) : (bounds.foldl Sources.add sources).Of (done ++ bounds) := by
  induction bounds generalizing sources done with
  | nil =>
    rw [List.append_nil]
    exact h
  | cons bound bounds ih =>
    have hrest := ih (h.add bound)
    rw [List.append_assoc] at hrest
    exact hrest

theorem allOf_of (bounds : List Bound) : (allOf bounds).Of bounds :=
  foldl_add_of Sources.empty_of bounds

/-- Every group is of some of the instances, and every instance is in a group. -/
structure Grouped (groups : List ((String × String) × Sources)) (bounds : List Bound) : Prop where
  sound : ∀ group ∈ groups, ∃ members, group.2.Of members ∧ members ⊆ bounds
  complete : ∀ bound ∈ bounds, ∃ group ∈ groups, ∃ members, group.2.Of members ∧ bound ∈ members

/-- One group has the new instance, and the others are as they were. -/
theorem addToGroup_eq (bound : Bound) (groups : List ((String × String) × Sources)) :
    ∃ before after key sources, (groups = before ++ (key, sources) :: after ∨
        groups = before ∧ after = [] ∧ sources = .empty) ∧
      addToGroup bound groups = before ++ (key, sources.add bound) :: after := by
  induction groups with
  | nil => exact ⟨[], [], bound.key, .empty, Or.inr ⟨rfl, rfl, rfl⟩, rfl⟩
  | cons group groups ih =>
    unfold addToGroup
    split_ifs with hkey
    · exact ⟨[], groups, group.1, group.2, Or.inl rfl, rfl⟩
    · obtain ⟨before, after, key, sources, hgroups, hadd⟩ := ih
      refine ⟨group :: before, after, key, sources, ?_, ?_⟩
      · rcases hgroups with hgroups | ⟨hgroups, hafter, hempty⟩
        · left
          rw [hgroups]
          rfl
        · right
          rw [hgroups]
          exact ⟨rfl, hafter, hempty⟩
      · rw [hadd]
        rfl

theorem Grouped.add {groups : List ((String × String) × Sources)} (h : Grouped groups bounds)
    (bound : Bound) : Grouped (addToGroup bound groups) (bounds ++ [bound]) := by
  obtain ⟨before, after, key, sources, hgroups, hadd⟩ := addToGroup_eq bound groups
  have hsources : ∃ members, sources.Of members ∧ members ⊆ bounds ∧
      ∀ group ∈ groups, group ∈ before ++ after ∨ group.2 = sources := by
    rcases hgroups with hgroups | ⟨hgroups, hafter, hempty⟩
    · obtain ⟨members, hof, hsubset⟩ := h.sound (key, sources) (by rw [hgroups]; simp)
      refine ⟨members, hof, hsubset, fun group hgroup => ?_⟩
      rw [hgroups, List.mem_append, List.mem_cons] at hgroup
      rcases hgroup with hgroup | rfl | hgroup
      · exact Or.inl (List.mem_append_left _ hgroup)
      · exact Or.inr rfl
      · exact Or.inl (List.mem_append_right _ hgroup)
    · rw [hempty]
      refine ⟨[], Sources.empty_of, List.nil_subset _, fun group hgroup => Or.inl ?_⟩
      rw [hgroups] at hgroup
      exact List.mem_append_left _ hgroup
  obtain ⟨members, hof, hsubset, hother⟩ := hsources
  have hkept : ∀ group ∈ before ++ after, group ∈ groups := by
    intro group hgroup
    rcases hgroups with hgroups | ⟨hgroups, hafter, -⟩
    · rw [hgroups]
      rw [List.mem_append] at hgroup
      exact List.mem_append.mpr (hgroup.imp_right (List.mem_cons_of_mem _))
    · rw [hafter, List.append_nil] at hgroup
      rw [hgroups]
      exact hgroup
  rw [hadd]
  constructor
  · intro group hgroup
    rw [List.mem_append, List.mem_cons] at hgroup
    have hcases : group ∈ before ++ after ∨ group = (key, sources.add bound) := by
      rw [List.mem_append]
      tauto
    rcases hcases with hgroup | rfl
    · obtain ⟨others, hothers, hsub⟩ := h.sound group (hkept group hgroup)
      exact ⟨others, hothers, fun b hb => List.mem_append_left _ (hsub hb)⟩
    · refine ⟨members ++ [bound], hof.add bound, fun b hb => ?_⟩
      rw [List.mem_append] at hb
      exact List.mem_append.mpr (hb.imp_left fun hb => hsubset hb)
  · have hnew : (key, sources.add bound) ∈ before ++ (key, sources.add bound) :: after := by simp
    intro b hb
    rw [List.mem_append, List.mem_singleton] at hb
    rcases hb with hb | rfl
    · obtain ⟨group, hgroup, others, hothers, hmem⟩ := h.complete b hb
      rcases hother group hgroup with hgroup | hsame
      · refine ⟨group, ?_, others, hothers, hmem⟩
        rw [List.mem_append] at hgroup
        exact List.mem_append.mpr (hgroup.imp_right (List.mem_cons_of_mem _))
      · rw [hsame] at hothers
        exact ⟨_, hnew, others ++ [bound], hothers.add bound, List.mem_append_left _ hmem⟩
    · exact ⟨_, hnew, members ++ [b], hof.add b, by simp⟩

theorem groupsOf_grouped (bounds : List Bound) : Grouped (groupsOf bounds) bounds := by
  have hfold : ∀ (rest done : List Bound) groups, Grouped groups done →
      Grouped (rest.foldl (fun groups bound => addToGroup bound groups) groups) (done ++ rest) := by
    intro rest
    induction rest with
    | nil =>
      intro done groups h
      rw [List.append_nil]
      exact h
    | cons bound rest ih =>
      intro done groups h
      have hrest := ih _ _ (h.add bound)
      rw [List.append_assoc] at hrest
      exact hrest
  exact hfold bounds [] [] ⟨List.forall_mem_nil _, List.forall_mem_nil _⟩

theorem groupsOf_eq_nil : groupsOf bounds = [] ↔ bounds = [] := by
  constructor
  · intro h
    refine List.eq_nil_iff_forall_not_mem.mpr fun bound hbound => ?_
    obtain ⟨group, hgroup, -⟩ := (groupsOf_grouped bounds).complete bound hbound
    rw [h] at hgroup
    exact List.not_mem_nil hgroup
  · intro h
    rw [h]
    rfl

variable (surroundings) in
/-- An instance binds nothing of what is protected. -/
def Guarded (roots : List (PurePath × Label)) (bound : Bound) : Prop :=
  ∀ path ∈ bound.sources, ∀ root ∈ roots, Apart surroundings path root.1

variable (surroundings) in
/-- What two instances bind is the same tree or apart, and a team is apart from every mount. -/
structure Compatible (left right : Bound) : Prop where
  separate : ∀ path ∈ left.sources, ∀ other ∈ right.sources, path = other ∨
    Apart surroundings path other
  team : ∀ mount ∈ right.mounts, Apart surroundings left.team mount.path

theorem Sources.Of.mem_sources {sources : Sources} (h : sources.Of bounds) :
    path ∈ paths (sources.teams ++ sources.mounts) ↔ ∃ bound ∈ bounds, path ∈ bound.sources := by
  unfold paths
  rw [List.map_append, List.mem_append]
  have hteams := h.mem_teams path
  have hmounts := h.mem_mounts path
  unfold paths at hteams hmounts
  rw [hteams, hmounts]
  unfold Bound.sources
  simp only [List.mem_cons]
  constructor
  · rintro (⟨bound, hbound, rfl⟩ | ⟨bound, hbound, hpath⟩)
    · exact ⟨bound, hbound, Or.inl rfl⟩
    · exact ⟨bound, hbound, Or.inr hpath⟩
  · rintro ⟨bound, hbound, rfl | hpath⟩
    · exact Or.inl ⟨bound, hbound, rfl⟩
    · exact Or.inr ⟨bound, hbound, hpath⟩

/-- Two dictionaries have trees that are apart when the instances are compatible. -/
theorem Sources.Of.pairwise {sources : Sources} (h : sources.Of bounds)
    (hcompatible : ∀ left ∈ bounds, ∀ right ∈ bounds, Compatible surroundings left right) :
    (sources.teams ++ sources.mounts).Pairwise fun left right =>
      Apart surroundings left.1 right.1 := by
  have hdistinct : ∀ {found : List (PurePath × Label)}, (paths found).Nodup →
      (∀ entry ∈ found, entry.1 ∈ paths (sources.teams ++ sources.mounts)) →
      found.Pairwise fun left right => Apart surroundings left.1 right.1 := by
    intro found hnodup hsources
    refine (List.pairwise_map.mp hnodup).imp_of_mem fun {left right} hleft hright hne => ?_
    obtain ⟨b, hb, hpath⟩ := h.mem_sources.mp (hsources left hleft)
    obtain ⟨c, hc, hother⟩ := h.mem_sources.mp (hsources right hright)
    exact ((hcompatible b hb c hc).separate _ hpath _ hother).resolve_left hne
  refine List.pairwise_append.mpr ⟨hdistinct h.teamsNodup ?_, hdistinct h.mountsNodup ?_, ?_⟩
  · exact fun entry hentry => List.mem_map_of_mem (List.mem_append_left _ hentry)
  · exact fun entry hentry => List.mem_map_of_mem (List.mem_append_right _ hentry)
  · intro team hteam mount hmount
    obtain ⟨b, hb, hpath⟩ := (h.mem_teams team.1).mp (List.mem_map_of_mem hteam)
    obtain ⟨c, hc, hother⟩ := (h.mem_mounts mount.1).mp (List.mem_map_of_mem hmount)
    obtain ⟨m, hm, hmpath⟩ := List.mem_map.mp hother
    rw [hpath, ← hmpath]
    exact (hcompatible b hb c hc).team m hm

theorem Sources.Of.compatible {sources : Sources} (h : sources.Of bounds)
    (hstrict : validateStrictSourceRootSeparation surroundings (sources.teams ++ sources.mounts) =
      .ok ())
    (hteams : validateTeamMountSeparation surroundings sources.teams sources.mounts = .ok ())
    {left right : Bound} (hleft : left ∈ bounds) (hright : right ∈ bounds) :
    Compatible surroundings left right := by
  rw [validateStrictSourceRootSeparation_eq_ok] at hstrict
  rw [validateTeamMountSeparation_eq_ok] at hteams
  constructor
  · intro path hpath other hother
    obtain ⟨entry, hentry, rfl⟩ := List.mem_map.mp (h.mem_sources.mpr ⟨left, hleft, hpath⟩)
    obtain ⟨entry', hentry', rfl⟩ := List.mem_map.mp (h.mem_sources.mpr ⟨right, hright, hother⟩)
    let Related (left right : PurePath × Label) : Prop :=
      left.1 = right.1 ∨ Apart surroundings left.1 right.1
    have hsymm : Std.Symm Related := ⟨fun _ _ h => h.imp Eq.symm Apart.symm⟩
    exact List.Pairwise.forall_of_forall (R := Related) (fun _ _ => Or.inl rfl) hstrict hentry hentry'
  · intro mount hmount
    obtain ⟨team, hteam, hpath⟩ := List.mem_map.mp ((h.mem_teams left.team).mpr ⟨left, hleft, rfl⟩)
    obtain ⟨entry, hentry, hother⟩ :=
      List.mem_map.mp ((h.mem_mounts mount.path).mpr ⟨right, hright, List.mem_map_of_mem hmount⟩)
    rw [← hpath, ← hother]
    exact hteams team hteam entry hentry

/-- The three checks together ask for no more than that every instance is guarded and that any two
of them are compatible. -/
theorem checks_eq_ok (hne : bounds ≠ []) :
    ((groupsOf bounds).forM
        (fun (_, sources) => validateMountAuthority surroundings sources.teams sources.mounts) =
          .ok () ∧
      validateStrictSourceRootSeparation surroundings ((allOf bounds).teams ++
        (allOf bounds).mounts) = .ok () ∧
      validateTeamMountSeparation surroundings (allOf bounds).teams (allOf bounds).mounts = .ok ()) ↔
    ∃ roots, protectedPaths surroundings = .ok roots ∧
    (∀ bound ∈ bounds, Guarded surroundings roots bound) ∧
      ∀ left ∈ bounds, ∀ right ∈ bounds, Compatible surroundings left right := by
  have hgrouped := groupsOf_grouped bounds
  have hall := allOf_of bounds
  rw [forM_eq_ok]
  constructor
  · intro h
    obtain ⟨hgroups, hstrict, hteams⟩ := h
    have hroots : ∀ bound ∈ bounds, ∃ roots, protectedPaths surroundings = .ok roots ∧
        Guarded surroundings roots bound := by
      intro bound hbound
      obtain ⟨group, hgroup, members, hof, hmem⟩ := hgrouped.complete bound hbound
      obtain ⟨-, roots, hroots, hprotected⟩ := validateMountAuthority_eq_ok.mp (hgroups group hgroup)
      refine ⟨roots, hroots, fun path hpath root hroot => ?_⟩
      obtain ⟨entry, hentry, rfl⟩ := List.mem_map.mp (hof.mem_sources.mpr ⟨bound, hmem, hpath⟩)
      exact hprotected entry hentry root hroot
    obtain ⟨first, hfirst⟩ := List.exists_mem_of_ne_nil bounds hne
    obtain ⟨roots, hok, -⟩ := hroots first hfirst
    refine ⟨roots, hok, fun bound hbound => ?_, fun left hleft right hright => ?_⟩
    · obtain ⟨roots', hok', hguarded⟩ := hroots bound hbound
      rw [hok] at hok'
      cases hok'
      exact hguarded
    · exact hall.compatible hstrict hteams hleft hright
  · intro h
    obtain ⟨roots, hroots, hguarded, hcompatible⟩ := h
    refine ⟨fun group hgroup => ?_, ?_, ?_⟩
    · obtain ⟨members, hof, hsubset⟩ := hgrouped.sound group hgroup
      have hpairwise := hof.pairwise fun left hleft right hright =>
        hcompatible left (hsubset hleft) right (hsubset hright)
      refine validateMountAuthority_eq_ok.mpr ⟨hpairwise, roots, hroots,
        fun mounted hmounted root hroot => ?_⟩
      obtain ⟨bound, hbound, hpath⟩ := hof.mem_sources.mp (List.mem_map_of_mem hmounted)
      exact hguarded bound (hsubset hbound) _ hpath root hroot
    · refine validateStrictSourceRootSeparation_eq_ok.mpr
        ((hall.pairwise hcompatible).imp fun hapart => ?_)
      exact Or.inr hapart
    · refine validateTeamMountSeparation_eq_ok.mpr fun team hteam mount hmount => ?_
      exact (List.pairwise_append.mp (hall.pairwise hcompatible)).2.2 team hteam mount hmount

theorem validateInstances_of_read {instances : List StateStore.Instance} (hne : instances ≠ [])
    (hread : instances.Forall₂ (fun i bound => readInstance surroundings i = .ok bound) bounds) :
    validateInstances surroundings instances = .ok () ↔
      surroundings.isRoot = false ∧ ∃ roots, protectedPaths surroundings = .ok roots ∧
        (∀ bound ∈ bounds, Guarded surroundings roots bound) ∧
          ∀ left ∈ bounds, ∀ right ∈ bounds, Compatible surroundings left right := by
  have hbounds : bounds ≠ [] := by
    intro hnil
    rw [hnil] at hread
    cases hread
    exact hne rfl
  have hgroups : groupsOf bounds ≠ [] := fun h => hbounds (groupsOf_eq_nil.mp h)
  rw [← checks_eq_ok hbounds]
  unfold validateInstances
  rw [mapM_eq_ok.mpr hread]
  by_cases hroot : surroundings.isRoot = false
  · rw [and_iff_right hroot, demand_eq_ok.mpr (Or.inr hroot), ok_bind, ok_bind]
    cases hgroup : groupsOf bounds with
    | nil => exact absurd hgroup hgroups
    | cons group groups =>
      constructor
      · intro h
        obtain ⟨_, hfirst, h⟩ := bind_eq_ok.mp h
        obtain ⟨_, hsecond, h⟩ := bind_eq_ok.mp h
        exact ⟨hfirst, hsecond, h⟩
      · intro h
        exact bind_eq_ok.mpr ⟨(), h.1, bind_eq_ok.mpr ⟨(), h.2.1, h.2.2⟩⟩
  · refine iff_of_false (fun h => ?_) fun h => hroot h.1
    obtain ⟨_, hdemand, -⟩ := bind_eq_ok.mp h
    rcases demand_eq_ok.mp hdemand with hnil | hroot'
    · exact hne hnil
    · exact hroot hroot'

/-- Instances are accepted when each of them can be read and is guarded and any two of them are
compatible, however they are listed and grouped into projects. -/
theorem validateInstances_eq_ok {instances : List StateStore.Instance} :
    validateInstances surroundings instances = .ok () ↔ instances = [] ∨
      surroundings.isRoot = false ∧ ∃ roots, protectedPaths surroundings = .ok roots ∧
        ∀ i ∈ instances, ∃ bound, readInstance surroundings i = .ok bound ∧
        Guarded surroundings roots bound ∧
          ∀ j ∈ instances, ∀ other, readInstance surroundings j = .ok other →
          Compatible surroundings bound other := by
  by_cases hne : instances = []
  · rw [hne]
    exact iff_of_true rfl (Or.inl rfl)
  rw [or_iff_right hne]
  constructor
  · intro h
    obtain ⟨_, -, hrest⟩ := bind_eq_ok.mp h
    obtain ⟨bounds, hbounds, -⟩ := bind_eq_ok.mp hrest
    have hread := mapM_eq_ok.mp hbounds
    obtain ⟨hroot, roots, hroots, hguarded, hcompatible⟩ := (validateInstances_of_read hne hread).mp h
    refine ⟨hroot, roots, hroots, fun i hi => ?_⟩
    obtain ⟨bound, hbound, hok⟩ := (mem_of_forall₂ hread).2 i hi
    refine ⟨bound, hok, hguarded bound hbound, fun j hj other hother => ?_⟩
    obtain ⟨other', hother', hok'⟩ := (mem_of_forall₂ hread).2 j hj
    rw [hother] at hok'
    cases hok'
    exact hcompatible bound hbound other hother'
  · intro h
    obtain ⟨hroot, roots, hroots, h⟩ := h
    obtain ⟨bounds, hbounds⟩ := mapM_returns.mpr fun i hi => (h i hi).imp fun _ hb => hb.1
    have hread := mapM_eq_ok.mp hbounds
    have hback : ∀ bound ∈ bounds, ∃ i ∈ instances, readInstance surroundings i = .ok bound ∧
        Guarded surroundings roots bound ∧ ∀ j ∈ instances, ∀ other,
          readInstance surroundings j = .ok other → Compatible surroundings bound other := by
      intro bound hbound
      obtain ⟨i, hi, hok⟩ := (mem_of_forall₂ hread).1 bound hbound
      obtain ⟨bound', hok', hrest⟩ := h i hi
      rw [hok] at hok'
      cases hok'
      exact ⟨i, hi, hok, hrest⟩
    refine (validateInstances_of_read hne hread).mpr ⟨hroot, roots, hroots, fun bound hbound => ?_, ?_⟩
    · obtain ⟨_, _, _, hguarded, -⟩ := hback bound hbound
      exact hguarded
    · intro left hleft right hright
      obtain ⟨_, _, _, -, hcompatible⟩ := hback left hleft
      obtain ⟨j, hj, hok, -⟩ := hback right hright
      exact hcompatible j hj right hok

/-- Instances are accepted together when any two of them are, in whatever order: no check depends on
a third instance. -/
theorem validateInstances_pairs {instances : List StateStore.Instance} :
    validateInstances surroundings instances = .ok () ↔
      ∀ i ∈ instances, ∀ j ∈ instances, validateInstances surroundings [i, j] = .ok () := by
  have hne : ∀ i j : StateStore.Instance, [i, j] ≠ [] := fun i j => List.cons_ne_nil i [j]
  constructor
  · intro h i hi j hj
    rcases validateInstances_eq_ok.mp h with hnil | ⟨hroot, roots, hroots, h⟩
    · rw [hnil] at hi
      exact absurd hi List.not_mem_nil
    have hmem : ∀ k ∈ [i, j], k ∈ instances := by
      intro k hk
      rw [List.mem_cons, List.mem_singleton] at hk
      rcases hk with rfl | rfl
      · exact hi
      · exact hj
    refine validateInstances_eq_ok.mpr (Or.inr ⟨hroot, roots, hroots, fun k hk => ?_⟩)
    obtain ⟨bound, hok, hguarded, hcompatible⟩ := h k (hmem k hk)
    exact ⟨bound, hok, hguarded, fun l hl => hcompatible l (hmem l hl)⟩
  · intro h
    by_cases hnil : instances = []
    · exact validateInstances_eq_ok.mpr (Or.inl hnil)
    have hpair : ∀ i ∈ instances, ∀ j ∈ instances, surroundings.isRoot = false ∧
        ∃ roots, protectedPaths surroundings = .ok roots ∧ ∀ k ∈ [i, j], ∃ bound,
          readInstance surroundings k = .ok bound ∧ Guarded surroundings roots bound ∧
          ∀ l ∈ [i, j], ∀ other,
            readInstance surroundings l = .ok other → Compatible surroundings bound other := by
      intro i hi j hj
      exact (validateInstances_eq_ok.mp (h i hi j hj)).resolve_left (hne i j)
    obtain ⟨first, hfirst⟩ := List.exists_mem_of_ne_nil instances hnil
    obtain ⟨hroot, roots, hroots, -⟩ := hpair first hfirst first hfirst
    refine validateInstances_eq_ok.mpr (Or.inr ⟨hroot, roots, hroots, fun i hi => ?_⟩)
    obtain ⟨-, roots', hroots', hi'⟩ := hpair i hi i hi
    rw [hroots] at hroots'
    cases hroots'
    obtain ⟨bound, hok, hguarded, -⟩ := hi' i List.mem_cons_self
    refine ⟨bound, hok, hguarded, fun j hj other hother => ?_⟩
    obtain ⟨-, _, -, hij⟩ := hpair i hi j hj
    obtain ⟨bound', hok', -, hcompatible⟩ := hij i List.mem_cons_self
    rw [hok] at hok'
    cases hok'
    exact hcompatible j (List.mem_cons_of_mem _ List.mem_cons_self) other hother

end Cyclo.Runtime
