import Cyclo.HostConf.Definition

/-! Which trees of the host may be bound into a container: those that overlap neither each other nor
what Cyclo itself rests on. -/
namespace Cyclo.Runtime
open Python HostConf

/-- What a path is, in the text of an error. -/
inductive Label where
  | instanceTeam (identifier : String)
  | instanceMount (name project : String)
  | text (value : String)
  | providerSource (name : String)
  deriving DecidableEq

/-- Why paths are refused. The exceptions of the host have no text of their own. -/
inductive Refusal where
  | raised
  | root
  | socketPath
  | project (identifier : String)
  | teamPath (identifier : String)
  | notSeparate (left right : PurePath × Label)
  | protects (mounted path : PurePath × Label)
  | contains (left right : PurePath × Label)
  | noSeparateTeam (team mount : PurePath × Label)
  | missingProviderImage (name : String)
  | missingComponentImage (name : String)
  | mutableImage (identifier : String)
  | materializing (identifier : String)
  | roster (identifier : String)
  | componentName (label value : String)
  | providerOutput (name : String)
  deriving DecidableEq

/-- The host that the paths are of. -/
structure Surroundings where
  /-- `path.resolve()`, which raises where links form a circle. -/
  resolve : PurePath → Option PurePath
  resolveStrict : PurePath → Option PurePath
  /-- What a first component such as `~` stands for. -/
  home : String → Option PurePath
  cwd : PurePath
  isRoot : Bool
  uid : ℕ
  /-- `XDG_RUNTIME_DIR`, empty where it is not set. -/
  runtimeDirectory : String
  /-- `unix_socket_from_endpoint` of the endpoint in use, which may raise. -/
  endpointSocket : Option (Option PurePath)
  stateRoot : PurePath
  packageRoot : PurePath
  host : Host
  dcompExecutable : Option String

variable (surroundings : Surroundings)

/-- A call of the host that may raise. -/
def asked {α : Type} : Option α → Except Refusal α
  | some value => .ok value
  | none => .error .raised

/-- `paths_overlap` -/
def pathsOverlap (left right : PurePath) : Except Refusal Bool := do
  let left ← asked (surroundings.resolve left)
  let right ← asked (surroundings.resolve right)
  return PurePath.overlap left right

/-- `Path(os.path.abspath(path.expanduser()))` -/
def spelled (path : PurePath) : Option PurePath :=
  (path.expanduser surroundings.home).map (PurePath.abspath surroundings.cwd)

/-- `paths_overlap_lexically` -/
def pathsOverlapLexically (left right : PurePath) : Except Refusal Bool := do
  let left ← asked (spelled surroundings left)
  let right ← asked (spelled surroundings right)
  return PurePath.overlap left right

/-- `if paths_overlap(…) or paths_overlap_lexically(…): raise` -/
def keepApart (left right : PurePath) (refusal : Refusal) : Except Refusal Unit := do
  if ← pathsOverlap surroundings left right then throw refusal
  else if ← pathsOverlapLexically surroundings left right then throw refusal

/-- `combinations(values, 2)` -/
def forPairs {α : Type} (check : α → α → Except Refusal Unit) : List α → Except Refusal Unit
  | [] => .ok ()
  | value :: values => do
    values.forM (check value)
    forPairs check values

/-- `HOST_PSEUDO_FILESYSTEMS` -/
def hostPseudoFilesystems : List (PurePath × Label) :=
  [(⟨"/", ["proc"]⟩, .text "host process filesystem"),
    (⟨"/", ["sys"]⟩, .text "host system filesystem"),
    (⟨"/", ["dev"]⟩, .text "host device filesystem"),
    (⟨"/", ["run"]⟩, .text "host runtime filesystem")]

/-- The paths that a Docker socket may have, before they are resolved. -/
def socketCandidates : Except Refusal (List PurePath) := do
  let home ← asked (surroundings.home "~")
  let runtime ←
    if surroundings.runtimeDirectory = "" then pure []
    else do
      let directory ← asked ((PurePath.ofText surroundings.runtimeDirectory).expanduser
          surroundings.home)
      pure [directory.join ⟨"", ["docker.sock"]⟩]
  let selected ← asked surroundings.endpointSocket
  return [⟨"/", ["var", "run", "docker.sock"]⟩,
    ⟨"/", ["run", "user", toString surroundings.uid, "docker.sock"]⟩,
    home.join ⟨"", [".docker", "run", "docker.sock"]⟩] ++ runtime ++ selected.toList

/-- `docker_socket_paths` -/
def dockerSocketPaths : Except Refusal (List PurePath) := do
  let candidates ← socketCandidates surroundings
  let resolved ← candidates.mapM fun candidate =>
    match surroundings.resolve candidate with
    | some path => .ok path
    | none => .error .socketPath
  return resolved.foldl (fun found path => if path ∈ found then found else found ++ [path]) []

/-- `trusted_host_roots` -/
def trustedHostRoots : List (PurePath × Label) :=
  [(surroundings.packageRoot, .text "installed Cyclo controller"),
    (surroundings.host.path, .text "Cyclo host configuration")] ++
    surroundings.host.providers.map (fun provider =>
      (provider.context, .providerSource provider.name)) ++
    surroundings.dcompExecutable.toList.map fun executable =>
      (.ofText executable, .text "DComp executable")

/-- What no tree that is bound may overlap. -/
def protectedPaths : Except Refusal (List (PurePath × Label)) := do
  let home ← asked (surroundings.home "~")
  let sockets ← dockerSocketPaths surroundings
  return [(surroundings.stateRoot, .text "Cyclo state"),
    (home.join ⟨"", [".pi", "agent"]⟩, .text "host Pi configuration")] ++ hostPseudoFilesystems ++
    sockets.map (fun path => (path, .text "Docker socket")) ++ trustedHostRoots surroundings

def validateMountAuthority (teams mounts : List (PurePath × Label)) : Except Refusal Unit := do
  let selected := teams ++ mounts
  forPairs (fun left right => keepApart surroundings left.1 right.1 (.notSeparate left right)) selected
  let protectedPaths ← protectedPaths surroundings
  selected.forM fun mounted => protectedPaths.forM fun path =>
    keepApart surroundings mounted.1 path.1 (.protects mounted path)

def validateTeamMountSeparation (teams mounts : List (PurePath × Label)) : Except Refusal Unit :=
  teams.forM fun team => mounts.forM fun mount =>
    keepApart surroundings team.1 mount.1 (.noSeparateTeam team mount)

def validateStrictSourceRootSeparation (sources : List (PurePath × Label)) : Except Refusal Unit :=
  forPairs (fun left right =>
    if left.1 = right.1 then .ok () else keepApart surroundings left.1 right.1
      (.contains left right)) sources

/-- The trees of two paths have nothing in common, neither where they are nor as they are spelled. -/
def Apart (left right : PurePath) : Prop :=
  (∃ l r, surroundings.resolve left = some l ∧ surroundings.resolve right = some r ∧
    Disjoint l.tree r.tree) ∧ ∃ l r, spelled surroundings left = some l ∧
    spelled surroundings right = some r ∧ Disjoint l.tree r.tree

variable {surroundings} {left right : PurePath}

theorem asked_eq_ok {α : Type} {value : Option α} {a : α} : asked value = .ok a ↔ value = some a := by
  cases value with
  | none => exact iff_of_false (fun h => by cases h) fun h => by cases h
  | some b =>
    constructor
    · intro h
      cases h
      rfl
    · intro h
      cases h
      rfl

theorem pathsOverlap_eq_ok {overlaps : Bool} : pathsOverlap surroundings left right = .ok overlaps ↔
    ∃ l r, surroundings.resolve left = some l ∧ surroundings.resolve right = some r ∧
      PurePath.overlap l r = overlaps := by
  unfold pathsOverlap
  constructor
  · intro h
    obtain ⟨l, hl, h⟩ := bind_eq_ok.mp h
    obtain ⟨r, hr, h⟩ := bind_eq_ok.mp h
    cases h
    exact ⟨l, r, asked_eq_ok.mp hl, asked_eq_ok.mp hr, rfl⟩
  · rintro ⟨l, r, hl, hr, rfl⟩
    rw [hl, hr]
    rfl

theorem pathsOverlapLexically_eq_ok {overlaps : Bool} :
    pathsOverlapLexically surroundings left right = .ok overlaps ↔
      ∃ l r, spelled surroundings left = some l ∧ spelled surroundings right = some r ∧
        PurePath.overlap l r = overlaps := by
  unfold pathsOverlapLexically
  constructor
  · intro h
    obtain ⟨l, hl, h⟩ := bind_eq_ok.mp h
    obtain ⟨r, hr, h⟩ := bind_eq_ok.mp h
    cases h
    exact ⟨l, r, asked_eq_ok.mp hl, asked_eq_ok.mp hr, rfl⟩
  · rintro ⟨l, r, hl, hr, rfl⟩
    rw [hl, hr]
    rfl

theorem keepApart_eq_ok {refusal : Refusal} :
    keepApart surroundings left right refusal = .ok () ↔ Apart surroundings left right := by
  have hresolved : pathsOverlap surroundings left right = .ok false ↔
      ∃ l r, surroundings.resolve left = some l ∧
      surroundings.resolve right = some r ∧ Disjoint l.tree r.tree := by
    simp only [pathsOverlap_eq_ok, PurePath.overlap_eq_false_iff]
  have hspelled : pathsOverlapLexically surroundings left right = .ok false ↔
      ∃ l r, spelled surroundings left = some l ∧ spelled surroundings right = some r ∧
      Disjoint l.tree r.tree := by
    simp only [pathsOverlapLexically_eq_ok, PurePath.overlap_eq_false_iff]
  unfold Apart keepApart
  rw [← hresolved, ← hspelled]
  cases pathsOverlap surroundings left right with
  | error e => exact iff_of_false (fun h => by cases h) fun h => by cases h.1
  | ok overlaps =>
    cases overlaps with
    | true => exact iff_of_false (fun h => by cases h) fun h => by cases h.1
    | false =>
      rw [and_iff_right rfl]
      cases pathsOverlapLexically surroundings left right with
      | error e => exact iff_of_false (fun h => by cases h) fun h => by cases h
      | ok overlaps =>
        cases overlaps with
        | true => exact iff_of_false (fun h => by cases h) fun h => by cases h
        | false => exact iff_of_true rfl rfl

theorem Apart.symm (h : Apart surroundings left right) : Apart surroundings right left := by
  obtain ⟨⟨l, r, hl, hr, hdisjoint⟩, l', r', hl', hr', hdisjoint'⟩ := h
  exact ⟨⟨r, l, hr, hl, hdisjoint.symm⟩, r', l', hr', hl', hdisjoint'.symm⟩

/-- A loop over all pairs of a list checks any two of its members in some order. -/
theorem forPairs_eq_ok {α : Type} {check : α → α → Except Refusal Unit} {values : List α} :
    forPairs check values = .ok () ↔ values.Pairwise fun left right => check left right = .ok () := by
  induction values with
  | nil => exact iff_of_true rfl List.Pairwise.nil
  | cons value values ih =>
    have hcons : forPairs check (value :: values) =
        (values.forM (check value) >>= fun _ => forPairs check values) := rfl
    rw [List.pairwise_cons, ← ih, ← forM_eq_ok, hcons]
    constructor
    · intro h
      obtain ⟨_, hfirst, hrest⟩ := bind_eq_ok.mp h
      exact ⟨hfirst, hrest⟩
    · intro h
      rw [h.1]
      exact h.2

theorem validateMountAuthority_eq_ok {teams mounts : List (PurePath × Label)} :
    validateMountAuthority surroundings teams mounts = .ok () ↔
      (teams ++ mounts).Pairwise (fun left right => Apart surroundings left.1 right.1) ∧
        ∃ roots, protectedPaths surroundings = .ok roots ∧
          ∀ mounted ∈ teams ++ mounts, ∀ path ∈ roots, Apart surroundings mounted.1 path.1 := by
  have hpairs : ∀ {values : List (PurePath × Label)},
      forPairs (fun left right => keepApart surroundings left.1 right.1 (.notSeparate left right))
        values = .ok () ↔ values.Pairwise fun left right => Apart surroundings left.1 right.1 := by
    intro values
    rw [forPairs_eq_ok]
    simp only [keepApart_eq_ok]
  unfold validateMountAuthority
  constructor
  · intro h
    obtain ⟨_, hfirst, h⟩ := bind_eq_ok.mp h
    obtain ⟨roots, hroots, h⟩ := bind_eq_ok.mp h
    refine ⟨hpairs.mp hfirst, roots, hroots, fun mounted hmounted path hpath => ?_⟩
    have hmounted := forM_eq_ok.mp h mounted hmounted
    exact keepApart_eq_ok.mp (forM_eq_ok.mp hmounted path hpath)
  · rintro ⟨hfirst, roots, hroots, h⟩
    dsimp only
    rw [hpairs.mpr hfirst, hroots]
    refine forM_eq_ok.mpr fun mounted hmounted => forM_eq_ok.mpr fun path hpath => ?_
    exact keepApart_eq_ok.mpr (h mounted hmounted path hpath)

theorem validateTeamMountSeparation_eq_ok {teams mounts : List (PurePath × Label)} :
    validateTeamMountSeparation surroundings teams mounts = .ok () ↔
      ∀ team ∈ teams, ∀ mount ∈ mounts, Apart surroundings team.1 mount.1 := by
  unfold validateTeamMountSeparation
  simp only [forM_eq_ok, keepApart_eq_ok]

theorem validateStrictSourceRootSeparation_eq_ok {sources : List (PurePath × Label)} :
    validateStrictSourceRootSeparation surroundings sources = .ok () ↔
      sources.Pairwise fun left right => left.1 = right.1 ∨ Apart surroundings left.1 right.1 := by
  unfold validateStrictSourceRootSeparation
  rw [forPairs_eq_ok]
  refine List.Pairwise.iff fun left right => ?_
  by_cases hsame : left.1 = right.1
  · rw [if_pos hsame]
    exact iff_of_true rfl (Or.inl hsame)
  · rw [if_neg hsame, keepApart_eq_ok]
    exact (or_iff_right hsame).symm

end Cyclo.Runtime
