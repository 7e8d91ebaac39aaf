import Cyclo.Project.RoundTrip

/-! `cyclo project init`: the definition it writes, and when the parser reads from it what was asked
for. -/
namespace Cyclo.Project
open Python

def isSlugChar (c : Char) : Bool := isLower c || isUpper c || isDigit c || isPunctuation c

/-- `re.sub(r"[^A-Za-z0-9_.-]+", "-", value)`; the flag is set inside a run. -/
def replaceRuns : Bool → List Char → List Char
  | _, [] => []
  | inRun, c :: text =>
    if isSlugChar c then c :: replaceRuns false text
    else if inRun then replaceRuns true text
    else '-' :: replaceRuns true text

/-- `slug(value, limit)` -/
def slug (value : List Char) (limit : ℕ) : List Char :=
  let result := (Text.strip isPunctuation (replaceRuns false value)).map Char.toLower
  (if result = [] then "team".toList else result).take limit

/-- The name up to its last dot and what follows from there; a dot at either end does not count. -/
def splitSuffix (name : List Char) : List Char × List Char :=
  let stem := (name.reverse.dropWhile fun c => c ≠ '.').tail.reverse
  let suffix := name.drop stem.length
  if stem = [] ∨ suffix.length ≤ 1 then (name, []) else (stem, suffix)

/-- The arguments of `cyclo project init` behind the definition; an absent text is empty. -/
structure InitArgs where
  name : List Char
  description : List Char
  contextFile : Option (List UInt8)
  teams : List (List Char × List Char)
  mounts : List (List Char × List Char × List Char)

def InitArgs.effectiveName (args : InitArgs) (destination : PurePath) : List Char :=
  if args.name ≠ [] then args.name
  else if destination.name = "project.cyclo" then
    slug (destination.parts.dropLast.getLast?.getD "").toList 64
  else slug (splitSuffix destination.name.toList).1 64

def InitArgs.effectiveDescription (args : InitArgs) (destination : PurePath) : List Char :=
  if args.description ≠ [] then args.description
  else "Cyclo project ".toList ++ args.effectiveName destination ++ ['.']

/-- `_access_mode(value, label)` -/
def accessMode (value : List Char) (label : String) : Except Rejection Unit :=
  demand (value = ['r', 'o'] ∨ value = ['r', 'w']) (.invalidAccessMode label value)

def teamLine (team : List Char × List Char) : List Char :=
  "team ".toList ++ team.1 ++ ' ' :: team.2

def mountLine (mount : List Char × List Char × List Char) : List Char :=
  "mount ".toList ++ mount.1 ++ ' ' :: mount.2.1 ++ ' ' :: mount.2.2

/-- The content that is written. -/
def initContent (args : InitArgs) (destination : PurePath) : Except Rejection (List Char) := do
  let context ← (match args.contextFile with
    | none => .ok []
    | some content => readProjectContext content >>= contextItems)
  args.teams.forM fun team => accessMode team.2 "team"
  args.mounts.forM fun mount => accessMode mount.2.2 "mount"
  let items := ["name ".toList ++ args.effectiveName destination,
      "description ".toList ++ args.effectiveDescription destination] ++ context ++
    [[]] ++ args.teams.map teamLine ++ [[]] ++ args.mounts.map mountLine
  return joinLines items ++ ['\n']

/-- What surrounds the command: the directories, the team repositories that `load_project_teams`
accepts, whether the destination exists, and the name of the temporary file. -/
structure Surroundings where
  host : Host
  acceptsTeams : ProjectDefinition → Bool
  occupied : Bool
  temporaryName : String

inductive InitFailure where
  | definitionName
  | rejected (reason : Rejection)
  | teams
  | occupied
  deriving DecidableEq

def Surroundings.temporary (surroundings : Surroundings) (destination : PurePath) : PurePath :=
  ⟨destination.root, destination.parts.dropLast ++ [surroundings.temporaryName]⟩

/-- `cmd_project_init(args)` for an absolute destination: the content that stays at the destination. -/
def cmdProjectInit (surroundings : Surroundings) (destination : PurePath) (args : InitArgs) :
    Except InitFailure (List UInt8) := do
  demand (destination.name = "project.cyclo" ∨
    (splitSuffix destination.name.toList).2 = ".cyclo".toList) .definitionName
  let content ← (initContent args destination).mapError .rejected
  let initialized ← (loadProject surroundings.host (surroundings.temporary destination)
    (utf8 content)).mapError .rejected
  demand (surroundings.acceptsTeams initialized = true) .teams
  demand (surroundings.occupied = false) .occupied
  return utf8 content

/-- The lines of the context as its author sees them: between newlines, blank ones at the ends left
out. -/
def givenContextLines (text : List Char) : List (List Char) :=
  Text.strip isBlank (text.splitOn '\n')

def InitArgs.givenContext (args : InitArgs) : List Char :=
  match args.contextFile with
  | none => []
  | some content =>
    match readProjectContext content with
    | .error _ => []
    | .ok text => joinLines (givenContextLines text)

/-- A team of the definition is the one that was given. -/
def TeamGiven (host : Host) (destination : PurePath) (given : List Char × List Char)
    (team : ProjectTeam) : Prop :=
  given.2 = team.mode.text ∧
    resolveDirectory host destination given.1 team.line "team" = .ok team.path

def MountGiven (host : Host) (destination : PurePath) (given : List Char × List Char × List Char)
    (mount : ProjectMount) : Prop :=
  given.1 = mount.name ∧ given.2.2 = mount.mode.text ∧
    resolveDirectory host destination given.2.1 mount.line "mount" = .ok mount.path

/-- A definition that says what was asked for and nothing else. -/
structure Faithful (host : Host) (destination : PurePath) (args : InitArgs)
    (project : ProjectDefinition) : Prop where
  name : project.name = args.effectiveName destination
  description : project.description = strip (args.effectiveDescription destination)
  context : project.context = args.givenContext
  teams : List.Forall₂ (TeamGiven host destination) args.teams project.teams
  mounts : List.Forall₂ (MountGiven host destination) args.mounts project.mounts

/-- Arguments without characters that the parser takes for separators. -/
structure Plain (args : InitArgs) : Prop where
  name : ∀ c ∈ args.name, isSpace c = false
  description : ∀ c ∈ strip args.description, isLineBreak c = false
  context : ∀ c ∈ args.givenContext, isLineBreak c = true → c = '\n'
  teams : ∀ team ∈ args.teams, ∀ c ∈ team.1, isSpace c = false
  mounts : ∀ mount ∈ args.mounts, (∀ c ∈ mount.1, isSpace c = false) ∧
    ∀ c ∈ mount.2.1, isSpace c = false

section
variable {host : Host} {source source' : PurePath}

/-- Two definitions in one directory. -/
def Beside (source source' : PurePath) : Prop :=
  source.root = source'.root ∧ source.parts.dropLast = source'.parts.dropLast

theorem resolveDirectory_beside (h : Beside source source') :
    resolveDirectory host source = resolveDirectory host source' := by
  funext value line label
  have hselect : selectPath source value = selectPath source' value := by
    unfold selectPath
    rw [h.1, h.2]
  unfold resolveDirectory
  rw [hselect]

theorem parseLine_beside (h : Beside source source') :
    parseLine host source = parseLine host source' := by
  have hteam : parseTeam host source = parseTeam host source' := by
    unfold parseTeam
    rw [resolveDirectory_beside h]
  have hmount : parseMount host source = parseMount host source' := by
    unfold parseMount
    rw [resolveDirectory_beside h]
  unfold parseLine
  rw [hteam, hmount]

theorem parseLines_beside (h : Beside source source') {lineNo : ℕ} {parsed : Parsed}
    {block : Option Block} {lines : List (List Char)} :
    parseLines host source lineNo parsed block lines =
      parseLines host source' lineNo parsed block lines := by
  induction lines generalizing lineNo parsed block with
  | nil => cases block <;> rfl
  | cons raw lines ih =>
    cases block with
    | none =>
      rw [parseLines, parseLines, parseLine_beside h]
      congr 1
      funext result
      exact ih
    | some block =>
      rw [parseLines, parseLines, ih]
      simp only [ih]

/-- Beside the file that was loaded, the same content loads as well. -/
theorem loadProject_beside (h : Beside source source') {content : List UInt8}
    {project : ProjectDefinition} (hload : loadProject host source content = .ok project) :
    loadProject host source' content = .ok { project with path := source' } := by
  obtain ⟨text, parsed, hsize, htext, hparsed, hfinish⟩ := loadProject_eq_ok hload
  obtain ⟨name, description, hname, hdescription, hteams, hmounts, hoverlaps, rfl⟩ :=
    finish_eq_ok hfinish
  have hfinish' : parsed.finish source' = .ok ⟨source', name, description,
      parsed.context.getD [], parsed.teams, parsed.mounts⟩ := by
    unfold Parsed.finish
    rw [hname, hdescription]
    dsimp only
    rw [demand_eq_ok.mpr hteams, demand_eq_ok.mpr hmounts, hoverlaps]
    rfl
  rw [parseLines_beside h] at hparsed
  unfold loadProject readRegularFile
  rw [if_neg (not_lt.mpr hsize)]
  exact bind_eq_ok.mpr ⟨_, rfl, bind_eq_ok.mpr ⟨text, htext, bind_eq_ok.mpr ⟨parsed, hparsed,
    hfinish'⟩⟩⟩

end

section
variable {surroundings : Surroundings} {destination : PurePath} {args : InitArgs}

theorem beside_temporary : Beside (surroundings.temporary destination) destination :=
  ⟨rfl, List.dropLast_concat⟩

theorem cmdProjectInit_eq_ok {written : List UInt8}
    (h : cmdProjectInit surroundings destination args = .ok written) :
    ∃ content project, initContent args destination = .ok content ∧ written = utf8 content ∧
      loadProject surroundings.host destination written = .ok project := by
  unfold cmdProjectInit at h
  obtain ⟨_, -, h⟩ := bind_eq_ok.mp h
  obtain ⟨content, hcontent, h⟩ := bind_eq_ok.mp h
  obtain ⟨initialized, hinitialized, h⟩ := bind_eq_ok.mp h
  obtain ⟨_, -, h⟩ := bind_eq_ok.mp h
  obtain ⟨_, -, h⟩ := bind_eq_ok.mp h
  cases h
  rw [mapError_eq_ok] at hcontent hinitialized
  exact ⟨content, _, hcontent, rfl, loadProject_beside beside_temporary hinitialized⟩

/-- The modes that are accepted are those of the format. -/
theorem accessMode_eq_ok {value : List Char} {label : String} :
    accessMode value label = .ok () ↔ ∃ mode : AccessMode, value = mode.text := by
  unfold accessMode
  rw [demand_eq_ok]
  constructor
  · intro h
    rcases h with rfl | rfl
    · exact ⟨.ro, rfl⟩
    · exact ⟨.rw, rfl⟩
  · intro h
    obtain ⟨mode, rfl⟩ := h
    cases mode
    · exact .inl rfl
    · exact .inr rfl

/-- The lines behind the description. -/
def initRoots (args : InitArgs) : List (List Char) :=
  [] :: (args.teams.map teamLine ++ [] :: args.mounts.map mountLine)

theorem initContent_eq_ok {content : List Char} (h : initContent args destination = .ok content) :
    ∃ context, (match args.contextFile with
        | none => .ok []
        | some content => readProjectContext content >>= contextItems) = Except.ok context ∧
      (∀ team ∈ args.teams, ∃ mode : AccessMode, team.2 = mode.text) ∧
      (∀ mount ∈ args.mounts, ∃ mode : AccessMode, mount.2.2 = mode.text) ∧
      content = joinLines (("name".toList ++ ' ' :: args.effectiveName destination) ::
        ("description".toList ++ ' ' :: args.effectiveDescription destination) ::
          (context ++ initRoots args)) ++ ['\n'] := by
  unfold initContent at h
  obtain ⟨context, hcontext, h⟩ := bind_eq_ok.mp h
  obtain ⟨_, hteams, h⟩ := bind_eq_ok.mp h
  obtain ⟨_, hmounts, h⟩ := bind_eq_ok.mp h
  refine ⟨context, hcontext, ?_, ?_, ?_⟩
  · intro team hteam
    exact accessMode_eq_ok.mp (forM_eq_ok.mp hteams team hteam)
  · intro mount hmount
    exact accessMode_eq_ok.mp (forM_eq_ok.mp hmounts mount hmount)
  · cases h
    simp only [initRoots, List.append_assoc]
    rfl

end

section
variable {host : Host} {source : PurePath} {parsed final : Parsed} {lineNo : ℕ}
  {rest : List (List Char)}

theorem parseLine_teamLine {team : List Char × List Char} {next : Parsed} {opened : Option Block}
    (hplain : ∀ c ∈ team.1, isSpace c = false) (hmode : ∃ mode : AccessMode, team.2 = mode.text)
    (h : parseLine host source parsed lineNo (strip (teamLine team)) = .ok (next, opened)) :
    opened = none ∧ ∃ found, TeamGiven host source team found ∧
      next = { parsed with teams := parsed.teams ++ [found] } := by
  obtain ⟨mode, hmode⟩ := hmode
  have hkey : IsWord "team".toList := ⟨by decide, by decide⟩
  have hline : teamLine team = "team".toList ++ ' ' :: (team.1 ++ ' ' :: team.2) := by
    have hspace : "team ".toList = "team".toList ++ [' '] := rfl
    unfold teamLine
    rw [hspace]
    simp only [List.append_assoc, List.cons_append, List.nil_append]
  have hsplit : split (strip (teamLine team)) =
      "team".toList :: ((if team.1 = [] then [] else [team.1]) ++ [mode.text]) := by
    rw [hline, split_strip, split_word hkey, split_solid hplain, hmode, split_single mode.isWord]
  have hdirective : (partition (strip (teamLine team))).1 = "team".toList := by
    rw [hline]
    exact partition_directive hkey _
  rw [parseLine_team hdirective] at h
  obtain ⟨result, hresult, heq⟩ := map_eq_ok h
  cases heq
  obtain ⟨directive, value, mode', path, hfields, hpath, -, -, -, -, hnext⟩ :=
    parseTeam_eq_ok.mp hresult
  rw [hsplit] at hfields
  split_ifs at hfields with hnil
  · simp at hfields
  · simp only [List.singleton_append, List.cons.injEq] at hfields
    obtain ⟨-, hvalue, htext, -⟩ := hfields
    refine ⟨rfl, ⟨path, mode', lineNo⟩, ⟨hmode.trans htext, ?_⟩, hnext⟩
    rw [hvalue]
    exact hpath

theorem parseLine_mountLine {mount : List Char × List Char × List Char} {next : Parsed}
    {opened : Option Block} (hname : ∀ c ∈ mount.1, isSpace c = false)
    (hpath : ∀ c ∈ mount.2.1, isSpace c = false)
    (hmode : ∃ mode : AccessMode, mount.2.2 = mode.text)
    (h : parseLine host source parsed lineNo (strip (mountLine mount)) = .ok (next, opened)) :
    opened = none ∧ ∃ found, MountGiven host source mount found ∧
      next = { parsed with mounts := parsed.mounts ++ [found] } := by
  obtain ⟨mode, hmode⟩ := hmode
  have hkey : IsWord "mount".toList := ⟨by decide, by decide⟩
  have hline : mountLine mount =
      "mount".toList ++ ' ' :: (mount.1 ++ ' ' :: (mount.2.1 ++ ' ' :: mount.2.2)) := by
    have hspace : "mount ".toList = "mount".toList ++ [' '] := rfl
    unfold mountLine
    rw [hspace]
    simp only [List.append_assoc, List.cons_append, List.nil_append]
  have hsplit : split (strip (mountLine mount)) = "mount".toList ::
      ((if mount.1 = [] then [] else [mount.1]) ++
        ((if mount.2.1 = [] then [] else [mount.2.1]) ++ [mode.text])) := by
    rw [hline, split_strip, split_word hkey, split_solid hname, split_solid hpath, hmode,
      split_single mode.isWord]
  have hdirective : (partition (strip (mountLine mount))).1 = "mount".toList := by
    rw [hline]
    exact partition_directive hkey _
  rw [parseLine_mount hdirective] at h
  obtain ⟨result, hresult, heq⟩ := map_eq_ok h
  cases heq
  obtain ⟨directive, name, value, mode', path, hfields, -, hresolve, -, -, hnext⟩ :=
    parseMount_eq_ok.mp hresult
  have hlength := congrArg List.length hfields
  rw [hsplit] at hfields hlength
  split_ifs at hfields hlength with hnil hnil'
  · simp at hlength
  · simp at hlength
  · simp at hlength
  · simp only [List.singleton_append, List.cons.injEq] at hfields
    obtain ⟨-, hn, hvalue, htext, -⟩ := hfields
    refine ⟨rfl, ⟨name, path, mode', lineNo⟩, ⟨hn, hmode.trans htext, ?_⟩, hnext⟩
    rw [hvalue]
    exact hresolve

/-- Team lines add the teams that were given, one after the other. -/
theorem parseLines_teamLines {teams : List (List Char × List Char)}
    (hplain : ∀ team ∈ teams, ∀ c ∈ team.1, isSpace c = false)
    (hmodes : ∀ team ∈ teams, ∃ mode : AccessMode, team.2 = mode.text)
    (h : parseLines host source lineNo parsed none (teams.map teamLine ++ rest) = .ok final) :
    ∃ lineNo' found, List.Forall₂ (TeamGiven host source) teams found ∧
      parseLines host source lineNo' { parsed with teams := parsed.teams ++ found } none rest =
        .ok final := by
  induction teams generalizing parsed lineNo with
  | nil => exact ⟨lineNo, [], .nil, by rw [List.append_nil]; exact h⟩
  | cons team teams ih =>
    rw [List.forall_mem_cons] at hplain hmodes
    rw [List.map_cons, List.cons_append, parseLines_cons_eq_ok] at h
    obtain ⟨next, opened, hline, hrest⟩ := h
    obtain ⟨rfl, first, hfirst, rfl⟩ := parseLine_teamLine hplain.1 hmodes.1 hline
    obtain ⟨lineNo', found, hfound, hfinal⟩ := ih hplain.2 hmodes.2 hrest
    refine ⟨lineNo', first :: found, .cons hfirst hfound, ?_⟩
    rw [List.append_assoc] at hfinal
    exact hfinal

theorem parseLines_mountLines {mounts : List (List Char × List Char × List Char)}
    (hplain : ∀ mount ∈ mounts, (∀ c ∈ mount.1, isSpace c = false) ∧
      ∀ c ∈ mount.2.1, isSpace c = false)
    (hmodes : ∀ mount ∈ mounts, ∃ mode : AccessMode, mount.2.2 = mode.text)
    (h : parseLines host source lineNo parsed none (mounts.map mountLine) = .ok final) :
    ∃ found, List.Forall₂ (MountGiven host source) mounts found ∧
      final = { parsed with mounts := parsed.mounts ++ found } := by
  induction mounts generalizing parsed lineNo with
  | nil =>
    cases h
    exact ⟨[], .nil, by rw [List.append_nil]⟩
  | cons mount mounts ih =>
    rw [List.forall_mem_cons] at hplain hmodes
    rw [List.map_cons, parseLines_cons_eq_ok] at h
    obtain ⟨next, opened, hline, hrest⟩ := h
    obtain ⟨rfl, first, hfirst, rfl⟩ :=
      parseLine_mountLine hplain.1.1 hplain.1.2 hmodes.1 hline
    obtain ⟨found, hfound, hfinal⟩ := ih hplain.2 hmodes.2 hrest
    refine ⟨first :: found, .cons hfirst hfound, ?_⟩
    rw [hfinal, List.append_assoc, List.singleton_append]

end

section
variable {host : Host} {source : PurePath} {parsed final : Parsed} {lineNo : ℕ}
  {rest : List (List Char)} {text : List Char}

theorem isWord_markerAt (n : ℕ) : IsWord ('<' :: '<' :: markerAt n) := by
  refine ⟨List.cons_ne_nil _ _, ?_⟩
  rw [List.forall_mem_cons, List.forall_mem_cons]
  refine ⟨rfl, rfl, ?_⟩
  unfold markerAt
  split_ifs
  · decide
  · rw [List.forall_mem_append]
    refine ⟨by decide, fun c hc => ?_⟩
    have hdigit := isDigit_of_mem_toDigits hc
    have hname : (isLower c || isDigit c || isPunctuation c) = true := by
      rw [hdigit]
      simp
    obtain ⟨hlo, hhi, -⟩ := code_of_nameChar hname
    exact isSpace_of_visible (by omega) (by omega)

theorem markerAt_ne_nil (n : ℕ) : markerAt n ≠ [] := by
  unfold markerAt
  split_ifs
  · decide
  · exact List.append_ne_nil_of_left_ne_nil (by decide) _

theorem mem_joinLines {lines : List (List Char)} {line : List Char} {c : Char} (hline : line ∈ lines)
    (hc : c ∈ line) (hne : c ≠ '\n') : c ∈ joinLines lines := by
  have hmem : c ∈ joinLines lines ++ ['\n'] := by
    rw [joinLines_append_newline (List.ne_nil_of_mem hline)]
    exact List.mem_flatMap.mpr ⟨line, hline, List.mem_append_left _ hc⟩
  rcases List.mem_append.mp hmem with hmem | hmem
  · exact hmem
  · exact absurd (List.mem_singleton.mp hmem) hne

/-- The lines of a context that is plain have no line breaks. -/
theorem givenContextLines_plain
    (h : ∀ c ∈ joinLines (givenContextLines text), isLineBreak c = true → c = '\n') :
    ∀ line ∈ givenContextLines text, ∀ c ∈ line, isLineBreak c = false := by
  intro line hline c hc
  have hmem : line ∈ text.splitOn '\n' := Text.strip_subset isBlank _ hline
  rw [List.splitOn_eq_splitOnP] at hmem
  have hne : c ≠ '\n' := beq_eq_false_iff_ne.mp (Text.mem_splitOnP hmem c hc)
  by_contra hbreak
  rw [Bool.not_eq_false] at hbreak
  exact hne (h c (mem_joinLines hline hc hne) hbreak)

/-- Other line breaks than newlines do no harm in the blank lines at the ends. -/
theorem strip_splitOnP_isLineBreak
    (h : ∀ line ∈ givenContextLines text, ∀ c ∈ line, isLineBreak c = false) :
    Text.strip isBlank (text.splitOnP isLineBreak) = givenContextLines text := by
  have hfiner : ∀ c : Char, (c == '\n') = true → isLineBreak c = true := by
    intro c hc
    rw [eq_of_beq hc]
    rfl
  obtain ⟨before, after, hsplit, hbefore, hafter⟩ :=
    Text.strip_decompose isBlank (text.splitOn '\n')
  have hblank : ∀ lines : List (List Char), (∀ line ∈ lines, isBlank line = true) →
      ∀ piece ∈ lines.flatMap (List.splitOnP isLineBreak), isBlank piece = true := by
    intro lines hlines piece hpiece
    obtain ⟨line, hline, hmem⟩ := List.mem_flatMap.mp hpiece
    have hspaces := Text.strip_eq_nil.mp (of_decide_eq_true (hlines line hline))
    exact decide_eq_true (Text.strip_eq_nil.mpr fun c hc =>
      hspaces c (Text.subset_of_mem_splitOnP hmem hc))
  have hpieces : text.splitOnP isLineBreak = before.flatMap (List.splitOnP isLineBreak) ++
      givenContextLines text ++ after.flatMap (List.splitOnP isLineBreak) := by
    rw [Text.splitOnP_splitOnP hfiner, ← List.splitOn_eq_splitOnP, hsplit, List.flatMap_append,
      List.flatMap_append]
    change _ ++ (givenContextLines text).flatMap _ ++ _ = _
    rw [flatMap_splitOnP_of_no_breaks h]
  rw [hpieces, Text.strip_append (hblank before hbefore) (hblank after hafter)]
  exact Text.strip_strip _

/-- A written context is read as the lines that were given. -/
theorem parseLines_writtenContext {n : ℕ} (hfree : markerAt n ∉ splitlines text)
    (hplain : ∀ line ∈ givenContextLines text, ∀ c ∈ line, isLineBreak c = false)
    (h : parseLines host source lineNo parsed none ([] :: ("context <<".toList ++ markerAt n) ::
      (text.splitOnP isLineBreak ++ markerAt n :: rest)) = .ok final) :
    ∃ lineNo', parseLines host source lineNo'
      { parsed with context := some (joinLines (givenContextLines text)) } none rest = .ok final := by
  have hblank : parseLine host source parsed lineNo (strip []) = .ok (parsed, none) :=
    parseLine_comment rfl
  have hkey : IsWord "context".toList := ⟨by decide, by decide⟩
  have hline : "context <<".toList ++ markerAt n =
      "context".toList ++ ' ' :: '<' :: '<' :: markerAt n := by
    have hspace : "context <<".toList = "context".toList ++ [' ', '<', '<'] := rfl
    rw [hspace, List.append_assoc]
    rfl
  rw [parseLines_step hblank, hline, parseLines_cons_eq_ok] at h
  obtain ⟨next, opened, hopen, hrest⟩ := h
  rw [parseLine_context (partition_directive hkey _)] at hopen
  obtain ⟨block, hblock, heq⟩ := map_eq_ok hopen
  cases heq
  obtain ⟨directive, marker, hfields, -, -, rfl⟩ := parseContext_eq_ok.mp hblock
  rw [split_strip, split_word hkey, split_single (isWord_markerAt n)] at hfields
  simp only [List.cons.injEq, true_and, and_true] at hfields
  rw [← hfields.2] at hrest
  rw [mem_splitlines_iff (markerAt_ne_nil n)] at hfree
  rw [parseLines_block hfree, List.nil_append] at hrest
  obtain ⟨closed, hclose, hfinal⟩ := bind_eq_ok.mp hrest
  obtain ⟨-, rfl⟩ := closeBlock_eq_ok.mp hclose
  dsimp only at hfinal
  rw [strip_splitOnP_isLineBreak hplain] at hfinal
  exact ⟨_, hfinal⟩

end

/-- Without a carriage return left, the replacement has left out all of them. -/
theorem replaceCrlf_eq_filter {text : List Char} (h : '\r' ∉ replaceCrlf text) :
    replaceCrlf text = text.filter fun c => c ≠ '\r' := by
  induction text using replaceCrlf.induct with
  | case1 => rfl
  | case2 text ih =>
    rw [replaceCrlf, List.mem_cons, not_or] at h
    rw [replaceCrlf, ih h.2]
    rfl
  | case3 c text hno ih =>
    have hcons : replaceCrlf (c :: text) = c :: replaceCrlf text := by
      rw [replaceCrlf]
      exact hno
    rw [hcons, List.mem_cons, not_or] at h
    rw [hcons, ih h.2, List.filter_cons_of_pos (by simpa using Ne.symm h.1)]

theorem filter_of_no_breaks {text : List Char} (h : ∀ c ∈ text, isLineBreak c = false) :
    (text.filter fun c => c ≠ '\r') = text := by
  rw [List.filter_eq_self]
  intro c hc
  have hne : c ≠ '\r' := by
    rintro rfl
    exact absurd (h _ hc) (by decide)
  exact decide_eq_true hne

/-- Carriage returns at the ends do not matter to the stripped text. -/
theorem strip_filter {text : List Char} (h : ∀ c ∈ strip text, isLineBreak c = false) :
    strip (text.filter fun c => c ≠ '\r') = strip text := by
  obtain ⟨before, after, hsplit, hbefore, hafter⟩ := Text.strip_decompose isSpace text
  have hcore : ((Text.strip isSpace text).filter fun c => c ≠ '\r') = Text.strip isSpace text :=
    filter_of_no_breaks h
  conv_lhs => rw [hsplit]
  unfold strip
  rw [List.filter_append, List.filter_append, hcore, Text.strip_append, Text.strip_strip]
  · exact fun c hc => hbefore c (List.mem_filter.mp hc).1
  · exact fun c hc => hafter c (List.mem_filter.mp hc).1

section
variable {host : Host} {destination : PurePath} {args : InitArgs} {content : List Char}
  {project : ProjectDefinition}

theorem isLineBreak_of_not_isSpace {c : Char} (h : isSpace c = false) : isLineBreak c = false := by
  by_contra hbreak
  rw [Bool.not_eq_false] at hbreak
  rw [isSpace_of_isLineBreak hbreak] at h
  cases h

theorem AccessMode.no_breaks (mode : AccessMode) : ∀ c ∈ mode.text, isLineBreak c = false := by
  cases mode <;> decide

/-- The lines behind the description have no line breaks. -/
theorem initRoots_no_breaks (hplain : Plain args)
    (hteams : ∀ team ∈ args.teams, ∃ mode : AccessMode, team.2 = mode.text)
    (hmounts : ∀ mount ∈ args.mounts, ∃ mode : AccessMode, mount.2.2 = mode.text) :
    ∀ line ∈ initRoots args, ∀ c ∈ line, isLineBreak c = false := by
  have hspace : isLineBreak ' ' = false := rfl
  unfold initRoots
  rw [List.forall_mem_cons, List.forall_mem_append, List.forall_mem_cons]
  refine ⟨List.forall_mem_nil _, ?_, List.forall_mem_nil _, ?_⟩
  · intro line hline
    obtain ⟨team, hteam, rfl⟩ := List.mem_map.mp hline
    obtain ⟨mode, hmode⟩ := hteams team hteam
    have hkey : ∀ c ∈ "team ".toList, isLineBreak c = false := by decide
    have hpath : ∀ c ∈ team.1, isLineBreak c = false := fun c hc =>
      isLineBreak_of_not_isSpace (hplain.teams team hteam c hc)
    unfold teamLine
    rw [hmode]
    exact List.forall_mem_append.mpr ⟨List.forall_mem_append.mpr ⟨hkey, hpath⟩,
      List.forall_mem_cons.mpr ⟨hspace, mode.no_breaks⟩⟩
  · intro line hline
    obtain ⟨mount, hmount, rfl⟩ := List.mem_map.mp hline
    obtain ⟨mode, hmode⟩ := hmounts mount hmount
    have hkey : ∀ c ∈ "mount ".toList, isLineBreak c = false := by decide
    have hname : ∀ c ∈ mount.1, isLineBreak c = false := fun c hc =>
      isLineBreak_of_not_isSpace ((hplain.mounts mount hmount).1 c hc)
    have hpath : ∀ c ∈ mount.2.1, isLineBreak c = false := fun c hc =>
      isLineBreak_of_not_isSpace ((hplain.mounts mount hmount).2 c hc)
    unfold mountLine
    rw [hmode]
    exact List.forall_mem_append.mpr ⟨List.forall_mem_append.mpr
      ⟨List.forall_mem_append.mpr ⟨hkey, hname⟩, List.forall_mem_cons.mpr ⟨hspace, hpath⟩⟩,
      List.forall_mem_cons.mpr ⟨hspace, mode.no_breaks⟩⟩

theorem isSlugChar_replaceRuns (value : List Char) (inRun : Bool) :
    ∀ c ∈ replaceRuns inRun value, isSlugChar c = true := by
  induction value generalizing inRun with
  | nil => exact List.forall_mem_nil _
  | cons d value ih =>
    rw [replaceRuns]
    split_ifs with hd
    · exact List.forall_mem_cons.mpr ⟨hd, ih false⟩
    · exact ih true
    · exact List.forall_mem_cons.mpr ⟨rfl, ih true⟩

theorem isSpace_toLower {c : Char} (h : isSlugChar c = true) : isSpace c.toLower = false := by
  have hcode : 45 ≤ c.toNat ∧ c.toNat ≤ 122 := by
    simp only [isSlugChar, isLower, isUpper, isDigit, isPunctuation, Bool.or_eq_true,
      Bool.and_eq_true, decide_eq_true_eq, Char.le_def, UInt32.le_iff_toNat_le] at h
    rcases h with ((⟨hlo, hhi⟩ | ⟨hlo, hhi⟩) | ⟨hlo, hhi⟩) | (rfl | rfl) | rfl
    · change 97 ≤ c.toNat at hlo
      change c.toNat ≤ 122 at hhi
      omega
    · change 65 ≤ c.toNat at hlo
      change c.toNat ≤ 90 at hhi
      omega
    · change 48 ≤ c.toNat at hlo
      change c.toNat ≤ 57 at hhi
      omega
    all_goals decide
  have hlower : 45 ≤ c.toLower.toNat ∧ c.toLower.toNat ≤ 122 := by
    unfold Char.toLower
    split
    · rename_i hupper
      have hhi : c.toNat ≤ 90 := hupper.2
      have hsum : (c.val + ('a'.val - 'A'.val)).toNat = c.toNat + 32 := by
        rw [UInt32.toNat_add]
        change (c.toNat + 32) % 2 ^ 32 = c.toNat + 32
        omega
      change 45 ≤ (c.val + ('a'.val - 'A'.val)).toNat ∧ (c.val + ('a'.val - 'A'.val)).toNat ≤ 122
      omega
    · exact hcode
  exact isSpace_of_visible (by omega) (by omega)

/-- A name made from the destination has no white space. -/
theorem slug_no_space (value : List Char) (limit : ℕ) :
    ∀ c ∈ slug value limit, isSpace c = false := by
  intro c hc
  have hmem := List.mem_of_mem_take hc
  split_ifs at hmem with hnil
  · have hteam : ∀ d ∈ "team".toList, isSpace d = false := by decide
    exact hteam c hmem
  · obtain ⟨d, hd, rfl⟩ := List.mem_map.mp hmem
    exact isSpace_toLower (isSlugChar_replaceRuns value false d (Text.strip_subset _ _ hd))

theorem effectiveName_no_space (h : ∀ c ∈ args.name, isSpace c = false) :
    ∀ c ∈ args.effectiveName destination, isSpace c = false := by
  unfold InitArgs.effectiveName
  split_ifs
  · exact h
  · exact slug_no_space _ _
  · exact slug_no_space _ _

theorem effectiveDescription_no_breaks (hname : ∀ c ∈ args.name, isSpace c = false)
    (h : ∀ c ∈ strip args.description, isLineBreak c = false) :
    ∀ c ∈ strip (args.effectiveDescription destination), isLineBreak c = false := by
  unfold InitArgs.effectiveDescription
  split_ifs with hnil
  · exact h
  · have hkey : ∀ c ∈ "Cyclo project ".toList, isLineBreak c = false := by decide
    have hall : ∀ c ∈ "Cyclo project ".toList ++ args.effectiveName destination ++ ['.'],
        isLineBreak c = false := List.forall_mem_append.mpr ⟨List.forall_mem_append.mpr ⟨hkey,
      fun c hc => isLineBreak_of_not_isSpace (effectiveName_no_space hname c hc)⟩,
      List.forall_mem_singleton.mpr rfl⟩
    exact fun c hc => hall c (Text.strip_subset isSpace _ hc)

theorem split_solid_end {word : List Char} (h : ∀ c ∈ word, isSpace c = false) :
    split word = if word = [] then [] else [word] := by
  split_ifs with hnil
  · rw [hnil]
    exact Text.words_nil isSpace
  · exact split_single ⟨hnil, h⟩

/-- The first two lines set the name and the description; the pieces of the description behind its
first line are blank. -/
theorem parseLines_initHeader {name description : List Char} {rest : List (List Char)}
    {piece : List Char} {pieces : List (List Char)} {final : Parsed}
    (hname : ∀ c ∈ name, isSpace c = false)
    (hcore : ∀ c ∈ strip description, isLineBreak c = false)
    (hpieces : description.splitOnP isLineBreak = piece :: pieces)
    (h : parseLines host destination 1 .empty none (("name".toList ++ ' ' :: name) ::
      ("description".toList ++ ' ' :: piece) :: (pieces ++ rest)) = .ok final) :
    ∃ lineNo, parseLines host destination lineNo
      ⟨some name, some (strip description), none, [], []⟩ none rest = .ok final := by
  have hnameKey : IsWord "name".toList := ⟨by decide, by decide⟩
  have hdescriptionKey : IsWord "description".toList := ⟨by decide, by decide⟩
  rw [parseLines_cons_eq_ok] at h
  obtain ⟨next, opened, hfirst, h⟩ := h
  rw [parseLine_name (partition_directive hnameKey _)] at hfirst
  obtain ⟨named, hnamed, heq⟩ := map_eq_ok hfirst
  cases heq
  obtain ⟨directive, found, hfields, -, -, rfl⟩ := parseName_eq_ok.mp hnamed
  rw [split_strip, split_word hnameKey, split_solid_end hname] at hfields
  have hfound : found = name := by
    split_ifs at hfields with hnil
    · cases hfields
    · simp only [List.cons.injEq, and_true] at hfields
      exact hfields.2.symm
  rw [parseLines_cons_eq_ok] at h
  obtain ⟨next, opened, hsecond, h⟩ := h
  rw [parseLine_description (partition_directive hdescriptionKey _)] at hsecond
  obtain ⟨described, hdescribed, heq⟩ := map_eq_ok hsecond
  cases heq
  obtain ⟨-, hne, -, rfl⟩ := parseDescription_eq_ok.mp hdescribed
  have hstrip : strip (piece.rdropWhile isSpace) = strip piece := Text.strip_rdropWhile isSpace piece
  rw [partition_word hdescriptionKey] at hne h
  dsimp only at hne h
  rw [hstrip] at hne h
  obtain ⟨hpiece, hblank⟩ := Text.splitOnP_of_strip hcore hpieces hne
  rw [parseLines_blank hblank] at h
  change strip piece = strip description at hpiece
  rw [hpiece, hfound] at h
  exact ⟨_, h⟩

theorem parseLines_initRoots {parsed final : Parsed} {lineNo : ℕ} (hplain : Plain args)
    (hteams : ∀ team ∈ args.teams, ∃ mode : AccessMode, team.2 = mode.text)
    (hmounts : ∀ mount ∈ args.mounts, ∃ mode : AccessMode, mount.2.2 = mode.text)
    (h : parseLines host destination lineNo parsed none (initRoots args) = .ok final) :
    ∃ teams mounts, List.Forall₂ (TeamGiven host destination) args.teams teams ∧
      List.Forall₂ (MountGiven host destination) args.mounts mounts ∧
      final = { parsed with teams := parsed.teams ++ teams, mounts := parsed.mounts ++ mounts } := by
  have hblank : ∀ parsed lineNo, parseLine host destination parsed lineNo (strip []) =
      .ok (parsed, none) := fun _ _ => parseLine_comment rfl
  unfold initRoots at h
  rw [parseLines_step (hblank _ _)] at h
  obtain ⟨lineNo', teams, hfound, h⟩ := parseLines_teamLines hplain.teams hteams h
  rw [parseLines_step (hblank _ _)] at h
  obtain ⟨mounts, hfound', rfl⟩ := parseLines_mountLines hplain.mounts hmounts h
  exact ⟨teams, mounts, hfound, hfound', rfl⟩

/-- The lines that the parser sees: those of the description, and what was written around it. -/
theorem splitlines_initContent {text : List Char} {context rest : List (List Char)}
    {name description : List Char}
    (hcontent : content = joinLines (("name".toList ++ ' ' :: name) ::
      ("description".toList ++ ' ' :: description) :: rest) ++ ['\n'])
    (htext : decodeTextFile (utf8 content) "project definition" = .ok text)
    (hname : ∀ c ∈ name, isLineBreak c = false) (hrest : ∀ line ∈ rest, '\r' ∉ line)
    (hcontext : rest.flatMap (List.splitOnP isLineBreak) = context) :
    ∃ piece pieces, (description.filter fun c => c ≠ '\r').splitOnP isLineBreak =
        piece :: pieces ∧
      splitlines text = ("name".toList ++ ' ' :: name) ::
        ("description".toList ++ ' ' :: piece) :: (pieces ++ context) := by
  obtain ⟨original, horiginal, hreplaced, hchars⟩ := decodeTextFile_eq_ok htext
  rw [← utf8_injective horiginal] at hreplaced
  have hreturn : '\r' ∉ replaceCrlf content := hreplaced ▸ return_not_mem hchars
  have hnameLine : ∀ c ∈ "name".toList ++ ' ' :: name, isLineBreak c = false :=
    List.forall_mem_append.mpr ⟨by decide, List.forall_mem_cons.mpr ⟨rfl, hname⟩⟩
  have hkey : ∀ c ∈ "description".toList ++ [' '], isLineBreak c = false := by decide
  have hitem : ∀ line : List Char, '\r' ∉ line →
      ((line ++ ['\n']).filter fun c => c ≠ '\r') = line ++ ['\n'] := by
    intro line hline
    rw [List.filter_eq_self, List.forall_mem_append, List.forall_mem_singleton]
    exact ⟨fun c hc => decide_eq_true fun he => hline (he ▸ hc), rfl⟩
  have hdescription : (("description".toList ++ ' ' :: description ++ ['\n']).filter fun c =>
      c ≠ '\r') = ("description".toList ++ [' ']) ++ (description.filter fun c => c ≠ '\r') ++
        ['\n'] := by
    have hassoc : "description".toList ++ ' ' :: description ++ ['\n'] =
        ("description".toList ++ [' ']) ++ description ++ ['\n'] := by simp
    rw [hassoc, List.filter_append, List.filter_append, filter_of_no_breaks hkey]
    rfl
  have hnone : ∀ line : List Char, (∀ c ∈ line, isLineBreak c = false) → '\r' ∉ line := by
    intro line hline hmem
    exact absurd (hline _ hmem) (by decide)
  have hfilter : text = (("name".toList ++ ' ' :: name) ::
      (("description".toList ++ [' ']) ++ description.filter fun c => c ≠ '\r') ::
        rest).flatMap (· ++ ['\n']) := by
    rw [hreplaced, replaceCrlf_eq_filter hreturn, hcontent,
      joinLines_append_newline (List.cons_ne_nil _ _), List.filter_flatMap, List.flatMap_cons,
      List.flatMap_cons, List.flatMap_cons, List.flatMap_cons, hitem _ (hnone _ hnameLine),
      hdescription, List.flatMap_congr fun line hline => hitem line (hrest line hline)]
  obtain ⟨piece, pieces, hpieces⟩ := List.exists_cons_of_ne_nil
    (List.splitOnP_ne_nil isLineBreak (description.filter fun c => c ≠ '\r'))
  refine ⟨piece, pieces, hpieces, ?_⟩
  rw [hfilter, splitlines_items, List.flatMap_cons, List.flatMap_cons, hcontext,
    List.splitOnP_eq_singleton hnameLine, Text.splitOnP_append_of_no_marks hkey, hpieces]
  · simp
  · rw [List.forall_mem_cons, List.forall_mem_cons]
    refine ⟨hnone _ hnameLine, ?_, hrest⟩
    rw [List.mem_append, not_or]
    refine ⟨hnone _ hkey, fun hmem => ?_⟩
    exact of_decide_eq_true (List.mem_filter.mp hmem).2 rfl

theorem readProjectContext_eq_ok {bytes : List UInt8} {text : List Char}
    (h : readProjectContext bytes = .ok text) : TextChars text := by
  unfold readProjectContext at h
  obtain ⟨read, -, h⟩ := bind_eq_ok.mp h
  obtain ⟨decoded, hdecoded, h⟩ := bind_eq_ok.mp h
  obtain ⟨original, -, -, hchars⟩ := decodeTextFile_eq_ok hdecoded
  dsimp only at h
  split_ifs at h
  · obtain ⟨_, habsurd, -⟩ := bind_eq_ok.mp h
    cases habsurd
  · cases h
    exact fun c hc => hchars c (Text.strip_subset isNewline _ hc)

theorem contextItems_eq_ok {text : List Char} {context : List (List Char)}
    (h : contextItems text = .ok context) : ∃ n, markerAt n ∉ splitlines text ∧
      context = [[], "context <<".toList ++ markerAt n, text, markerAt n] := by
  obtain ⟨n, -, -, hmarker, hfree⟩ := projectContextMarker_eq_some text
  unfold contextItems at h
  rw [hmarker] at h
  cases h
  exact ⟨n, hfree, rfl⟩

/-- From plain arguments the parser reads what was given. -/
theorem faithful_of_plain (hinit : initContent args destination = .ok content)
    (hload : loadProject host destination (utf8 content) = .ok project) (hplain : Plain args) :
    Faithful host destination args project := by
  obtain ⟨context, hcontext, hteams, hmounts, hcontent⟩ := initContent_eq_ok hinit
  obtain ⟨text, parsed, -, htext, hparsed, hfinish⟩ := loadProject_eq_ok hload
  obtain ⟨name, description, hname, hdescription, -, -, -, rfl⟩ := finish_eq_ok hfinish
  have hspaces : ∀ c ∈ args.effectiveName destination, isSpace c = false :=
    effectiveName_no_space hplain.name
  have hbreaks : ∀ c ∈ args.effectiveName destination, isLineBreak c = false := fun c hc =>
    isLineBreak_of_not_isSpace (hspaces c hc)
  have hcore : ∀ c ∈ strip (args.effectiveDescription destination), isLineBreak c = false :=
    effectiveDescription_no_breaks hplain.name hplain.description
  have hroots := initRoots_no_breaks hplain hteams hmounts
  have hreturns : ∀ line ∈ initRoots args, '\r' ∉ line := by
    intro line hline hmem
    exact absurd (hroots line hline _ hmem) (by decide)
  -- the description loses its carriage returns, which were white space at its ends
  have hstrip := strip_filter hcore
  have hcore' := hstrip ▸ hcore
  have hread : ∃ lineNo, parseLines host destination lineNo ⟨some (args.effectiveName destination),
      some (strip (args.effectiveDescription destination)),
      if args.contextFile = none then none else some args.givenContext, [], []⟩ none
      (initRoots args) = .ok parsed := by
    cases hfile : args.contextFile with
    | none =>
      rw [hfile] at hcontext
      cases hcontext
      rw [List.nil_append] at hcontent
      obtain ⟨piece, pieces, hpieces, hlines⟩ := splitlines_initContent hcontent htext hbreaks
        hreturns (flatMap_splitOnP_of_no_breaks hroots)
      rw [hlines] at hparsed
      obtain ⟨lineNo, hrest⟩ := parseLines_initHeader hspaces hcore' hpieces hparsed
      rw [hstrip] at hrest
      exact ⟨lineNo, hrest⟩
    | some bytes =>
      rw [hfile] at hcontext
      obtain ⟨given, hgiven, hitems⟩ := bind_eq_ok.mp hcontext
      obtain ⟨n, hfree, rfl⟩ := contextItems_eq_ok hitems
      have hchars := readProjectContext_eq_ok hgiven
      have hgivenContext : args.givenContext = joinLines (givenContextLines given) := by
        unfold InitArgs.givenContext
        rw [hfile]
        dsimp only
        rw [hgiven]
      have hgivenPlain := givenContextLines_plain (hgivenContext ▸ hplain.context)
      have hmarker : ∀ c ∈ markerAt n, isLineBreak c = false := by
        intro c hc
        exact isLineBreak_of_not_isSpace ((isWord_markerAt n).2 c
          (List.mem_cons_of_mem _ (List.mem_cons_of_mem _ hc)))
      have hopening : ∀ c ∈ "context <<".toList ++ markerAt n, isLineBreak c = false :=
        List.forall_mem_append.mpr ⟨by decide, hmarker⟩
      have hno : ∀ line : List Char, (∀ c ∈ line, isLineBreak c = false) → '\r' ∉ line :=
        fun line hline hmem => absurd (hline _ hmem) (by decide)
      have hreturns' : ∀ line ∈ [[], "context <<".toList ++ markerAt n, given, markerAt n] ++
          initRoots args, '\r' ∉ line := by
        rw [List.forall_mem_append, List.forall_mem_cons, List.forall_mem_cons,
          List.forall_mem_cons, List.forall_mem_singleton]
        exact ⟨⟨List.not_mem_nil, hno _ hopening, return_not_mem hchars, hno _ hmarker⟩, hreturns⟩
      have hpieces' : ([[], "context <<".toList ++ markerAt n, given, markerAt n] ++
          initRoots args).flatMap (List.splitOnP isLineBreak) =
            [] :: ("context <<".toList ++ markerAt n) :: (given.splitOnP isLineBreak ++
              markerAt n :: initRoots args) := by
        rw [List.flatMap_append, flatMap_splitOnP_of_no_breaks hroots, List.flatMap_cons,
          List.flatMap_cons, List.flatMap_cons, List.flatMap_singleton,
          List.splitOnP_eq_singleton hopening, List.splitOnP_eq_singleton hmarker]
        simp
      obtain ⟨piece, pieces, hpieces, hlines⟩ := splitlines_initContent hcontent htext hbreaks
        hreturns' hpieces'
      rw [hlines] at hparsed
      obtain ⟨lineNo, hrest⟩ := parseLines_initHeader hspaces hcore' hpieces hparsed
      obtain ⟨lineNo', hfinal⟩ := parseLines_writtenContext hfree hgivenPlain hrest
      rw [hstrip] at hfinal
      rw [hgivenContext]
      exact ⟨lineNo', hfinal⟩
  obtain ⟨lineNo, hread⟩ := hread
  obtain ⟨teams, mounts, hteamsGiven, hmountsGiven, rfl⟩ :=
    parseLines_initRoots hplain hteams hmounts hread
  have hgetD : (if args.contextFile = none then none else some args.givenContext).getD [] =
      args.givenContext := by
    split_ifs with hnone
    · unfold InitArgs.givenContext
      rw [hnone]
      rfl
    · rfl
  cases hname
  cases hdescription
  exact ⟨rfl, rfl, hgetD, hteamsGiven, hmountsGiven⟩

theorem no_space_of_resolveDirectory {value : List Char} {lineNo : ℕ} {label : String}
    {path : PurePath} (h : resolveDirectory host destination value lineNo label = .ok path) :
    ∀ c ∈ value, isSpace c = false := by
  unfold resolveDirectory at h
  obtain ⟨_, htoken, -⟩ := bind_eq_ok.mp h
  rw [demand_eq_ok] at htoken
  unfold isPathToken at htoken
  simp only [Bool.and_eq_true, Bool.not_eq_true', List.any_eq_false] at htoken
  intro c hc
  simpa using htoken.1.2 c hc

theorem break_of_mem_joinLines {lines : List (List Char)} (h : ∀ line ∈ lines, Printable line)
    {c : Char} (hc : c ∈ joinLines lines) (hbreak : isLineBreak c = true) : c = '\n' := by
  by_cases hne : lines = []
  · rw [hne] at hc
    cases hc
  · have hmem : c ∈ lines.flatMap (· ++ ['\n']) := by
      rw [← joinLines_append_newline hne]
      exact List.mem_append_left _ hc
    obtain ⟨line, hline, hmem⟩ := List.mem_flatMap.mp hmem
    rcases List.mem_append.mp hmem with hmem | hmem
    · rw [(h line hline c hmem).1] at hbreak
      cases hbreak
    · exact List.mem_singleton.mp hmem

/-- Where the parser reads what was given, the arguments were plain. -/
theorem plain_of_faithful {written : List UInt8}
    (hload : loadProject host destination written = .ok project)
    (hfaithful : Faithful host destination args project) : Plain args := by
  have hsound := sound_loadProject hload
  constructor
  · intro c hc
    have hname : args.effectiveName destination = args.name := if_pos (List.ne_nil_of_mem hc)
    have hword := isWord_name hsound.name
    rw [hfaithful.name, hname] at hword
    exact hword.2 c hc
  · intro c hc
    have hne : args.description ≠ [] := by
      intro hnil
      rw [hnil] at hc
      cases hc
    have hdescription : args.effectiveDescription destination = args.description := if_pos hne
    have hprintable := hsound.description.2.2
    rw [hfaithful.description, hdescription] at hprintable
    exact (hprintable c hc).1
  · rw [← hfaithful.context]
    intro c hc hbreak
    rcases hsound.context with hnil | ⟨lines, hlines, hcontext⟩
    · rw [hnil] at hc
      cases hc
    · rw [hcontext] at hc
      exact break_of_mem_joinLines hlines.printable hc hbreak
  · intro team hteam
    obtain ⟨found, -, -, hpath⟩ : ∃ found ∈ project.teams, TeamGiven host destination team found :=
      (mem_of_forall₂ hfaithful.teams).2 _ hteam
    exact no_space_of_resolveDirectory hpath
  · intro mount hmount
    obtain ⟨found, hfound, hname, -, hpath⟩ : ∃ found ∈ project.mounts,
        MountGiven host destination mount found := (mem_of_forall₂ hfaithful.mounts).2 _ hmount
    rw [hname]
    exact ⟨(isWord_name (hsound.mounts found hfound)).2, no_space_of_resolveDirectory hpath⟩

/-- The definition that the command leaves loads, and says exactly what was asked for if and only if
no name and no path has white space, and neither the stripped description nor the given context has
a line break that the writer does not know. -/
theorem cmdProjectInit_faithful {surroundings : Surroundings} {written : List UInt8}
    (h : cmdProjectInit surroundings destination args = .ok written) :
    ∃ project, loadProject surroundings.host destination written = .ok project ∧
      (Faithful surroundings.host destination args project ↔ Plain args) := by
  obtain ⟨content, project, hcontent, rfl, hload⟩ := cmdProjectInit_eq_ok h
  exact ⟨project, hload, plain_of_faithful hload, faithful_of_plain hcontent hload⟩

/-- A directory of free paths, for the examples below. -/
def emptyPlace : Surroundings := ⟨plainHost, fun _ => true, false, ".t"⟩

def initDestination : PurePath := ⟨"/", ["p", "a.cyclo"]⟩

def plainArgs : InitArgs := ⟨[], [' ', 'b'], none, [(['/', 't'], ['r', 'o'])],
    [(['m'], ['d'], ['r', 'w'])]⟩

theorem cmdProjectInit_plain : ∃ project,
    loadProject plainHost initDestination
      (utf8 "name a\ndescription  b\n\nteam /t ro\n\nmount m d rw\n".toList) = .ok project ∧
      Faithful plainHost initDestination plainArgs project := by
  have hinit : cmdProjectInit emptyPlace initDestination plainArgs =
      .ok (utf8 "name a\ndescription  b\n\nteam /t ro\n\nmount m d rw\n".toList) := by
    decide +kernel
  have hplain : Plain plainArgs := by
    constructor <;> decide
  obtain ⟨project, hload, hiff⟩ := cmdProjectInit_faithful hinit
  exact ⟨project, hload, hiff.mpr hplain⟩

/-- A description with a newline and a directive behind it. -/
def injectingArgs : InitArgs :=
  { plainArgs with description := "b\nmount n /e rw".toList }

/-- The text behind the newline becomes a mount that nobody asked for. -/
theorem cmdProjectInit_injects : ∃ written project,
    cmdProjectInit emptyPlace initDestination injectingArgs = .ok written ∧
      loadProject plainHost initDestination written = .ok project ∧
      project.mounts.length = 2 ∧ injectingArgs.mounts.length = 1 ∧
      ¬ Faithful plainHost initDestination injectingArgs project := by
  have hinit : cmdProjectInit emptyPlace initDestination injectingArgs = .ok (utf8
      "name a\ndescription b\nmount n /e rw\n\nteam /t ro\n\nmount m d rw\n".toList) := by
    decide +kernel
  have hload : loadProject plainHost initDestination (utf8
      "name a\ndescription b\nmount n /e rw\n\nteam /t ro\n\nmount m d rw\n".toList) =
        .ok ⟨initDestination, ['a'], ['b'], [], [⟨⟨"/", ["t"]⟩, .ro, 5⟩],
          [⟨['n'], ⟨"/", ["e"]⟩, .rw, 3⟩, ⟨['m'], ⟨"/", ["p", "d"]⟩, .rw, 7⟩]⟩ := by
    decide +kernel
  refine ⟨_, _, hinit, hload, rfl, rfl, fun hfaithful => ?_⟩
  have hlength := hfaithful.mounts.length_eq
  cases hlength

end

end Cyclo.Project
