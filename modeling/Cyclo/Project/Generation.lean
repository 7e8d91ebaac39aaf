import Cyclo.Project.Rendering
import Cyclo.Python.Json

/-! The generation of a project, and the files that are written for its instances. -/
namespace Cyclo.Project
open Python

def teamJson (team : ProjectTeam) : Json :=
  .dict [("mode", .str (String.ofList team.mode.text)), ("path", .str team.path.text)]

def mountJson (mount : ProjectMount) : Json :=
  .dict [("mode", .str (String.ofList mount.mode.text)), ("name", .str (String.ofList mount.name)),
    ("path", .str mount.path.text)]

/-- The hashed part of a definition; the keys are sorted. -/
def ProjectDefinition.payload (project : ProjectDefinition) : Json :=
  .dict [("context", .str (String.ofList project.context)),
    ("description", .str (String.ofList project.description)),
    ("mounts", .list (project.mounts.map mountJson)),
    ("name", .str (String.ofList project.name)),
    ("schema", .int 3),
    ("teams", .list (project.teams.map teamJson))]

def ProjectDefinition.encoded (project : ProjectDefinition) : List UInt8 :=
  utf8 project.payload.dumps

section
variable (sha256 : List UInt8 → List Char)

/-- `_definition_sha256`, with `hashlib.sha256(…).hexdigest()` -/
def definitionSha256 (project : ProjectDefinition) : List Char := sha256 project.encoded

/-- Why no instance is made, or its files cannot be written. -/
inductive RunRejection where
  | project (reason : Rejection)
  | invalidInstanceId (value : List Char)
  | duplicateInstanceId (identifier : List Char)
  | alreadyExists
  | notSelected (identifier : List Char)
  | unexpectedContent
  deriving DecidableEq

/-- `INSTANCE_RE.fullmatch` -/
def matchesInstanceId : List Char → Bool := matchesTeamName

def validateInstanceId (value : List Char) : Except RunRejection (List Char) := do
  demand (value ∉ [['.'], ['.', '.']] ∧ matchesInstanceId value = true) (.invalidInstanceId value)
  return value

/-- What the digest in a long identifier is taken of. -/
def identityBytes (project : ProjectDefinition) (team : ProjectTeam) : List UInt8 :=
  utf8 (project.path.text.toList ++ '\x00' :: team.path.text.toList)

def readableId (project : ProjectDefinition) (team : ProjectTeam) : List Char :=
  project.name ++ '-' :: foldedName team.path

/-- The identifier before it is checked. -/
def rawInstanceId (project : ProjectDefinition) (team : ProjectTeam) : List Char :=
  if (readableId project team).length ≤ 64 then readableId project team
  else ((readableId project team).take 55).rdropWhile isPunctuation ++
    '-' :: (sha256 (identityBytes project team)).take 8

/-- `project_instance_id` -/
def projectInstanceId (project : ProjectDefinition) (team : ProjectTeam) :
    Except RunRejection (List Char) :=
  validateInstanceId (rawInstanceId sha256 project team)

/-- The fields of an instance that its files are made from. -/
structure Instance where
  projectGeneration : List Char
  projectConfig : List Char
  piDefaultProvider : List Char
  piDefaultModel : List Char
  deriving DecidableEq

/-- The host, and what of it is read when a project is loaded: the project file, and of every team
the provider and the model of its first agent. -/
structure Load where
  host : Host
  source : PurePath
  content : List UInt8
  firstAgent : PurePath → List Char × List Char
  canonical : ∀ path resolved, host.resolve path = some resolved →
    PurePath.ofText resolved.text = resolved

def Load.project (load : Load) : Except RunRejection ProjectDefinition :=
  (loadProject load.host load.source load.content).mapError .project

/-- `new_instance`, and the replacement in `_refresh_instance` -/
def newInstance (load : Load) (project : ProjectDefinition) (team : ProjectTeam) :
    Except RunRejection Instance := do
  let config ← (renderContainerProject project team).mapError .project
  let (provider, model) := load.firstAgent team.path
  return ⟨definitionSha256 sha256 project, config, provider, model⟩

/-- The loop of `project_run_bindings`, behind the identifiers so far. -/
def bindTeams (load : Load) (project : ProjectDefinition) :
    List (List Char) → List ProjectTeam → Except RunRejection (List (List Char × Instance))
  | _, [] => return []
  | identifiers, team :: teams => do
    let identifier ← projectInstanceId sha256 project team
    demand (identifier ∉ identifiers) (.duplicateInstanceId identifier)
    let made ← newInstance sha256 load project team
    let rest ← bindTeams load project (identifier :: identifiers) teams
    return (identifier, made) :: rest

def projectRunBindings (load : Load) : Except RunRejection (List (List Char × Instance)) := do
  let project ← load.project
  bindTeams sha256 load project [] project.teams

/-- `_refresh_instance` -/
def refreshInstance (load : Load) (identifier : List Char) : Except RunRejection Instance := do
  let project ← load.project
  let named ← project.teams.mapM fun team => do
    let found ← projectInstanceId sha256 project team
    return (found, team)
  match named.filter fun entry => entry.1 = identifier with
  | [entry] => newInstance sha256 load project entry.2
  | _ => throw (.notSelected identifier)

/-- The immutable files of an instance, below a directory named after their generation. -/
inductive RuntimeFile where
  | projectConfig (identifier generation : List Char)
  | piSettings (identifier digest : List Char)
  deriving DecidableEq

abbrev Files := RuntimeFile → Option (List UInt8)

/-- `_immutable_file`, where only these files are ever made. -/
def immutableFile (file : RuntimeFile) (content : List UInt8) (files : Files) :
    Except RunRejection Files :=
  match files file with
  | some found => if found = content then return files else throw .unexpectedContent
  | none => return fun other => if other = file then some content else files other

def configContent (config : List Char) : List UInt8 := utf8 (config.rdropWhile isSpace) ++ [0x0a]

/-- The settings of an agent, as `json.dumps` indents them. -/
def piSettings (provider model : List Char) : List UInt8 :=
  utf8 (joinLines [['\x7b'],
    "  \"defaultModel\": ".toList ++ (Json.quote (String.ofList model)).toList ++ [','],
    "  \"defaultProvider\": ".toList ++ (Json.quote (String.ofList provider)).toList ++ [','],
    "  \"defaultThinkingLevel\": \"xhigh\",".toList,
    "  \"packages\": [".toList,
    "    \"npm:pi-web-access\",".toList,
    "    \"npm:pi-lens\",".toList,
    "    \"npm:pi-simplify\",".toList,
    ("    \"/opt/cyclo-agent-tools/lib/node_modules/@earendil-works/pi-coding-agent/" ++
      "node_modules/pi-safe-compact\",").toList,
    "    \"/opt/cyclo/team/pi\"".toList,
    "  ]".toList, ['\x7d'], []])

def settingsContent (i : Instance) : List UInt8 := piSettings i.piDefaultProvider i.piDefaultModel

/-- `materialize_instance`: the files afterwards, and the error if there is one. -/
def materializeInstance (identifier : List Char) (i : Instance) (files : Files) :
    Files × Option RunRejection :=
  match immutableFile (.projectConfig identifier i.projectGeneration) (configContent i.projectConfig)
      files with
  | .error reason => (files, some reason)
  | .ok files =>
    match immutableFile (.piSettings identifier (sha256 (settingsContent i))) (settingsContent i)
        files with
    | .error reason => (files, some reason)
    | .ok files => (files, none)

structure State where
  instances : List Char → Option Instance
  files : Files

/-- What is done to projects and instances; a project file may have changed at every load, and what
fails changes nothing but files. -/
inductive Event where
  | run (load : Load)
  | refresh (load : Load) (identifier : List Char)
  | materialize (identifier : List Char)
  | forget (identifier : List Char)

def Event.load : Event → Option Load
  | .run load => some load
  | .refresh load _ => some load
  | _ => none

def State.empty : State := ⟨fun _ => none, fun _ => none⟩

def State.save (state : State) (identifier : List Char) (i : Instance) : State :=
  { state with instances := fun other =>
      if other = identifier then some i else state.instances other }

def State.forget (state : State) (identifier : List Char) : State where
  instances other := if other = identifier then none else state.instances other
  files
    | .projectConfig other generation =>
      if other = identifier then none else state.files (.projectConfig other generation)
    | .piSettings other digest =>
      if other = identifier then none else state.files (.piSettings other digest)

def step (state : State) : Event → State
  | .run load =>
    match projectRunBindings sha256 load with
    | .error _ => state
    | .ok bindings =>
      if bindings.all fun binding => (state.instances binding.1).isNone then
        bindings.foldl (fun state binding => state.save binding.1 binding.2) state
      else state
  | .refresh load identifier =>
    match state.instances identifier, refreshInstance sha256 load identifier with
    | some _, .ok i => state.save identifier i
    | _, _ => state
  | .materialize identifier =>
    match state.instances identifier with
    | none => state
    | some i => { state with files := (materializeInstance sha256 identifier i state.files).1 }
  | .forget identifier => state.forget identifier

def run (events : List Event) : State := events.foldl (step sha256) .empty

end

end Cyclo.Project
