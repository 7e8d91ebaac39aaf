import Cyclo.Python.Text

/-! The durable record of an instance, and the checks that a stored document has to pass. -/
namespace Cyclo.StateStore
open Python

/-- A value of a document. A float is the bits of a double. -/
inductive Value where
  | null
  | bool (value : Bool)
  | int (value : ℤ)
  | float (bits : UInt64)
  | str (value : String)
  | list (values : List Value)
  | dict (entries : List (String × Value))

namespace Value

def isStr : Value → Bool
  | .str _ => true
  | _ => false

def isBool : Value → Bool
  | .bool _ => true
  | _ => false

/-- A string's characters; used only where the value was found to be one. -/
def text : Value → String
  | .str value => value
  | _ => ""

/-- `value == 1` -/
def isOne : Value → Bool
  | .bool value => value
  | .int value => value = 1
  | .float bits => bits = 0x3ff0000000000000
  | _ => false

/-- `bool(value)` -/
def truthy : Value → Bool
  | .null => false
  | .bool value => value
  | .int value => value ≠ 0
  | .float bits => bits ≠ 0 && bits ≠ 0x8000000000000000
  | .str value => value ≠ ""
  | .list values => !values.isEmpty
  | .dict entries => !entries.isEmpty

def hashable : Value → Bool
  | .list _ => false
  | .dict _ => false
  | _ => true

end Value

/-- What `decode_instance_project` finds wrong; the numbers are positions in `project_mounts`. -/
inductive ProjectIssue where
  | fileRequired
  | fileNotAbsolute
  | notString (field : String)
  | required (field : String)
  | noMounts
  | mountNotObject (index : ℕ)
  | mountName (index : ℕ)
  | mountPath (index : ℕ)
  | mountMode (index : ℕ)

/-- The text of a `TypeError`. -/
inductive Issue where
  | unknownFields (names : List String)
  | missingFields (names : List String)
  | unsupportedSchema (schema : Value)
  | notString (field : String)
  | notBoolean (field : String)
  | intent
  | models
  | mounts
  | port
  | required (field : String)
  | image
  | notAbsolute (field : String)
  | roster
  | unhashable (value : Value)

/-- The text of a `CycloError`, up to the exception that caused it. -/
inductive Message where
  | invalidId (value : Value)
  | invalidProject (identifier : Value) (issues : List ProjectIssue)
  | symlinkedDirectory (identifier : String)
  | notFound (identifier : String)
  | invalidState (identifier : String)
  | idMismatch (expected found : String)
  | duplicate (identifier : Value)
  | invalidInstance (identifier : Value)
  | metadataNotRegular
  | metadataNotObject
  | existingNotRegular (identifier : String)
  | existingInvalid (identifier : String)
  | existingMismatch (expected found : String)
  | invalidDirectory (identifier : String)
  | directoryNotEmpty (identifier : String)
  | batchSchema
  | batchEmpty
  | batchNonObject
  | batchRepeats (identifier : String)
  | batchInvalidId
  | cannotSave (identifier : String)
  | cannotPublish
  | cannotRecover
  | running (identifier : String)
  | cannotDelete (identifier : String)
  | cannotEnumerate
  | entry (name : String)
  | entryNotDirectory
  | entryNoMetadata

/-- An exception on its way. `caused` is the text of the `CycloError`, a colon and the cause. -/
inductive Failure where
  | os (text : String)
  | fileNotFound
  | value
  | recursion
  | type (issue : Issue)
  | cyclo (message : Message)
  | caused (message : Message) (cause : Failure)
  | enumeration (errors : List Failure)

namespace Failure

def isCyclo : Failure → Bool
  | .cyclo _ => true
  | .caused _ _ => true
  | .enumeration _ => true
  | _ => false

/-- `FileNotFoundError` is one. -/
def isOs : Failure → Bool
  | .os _ => true
  | .fileNotFound => true
  | _ => false

def isValue : Failure → Bool
  | .value => true
  | _ => false

def isType : Failure → Bool
  | .type _ => true
  | _ => false

end Failure

def isAlphanumeric (c : Char) : Bool :=
  'a' ≤ c && c ≤ 'z' || 'A' ≤ c && c ≤ 'Z' || '0' ≤ c && c ≤ '9'

def isMark (c : Char) : Bool := c = '.' || c = '_' || c = '-'

/-- `^[A-Za-z0-9][A-Za-z0-9._-]{0,63}$` -/
def instanceRe (value : String) : Bool :=
  match value.toList with
  | [] => false
  | c :: rest =>
    isAlphanumeric c && rest.all (fun d => isAlphanumeric d || isMark d) && rest.length ≤ 63

/-- `^[a-z0-9][a-z0-9._-]{0,63}$` -/
def mountNameRe (value : String) : Bool :=
  instanceRe value && value.toList.all fun c => !('A' ≤ c && c ≤ 'Z')

def validId (value : String) : Bool := value ≠ "." && value ≠ ".." && instanceRe value

def validateInstanceId : Value → Except Failure Unit
  | .str value => if validId value then pure () else throw (.cyclo (.invalidId (.str value)))
  | value => throw (.cyclo (.invalidId value))

/-- Cyclo's durable domain record, with whatever values its fields were given. -/
structure Instance where
  id : Value
  teamName : Value
  teamPath : Value
  generation : Value
  models : Value
  image : Value
  imageOverride : Value
  teamWrite : Value
  offline : Value
  verbose : Value
  agentwsHost : Value
  intent : Value
  requestedPort : Value
  teamRoster : Value
  teamProtocol : Value
  piDefaultProvider : Value
  piDefaultModel : Value
  projectName : Value
  projectFile : Value
  projectDescription : Value
  projectGeneration : Value
  projectConfig : Value
  projectMounts : Value
  runtimeVersion : Value
  createdAt : Value := .str ""
  updatedAt : Value := .str ""
  schema : Value := .int 1

namespace Instance

def asJson (i : Instance) : List (String × Value) :=
  [("id", i.id), ("team_name", i.teamName), ("team_path", i.teamPath),
    ("generation", i.generation), ("models", i.models), ("image", i.image),
    ("image_override", i.imageOverride), ("team_write", i.teamWrite), ("offline", i.offline),
    ("verbose", i.verbose), ("agentws_host", i.agentwsHost), ("intent", i.intent),
    ("requested_port", i.requestedPort), ("team_roster", i.teamRoster),
    ("team_protocol", i.teamProtocol), ("pi_default_provider", i.piDefaultProvider),
    ("pi_default_model", i.piDefaultModel), ("project_name", i.projectName),
    ("project_file", i.projectFile), ("project_description", i.projectDescription),
    ("project_generation", i.projectGeneration), ("project_config", i.projectConfig),
    ("project_mounts", i.projectMounts), ("runtime_version", i.runtimeVersion),
    ("created_at", i.createdAt), ("updated_at", i.updatedAt), ("schema", i.schema)]

/-- The fields without a default. -/
def requiredFields : List String :=
  ["id", "team_name", "team_path", "generation", "models", "image", "image_override", "team_write",
    "offline", "verbose", "agentws_host", "intent", "requested_port", "team_roster",
    "team_protocol", "pi_default_provider", "pi_default_model", "project_name", "project_file",
    "project_description", "project_generation", "project_config", "project_mounts",
    "runtime_version"]

def fields : List String := requiredFields ++ ["created_at", "updated_at", "schema"]

/-- `cls(**payload)`, with the defaults of the three optional fields. -/
def ofPayload (payload : List (String × Value)) : Instance :=
  let field := fun name => (payload.lookup name).getD .null
  { id := field "id"
    teamName := field "team_name"
    teamPath := field "team_path"
    generation := field "generation"
    models := field "models"
    image := field "image"
    imageOverride := field "image_override"
    teamWrite := field "team_write"
    offline := field "offline"
    verbose := field "verbose"
    agentwsHost := field "agentws_host"
    intent := field "intent"
    requestedPort := field "requested_port"
    teamRoster := field "team_roster"
    teamProtocol := field "team_protocol"
    piDefaultProvider := field "pi_default_provider"
    piDefaultModel := field "pi_default_model"
    projectName := field "project_name"
    projectFile := field "project_file"
    projectDescription := field "project_description"
    projectGeneration := field "project_generation"
    projectConfig := field "project_config"
    projectMounts := field "project_mounts"
    runtimeVersion := field "runtime_version"
    createdAt := (payload.lookup "created_at").getD (.str "")
    updatedAt := (payload.lookup "updated_at").getD (.str "")
    schema := (payload.lookup "schema").getD (.int 1) }

def textFields (i : Instance) : List (String × Value) :=
  [("id", i.id), ("team_name", i.teamName), ("team_path", i.teamPath),
    ("generation", i.generation), ("image", i.image), ("image_override", i.imageOverride),
    ("agentws_host", i.agentwsHost), ("intent", i.intent), ("team_roster", i.teamRoster),
    ("pi_default_provider", i.piDefaultProvider), ("pi_default_model", i.piDefaultModel),
    ("project_name", i.projectName), ("project_file", i.projectFile),
    ("project_description", i.projectDescription), ("project_generation", i.projectGeneration),
    ("project_config", i.projectConfig), ("runtime_version", i.runtimeVersion),
    ("created_at", i.createdAt), ("updated_at", i.updatedAt)]

def flagFields (i : Instance) : List (String × Value) :=
  [("team_write", i.teamWrite), ("offline", i.offline), ("verbose", i.verbose),
    ("team_protocol", i.teamProtocol)]

/-- The fields that may not be blank. -/
def filledFields (i : Instance) : List (String × Value) :=
  [("team_name", i.teamName), ("team_path", i.teamPath), ("generation", i.generation),
    ("image", i.image), ("agentws_host", i.agentwsHost), ("team_roster", i.teamRoster),
    ("pi_default_provider", i.piDefaultProvider), ("pi_default_model", i.piDefaultModel),
    ("project_name", i.projectName), ("project_file", i.projectFile),
    ("project_description", i.projectDescription), ("project_generation", i.projectGeneration),
    ("project_config", i.projectConfig), ("runtime_version", i.runtimeVersion)]

end Instance

def require (accepted : Bool) (failure : Failure) : Except Failure Unit :=
  if accepted then pure () else throw failure

def isModelList : Value → Bool
  | .list values => !values.isEmpty && values.all fun
    | .str value => value ≠ ""
    | _ => false
  | _ => false

def isList : Value → Bool
  | .list _ => true
  | _ => false

def isPort : Value → Bool
  | .int value => 0 ≤ value && value ≤ 65535
  | _ => false

def isBlank (text : String) : Bool := text.toList.all isSpace

def isImageId (text : String) : Bool :=
  text.startsWith "sha256:" && text.length = 71 &&
    (text.toList.drop 7).all fun c => '0' ≤ c && c ≤ '9' || 'a' ≤ c && c ≤ 'f'

def isFileName (text : String) : Bool :=
  (PurePath.ofText text).name = text && text ≠ "." && text ≠ ".."

/-- One mount of `project_mounts`: the issue with it, if there is one. -/
def mountIssue (index : ℕ) : Value → Except Failure (Option ProjectIssue)
  | .dict mount =>
    match mount.lookup "name" with
    | some (.str name) =>
      if name = "." ∨ name = ".." ∨ !mountNameRe name then return some (.mountName index)
      else match mount.lookup "path" with
        | some (.str path) =>
          if path = "" ∨ !(PurePath.ofText path).isAbsolute then return some (.mountPath index)
          else match mount.lookup "mode" with
            | some (.str mode) =>
              return if mode = "ro" ∨ mode = "rw" then none else some (.mountMode index)
            | some mode =>
              -- a set does not answer for a list or an object
              if mode.hashable then return some (.mountMode index)
              else throw (.type (.unhashable mode))
            | none => return some (.mountMode index)
        | _ => return some (.mountPath index)
    | _ => return some (.mountName index)
  | _ => return some (.mountNotObject index)

/-- The errors `decode_instance_project` collects; of its result the store reads nothing else. -/
def decodeInstanceProject (i : Instance) : Except Failure (List ProjectIssue) := do
  let text := fun (field : String) (value : Value) =>
    if value.isStr then [] else [ProjectIssue.notString field]
  let file := text "project_file" i.projectFile ++
    if i.projectFile.text = "" then [.fileRequired]
    else if (PurePath.ofText i.projectFile.text).isAbsolute then [] else [.fileNotAbsolute]
  let texts := text "project_name" i.projectName ++
    text "project_description" i.projectDescription ++
    text "project_generation" i.projectGeneration
  let blanks := [("project_name", i.projectName), ("project_description", i.projectDescription),
    ("project_generation", i.projectGeneration)].filterMap fun (field, value) =>
      if value.text = "" then some (ProjectIssue.required field) else none
  let mounts ← match i.projectMounts with
    | .list [] => pure [some .noMounts]
    | .list mounts => (mounts.zipIdx).mapM fun (mount, index) => mountIssue index mount
    | _ => pure [some (.notString "project_mounts")]
  return file ++ texts ++ blanks ++ mounts.reduceOption

/-- What `from_json` checks once the fields are known to be those of an instance. -/
def Instance.check (i : Instance) : Except Failure Unit := do
  require i.schema.isOne (.type (.unsupportedSchema i.schema))
  i.textFields.forM fun (field, value) => require value.isStr (.type (.notString field))
  i.flagFields.forM fun (field, value) => require value.isBool (.type (.notBoolean field))
  require (i.intent.text = "running" ∨ i.intent.text = "stopped") (.type .intent)
  require (isModelList i.models) (.type .models)
  require (isList i.projectMounts) (.type .mounts)
  require (isPort i.requestedPort) (.type .port)
  validateInstanceId i.id
  i.filledFields.forM fun (field, value) => require (!isBlank value.text) (.type (.required field))
  require (isImageId i.image.text) (.type .image)
  [("team_path", i.teamPath), ("project_file", i.projectFile)].forM fun (field, value) =>
    require (PurePath.ofText value.text).isAbsolute (.type (.notAbsolute field))
  require (isFileName i.teamRoster.text) (.type .roster)
  let issues ← decodeInstanceProject i
  require issues.isEmpty (.cyclo (.invalidProject i.id issues))

/-- An instance that passed the checks. -/
structure Record where
  fields : Instance
  valid : fields.check = .ok ()

namespace Record

def id (record : Record) : String := record.fields.id.text

/-- The document that is stored. -/
def document (record : Record) : Value := .dict record.fields.asJson

end Record

def Instance.validate (i : Instance) : Except Failure Record :=
  match h : i.check with
  | .ok () => .ok ⟨i, h⟩
  | .error e => .error e

def fromJson (data : List (String × Value)) : Except Failure Record := do
  let names := data.map Prod.fst
  let unknown := sortedBy id (names.filter (· ∉ Instance.fields))
  require unknown.isEmpty (.type (.unknownFields unknown))
  let absent := sortedBy id (Instance.requiredFields.filter (· ∉ names))
  require absent.isEmpty (.type (.missingFields absent))
  (Instance.ofPayload data).validate

theorem require_eq_ok {accepted : Bool} {failure : Failure} :
    require accepted failure = .ok () ↔ accepted = true := by
  cases accepted with
  | true => exact iff_of_true rfl rfl
  | false => exact iff_of_false nofun nofun

namespace Instance

theorem validate_eq_ok {i : Instance} {record : Record} :
    i.validate = .ok record ↔ record.fields = i := by
  unfold validate
  constructor
  · intro h
    split at h
    · cases h
      rfl
    · cases h
  · intro h
    subst h
    split
    · rfl
    · rename_i e he
      have hok := he.symm.trans record.valid
      cases hok

theorem ofPayload_asJson (i : Instance) : ofPayload i.asJson = i := rfl

theorem fromJson_asJson (i : Instance) : fromJson i.asJson = i.validate := by
  have hnames : i.asJson.map Prod.fst = fields := rfl
  unfold fromJson
  simp only [hnames, ofPayload_asJson]
  rfl

/-- What the checks ask of the fields that the store itself reads. -/
theorem of_check {i : Instance} (h : i.check = .ok ()) :
    (∃ identifier, i.id = .str identifier ∧ validId identifier = true) ∧
      (i.intent.text = "running" ∨ i.intent.text = "stopped") := by
  unfold check at h
  obtain ⟨_, -, h⟩ := bind_eq_ok.mp h
  obtain ⟨_, htexts, h⟩ := bind_eq_ok.mp h
  obtain ⟨_, -, h⟩ := bind_eq_ok.mp h
  obtain ⟨_, hintent, h⟩ := bind_eq_ok.mp h
  obtain ⟨_, -, h⟩ := bind_eq_ok.mp h
  obtain ⟨_, -, h⟩ := bind_eq_ok.mp h
  obtain ⟨_, -, h⟩ := bind_eq_ok.mp h
  obtain ⟨_, hid, -⟩ := bind_eq_ok.mp h
  refine ⟨?_, of_decide_eq_true (require_eq_ok.mp hintent)⟩
  have hstr := require_eq_ok.mp (forM_eq_ok.mp htexts ("id", i.id) List.mem_cons_self)
  cases hvalue : i.id with
  | str identifier =>
    rw [hvalue] at hid
    refine ⟨identifier, rfl, ?_⟩
    by_contra hinvalid
    rw [validateInstanceId, if_neg hinvalid] at hid
    cases hid
  | _ =>
    rw [hvalue] at hstr
    cases hstr

end Instance

namespace Record

theorem fields_id (record : Record) : record.fields.id = .str record.id := by
  obtain ⟨⟨identifier, hid, -⟩, -⟩ := Instance.of_check record.valid
  rw [Record.id, hid]
  rfl

theorem validId (record : Record) : validId record.id = true := by
  obtain ⟨⟨identifier, hid, hvalid⟩, -⟩ := Instance.of_check record.valid
  rw [Record.id, hid]
  exact hvalid

/-- A stored record is read back as it was. -/
theorem fromJson_fields (record : Record) : fromJson record.fields.asJson = .ok record := by
  rw [Instance.fromJson_asJson]
  exact Instance.validate_eq_ok.mpr rfl

end Record

end Cyclo.StateStore
