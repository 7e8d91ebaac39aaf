import Cyclo.StateStore.Disk

/-! The operations of `StateStore`, each under the realm lock, with `instances/` in place. -/
namespace Cyclo.StateStore
open Python Process

abbrev Call := Raising (StoreOp Realm Change Failure Question) Failure

/-- The name of the root directory, and what the clock answers during one call. -/
structure Host where
  root : String
  now : ℕ → String

def get {β : Type} (read : Realm → β) : Call β := .perform (.get read)

def change (change : Change) : Call Unit := .perform (.change change)

def ask {β : Type} (question : Question β) : Call β := .perform (.ask question)

def fail {α : Type} (message : Message) : Call α := throw (.cyclo message)

/-- `except CycloError: raise`, `except OSError as exc: raise CycloError(...)` -/
def wrapping {α : Type} (message : Message) (call : Call α) : Call α :=
  .mapError (fun e => if e.isOs then .caused message e else e) call

/-- `_read_json`, from what stands at the path. -/
def readJson : File → Except Failure (List (String × Value))
  | .regular (.parsed (.dict entries)) => .ok entries
  | .regular (.parsed _) => .error (.cyclo .metadataNotObject)
  | .regular .malformed => .error .value
  | .regular .tooDeep => .error .recursion
  | .symlink _ => .error (.os "Too many levels of symbolic links")
  | .directory => .error (.cyclo .metadataNotRegular)
  | .special => .error (.cyclo .metadataNotRegular)

/-- `lstat` of `run.json` in an entry. -/
def statMetadata : Option Entry → Except Failure (Option File)
  | none => .ok none
  | some (.directory metadata _) => .ok metadata
  | some _ => .error (.os "Not a directory")

def openMetadata (entry : Option Entry) : Except Failure (List (String × Value)) := do
  match ← statMetadata entry with
  | none => .error .fileNotFound
  | some file => readJson file

def readMetadata (identifier : String) : Call (List (String × Value)) := do
  let data ← get fun realm => openMetadata (realm.entry identifier)
  .ofExcept data

/-- `Path.exists`, which follows a link. -/
def exists? : Option File → Bool
  | none => false
  | some (.symlink dangling) => !dangling
  | some _ => true

/-- `instance_dir`, and `metadata_path` too: the path itself is the identifier's. -/
def instanceDir (identifier : String) : Call Unit := do
  .ofExcept (validateInstanceId (.str identifier))
  match ← get fun realm => realm.entry identifier with
  | some .symlink => fail (.symlinkedDirectory identifier)
  | _ => pure ()

/-- `temporary.unlink(missing_ok=True)` -/
def unlinkTemporary (temporary : String) : Call Unit := do
  match ← get fun realm => realm.entry temporary with
  | none => pure ()
  | some _ => change (.unlinkTemporary temporary)

/-- `_replace_file`; `rename` moves the temporary file to its place. -/
def replaceFile (temporary : String) (document : Value) (rename : Change) : Call Unit :=
  .protect (do
    change (.createTemporary temporary)
    change (.writeTemporary temporary document)
    change .sync
    change rename
    change .sync) (unlinkTemporary temporary)

def validateExistingInstanceDocument (identifier : String) : Call Unit := do
  let existing ← .mapError (.caused (.existingInvalid identifier)) do
    let data ← readMetadata identifier
    .ofExcept (fromJson data)
  if existing.id = identifier then pure ()
  else fail (.existingMismatch identifier existing.id)

/-- What `_write_instance_document` asks of the directory that a document goes to. -/
def checkDestination (identifier : String) : Call Unit := do
  let metadata ← get fun realm => statMetadata (realm.entry identifier)
  match ← Raising.ofExcept metadata with
  | some (.regular _) => validateExistingInstanceDocument identifier
  | some _ => fail (.existingNotRegular identifier)
  | none =>
    match ← get fun realm => realm.entry identifier with
    | none => pure ()
    | some (.directory _ others) =>
      if others = [] then pure () else fail (.directoryNotEmpty identifier)
    | some _ => fail (.invalidDirectory identifier)

def prepareDirectory (identifier : String) : Call Unit := do
  match ← get fun realm => realm.entry identifier with
  | some .symlink => fail (.symlinkedDirectory identifier)
  | _ => change (.makeDirectory identifier)

def writeInstanceDocument (identifier : String) (document : Value) : Call Unit := do
  .ofExcept (validateInstanceId (.str identifier))
  instanceDir identifier
  wrapping (.cannotSave identifier) do
    instanceDir identifier
    checkDestination identifier
    prepareDirectory identifier
    let temporary := temporaryName identifier "run.json" (← ask .suffix)
    replaceFile temporary document (.renameToMetadata temporary identifier)
    change .sync
    change .sync

def publishDocument (document : List (String × Value)) : Call Unit :=
  match document.lookup "id" with
  | some (.str identifier) => writeInstanceDocument identifier (.dict document)
  | _ => fail .batchInvalidId

def publishInstanceBatch : List (List (String × Value)) → Call Unit
  | [] => pure ()
  | document :: documents => do
    publishDocument document
    publishInstanceBatch documents

/-- The documents of a batch; `identifiers` are those of the documents before. -/
def batchRecords (identifiers : List String) : List Value → Except Failure (List Record)
  | [] => .ok []
  | .dict raw :: raws => do
    let record ← fromJson raw
    require (record.id ∉ identifiers) (.cyclo (.batchRepeats record.id))
    return record :: (← batchRecords (record.id :: identifiers) raws)
  | _ :: _ => .error (.cyclo .batchNonObject)

def readBatch (payload : List (String × Value)) : Except Failure (List Record) := do
  require ((payload.lookup "schema").getD .null).isOne (.cyclo .batchSchema)
  match payload.lookup "instances" with
  | some (.list (raw :: raws)) => batchRecords [] (raw :: raws)
  | _ => .error (.cyclo .batchEmpty)

def readJournal : Option File → Except Failure (List (String × Value))
  | none => .error .fileNotFound
  | some file => readJson file

/-- Publication of the pending batch, and its end. -/
def completeBatch (documents : List (List (String × Value))) : Call Unit := do
  publishInstanceBatch documents
  change .unlinkJournal
  change .sync

/-- `except CycloError: raise`, `except (OSError, TypeError, ValueError)` -/
def recovering {α : Type} (call : Call α) : Call α :=
  .mapError (fun e => if e.isOs || e.isType || e.isValue then .caused .cannotRecover e else e) call

def recoverPendingBatchLocked : Call Unit := do
  if ← get fun realm => exists? realm.journal then
    recovering do
      let payload ← get fun realm => readJournal realm.journal
      let payload ← Raising.ofExcept payload
      let records ← Raising.ofExcept (readBatch payload)
      completeBatch (records.map fun record => record.fields.asJson)
  else pure ()

def recoverPendingBatch : Call Unit := do
  if ← get fun realm => exists? realm.journal then recoverPendingBatchLocked else pure ()

def loadFailure (identifier : String) : Failure → Failure
  | .fileNotFound => .cyclo (.notFound identifier)
  | e => .caused (.invalidState identifier) e

/-- `load`, once the pending batch is recovered. -/
def readInstance (identifier : String) : Call Record := do
  instanceDir identifier
  let record ← .mapError (loadFailure identifier) do
    let data ← readMetadata identifier
    .ofExcept (fromJson data)
  if record.id = identifier then pure record else fail (.idMismatch identifier record.id)

def load (identifier : String) : Call Record := do
  recoverPendingBatch
  readInstance identifier

/-- The times that `_prepare_instance` sets. -/
def Instance.stamp (i : Instance) (now : String) : Instance :=
  { i with
    createdAt := if i.createdAt.truthy then i.createdAt else .str now
    updatedAt := .str now }

def prepareInstance (now : String) (i : Instance) : Except Failure Record := do
  validateInstanceId i.id
  (fromJson (i.stamp now).asJson).mapError (.caused (.invalidInstance i.id))

def save (host : Host) (i : Instance) : Call Unit := do
  recoverPendingBatch
  let record ← Raising.ofExcept (prepareInstance (host.now 0) i)
  writeInstanceDocument record.id record.document

/-- The loop over a cohort; `identifiers` are those of the entries before. -/
def prepareBatch (now : ℕ → String) (identifiers : List String) :
    List Instance → Except Failure (List Record)
  | [] => .ok []
  | i :: instances => do
    require i.id.hashable (.type (.unhashable i.id))
    require (i.id.text ∉ identifiers || !i.id.isStr) (.cyclo (.duplicate i.id))
    let record ← prepareInstance (now identifiers.length) i
    return record :: (← prepareBatch now (record.id :: identifiers) instances)

/-- The content of `pending-instance-batch.json`. -/
def batchDocument (records : List Record) : Value :=
  .dict [("schema", .int 1), ("instances", .list (records.map Record.document))]

def saveMany (host : Host) (instances : List Instance) : Call Unit := do
  recoverPendingBatchLocked
  if instances = [] then pure ()
  else do
    let records ← Raising.ofExcept (prepareBatch host.now [] instances)
    wrapping .cannotPublish do
      let temporary := temporaryName host.root "pending-instance-batch.json" (← ask .suffix)
      replaceFile temporary (batchDocument records) (.renameToJournal temporary)
      completeBatch (records.map fun record => record.fields.asJson)

def isHidden (name : String) : Bool := name.toList.head? = some '.'

def requireDirectory (name : String) : Call Unit := do
  match ← get fun realm => realm.entry name with
  | some (.directory _ _) => pure ()
  | _ => fail .entryNotDirectory

/-- One entry of the enumeration, without the handler. -/
def loadEntry (name : String) : Call (Option Record) := do
  .ofExcept (validateInstanceId (.str name))
  requireDirectory name
  instanceDir name
  match ← get fun realm => realm.entry name with
  | some (.directory metadata others) =>
    if exists? metadata then return some (← load name)
    else if metadata.isNone && others.isEmpty then return none
    else fail .entryNoMetadata
  | _ => fail .entryNoMetadata

/-- `except (OSError, ValueError, TypeError, CycloError)` -/
def Failure.isReported (e : Failure) : Bool := e.isOs || e.isValue || e.isType || e.isCyclo

def reportEntry (name : String) : Call (Except Failure (Option Record)) :=
  .rescue (do return .ok (← loadEntry name)) fun e =>
    if e.isReported then pure (.error (.caused (.entry name) e)) else throw e

def reportEntries : List String → Call (List Record × List Failure)
  | [] => pure ([], [])
  | name :: names =>
    if isHidden name then reportEntries names
    else do
      let report ← reportEntry name
      let (records, errors) ← reportEntries names
      match report with
      | .ok none => return (records, errors)
      | .ok (some record) => return (record :: records, errors)
      | .error e => return (records, e :: errors)

def listNames : Call (Except Failure (List String)) :=
  .rescue (do return .ok (← ask .names)) fun e => if e.isOs then pure (.error e) else throw e

def listReportLocked : Call (List Record × List Failure) := do
  recoverPendingBatchLocked
  match ← listNames with
  | .error e => return ([], [.caused .cannotEnumerate e])
  | .ok names =>
    let (records, errors) ← reportEntries (sortedBy id names)
    return (sortedBy Record.id records, errors)

def listReport : Call (List Record × List Failure) :=
  .rescue listReportLocked fun e => if e.isCyclo then pure ([], [e]) else throw e

def list : Call (List Record) := do
  let (records, errors) ← listReport
  if errors.isEmpty then pure records else throw (.enumeration errors)

def remove (identifier : String) : Call Unit := do
  let record ← load identifier
  (if record.fields.intent.text = "stopped" then pure () else fail (.running identifier))
  instanceDir identifier
  let quarantine := quarantineName identifier (← ask .suffix)
  wrapping (.cannotDelete identifier) do
    change (.renameDirectory identifier quarantine)
    change .sync
    change (.removeTree quarantine)
    change .sync

inductive Operation where
  | load (identifier : String)
  | listReport
  | list
  | save (i : Instance)
  | saveMany (instances : List Instance)
  | remove (identifier : String)

inductive Result where
  | record (record : Record)
  | report (records : List Record) (errors : List Failure)
  | records (records : List Record)
  | done

def Operation.call (host : Host) : Operation → Call Result
  | .load identifier => do return .record (← StateStore.load identifier)
  | .listReport => do
    let (records, errors) ← StateStore.listReport
    return .report records errors
  | .list => do return .records (← StateStore.list)
  | .save i => do
    StateStore.save host i
    return .done
  | .saveMany instances => do
    StateStore.saveMany host instances
    return .done
  | .remove identifier => do
    StateStore.remove identifier
    return .done

end Cyclo.StateStore
