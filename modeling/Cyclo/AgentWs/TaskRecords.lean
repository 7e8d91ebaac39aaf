import Cyclo.AgentWs.Lib
import Cyclo.Process.Storage
import Cyclo.Results
import Mathlib.Data.List.DropRight

/-! `bin/task-comment`, `bin/task-state` and `bin/task-result` on one task, under its control lock.
A log is written character by character, so that a write can stop anywhere. -/
namespace Cyclo.AgentWs.TaskRecords
open Cyclo.Process

abbrev Text := List Char

/-- What stands at a path: a regular file, or a link, a directory and the like. -/
inductive Node where
  | regular (content : Text)
  | other

structure TaskDir where
  controlLock : Option Node := none
  creating : Option Node := none
  spec : Option Node := none
  state : Option Node := none
  log : Option Node := none
  result : Option Node := none

/-- Steps that only a temporary file of the process's own takes part in. -/
inductive SystemCall where
  | makeTemporary
  | writeTemporary
  | copyToTemporary

inductive Change where
  | openLock
  | replaceState (content : Text)
  | replaceResult (content : Text)
  | appendLog (c : Char)
  | system (call : SystemCall)

/-- The effect of a change; `none` when the file system refuses it. -/
def Change.apply (task : TaskDir) : Change → Option TaskDir
  | .openLock =>
    match task.controlLock with
    | none => some { task with controlLock := some (.regular []) }
    | some (.regular _) => some task
    | some .other => none
  | .replaceState content => some { task with state := some (.regular content) }
  | .replaceResult content => some { task with result := some (.regular content) }
  | .appendLog c =>
    match task.log with
    | none => some { task with log := some (.regular [c]) }
    | some (.regular content) => some { task with log := some (.regular (content ++ [c])) }
    | some .other => none
  | .system _ => some task

inductive Error where
  /-- `die`, or the usage. -/
  | die (message : String)
  | external

/-- The date, what stands at the path of the result file, and what `cp` reads there. -/
inductive Question : Type → Type where
  | timestamp : Question Text
  | resultFile : Question (Option Node)
  | copied : Question Text

def storage : Storage TaskDir Change Error Question where
  apply change task := change.apply task
  answers _ _ _ := True
  fault e := e = .external
  refusal := .external
  fault_refusal := rfl
  surfaces e := e = .external
  surfaces_fault _ h := h

abbrev Call := Raising (StoreOp TaskDir Change Error Question) Error

def change (change : Change) : Call Unit := .perform (.change change)

def ask {β : Type} (question : Question β) : Call β := .perform (.ask question)

def readTask : Call TaskDir := .perform (.get id)

def die {α : Type} (message : String) : Except Error α := .error (.die message)

def isRegular : Option Node → Bool
  | some (.regular _) => true
  | _ => false

/-- `[ -f path ] && [ ! -L path ] || die message`. -/
def requireRegular (file : Option Node) (message : String) : Except Error Unit :=
  if isRegular file then .ok () else die message

/-- A task, and the path of its directory. -/
structure Task where
  id : String
  directory : String

def lockMessage (task : Task) : String :=
  s!"task control lock is symlinked or is not a regular file: {task.directory}/.control.lock"

/-- What is left to do of it once the lock is held. -/
def acquireTaskControlLock (task : Task) : Call Unit := do
  let before ← readTask
  .ofExcept (if before.controlLock.isSome then requireRegular before.controlLock (lockMessage task)
    else .ok ())
  change .openLock
  let after ← readTask
  .ofExcept (requireRegular after.controlLock
    s!"task control lock changed while it was being acquired: {task.directory}/.control.lock")

def validTaskStates : List Text := ["open", "done"].map String.toList

/-- `$(cat file)`, without the newlines at its end. -/
def cat : Option Node → Text
  | some (.regular content) => content.rdropWhile (· == '\n')
  | _ => []

def dieIf (refused : Bool) (message : String) : Except Error Unit :=
  if refused then die message else .ok ()

def isEmpty : Option Node → Bool
  | some (.regular []) => true
  | _ => false

def requireTaskRecordLocked (task : Task) (files : TaskDir) : Except Error Unit := do
  dieIf files.creating.isSome s!"task '{task.id}' has an incomplete creation marker"
  requireRegular files.spec s!"task '{task.id}' has an invalid spec.md"
  requireRegular files.state s!"task '{task.id}' has an invalid state"
  requireRegular files.log s!"task '{task.id}' has an invalid log.md"
  dieIf (isEmpty files.spec) s!"task '{task.id}' has an empty spec.md"
  dieIf (cat files.state ∉ validTaskStates)
    s!"task '{task.id}' has invalid state '{String.ofList (cat files.state)}'"

/-- One record of the log. -/
def record (time : Text) (summary detail : String) : Text :=
  "## ".toList ++ time ++ " - ".toList ++ summary.toList ++ "\n\n".toList ++
    if detail = "" then [] else detail.toList ++ "\n\n".toList

/-- `printf text >> log.md`. -/
def append : Text → Call Unit
  | [] => pure ()
  | c :: text => do
    change (.appendLog c)
    append text

def appendTaskLog (task : Task) (summary detail : String) : Call Unit := do
  let files ← readTask
  .ofExcept (requireRegular files.log s!"task '{task.id}' has an invalid log.md")
  let time ← ask .timestamp
  append (record time summary detail)

/-- `write_file_atomic "$TASK_DIR/state" "$STATE"`. -/
def writeState (state : String) : Call Unit := do
  change (.system .writeTemporary)
  change (.replaceState (state.toList ++ ['\n']))

/-- `copy_file_atomic` to `result.md`. -/
def copyResult (task : Task) (file : String) : Call Unit := do
  let source ← ask .resultFile
  .ofExcept (requireRegular source s!"source file is symlinked or is not a regular file: {file}")
  let files ← readTask
  .ofExcept (if files.result.isSome then
    requireRegular files.result
      s!"destination is symlinked or is not a regular file: {task.directory}/result.md" else .ok ())
  change (.system .makeTemporary)
  let content ← ask .copied
  change (.system .copyToTemporary)
  change (.replaceResult content)

def TaskState := { state : String // state.toList ∈ validTaskStates }

/-- What a command does to the task, its arguments read. -/
inductive Request where
  | comment (message : String)
  | state (state : TaskState) (message : String)
  | result (file : String)

def checkTaskId (value : String) : Except Error Unit :=
  if validName value then .ok ()
  else die (s!"invalid task ID '{value}' - must start with an alphanumeric character and contain " ++
    "only alphanumeric, dot, underscore, and hyphen")

/-- The task and the message of `task-comment`. -/
def commentArgs : List String → Except Error (String × Request)
  | id :: word :: words => do
    let message := " ".intercalate (word :: words)
    checkTaskId id
    if message = "" then die "message required"
    else .ok (id, .comment message)
  | _ => die "Usage: task-comment <task-id> <message>"

structure StateArgs where
  task : String := ""
  state : String := ""
  message : String := ""

def stateUsage : String := "Usage: task-state <task-id> <open|done> [-m <message>]"

def parseState : List String → StateArgs → Except Error StateArgs
  | [], args => .ok args
  | argument :: rest, args =>
    if argument = "-m" then
      match rest with
      | [] => die "-m requires a message"
      | message :: rest => parseState rest { args with message := message }
    else if argument = "--help" ∨ argument = "-h" then die stateUsage
    else if args.task = "" then parseState rest { args with task := argument }
    else if args.state = "" then parseState rest { args with state := argument }
    else die s!"unexpected argument '{argument}'"

def stateArgs (arguments : List String) : Except Error (String × Request) := do
  let args ← parseState arguments {}
  if args.task = "" ∨ args.state = "" then die stateUsage
  else do
    checkTaskId args.task
    if h : args.state.toList ∈ validTaskStates then
      .ok (args.task, .state ⟨args.state, h⟩ args.message)
    else die s!"invalid task state '{args.state}'\nvalid task states: open done"

def resultArgs : List String → Except Error (String × Request)
  | [id, file] => do
    checkTaskId id
    .ok (id, .result file)
  | _ => die "Usage: task-result <task-id> <result-file>"

/-- The three scripts. -/
inductive Command where
  | taskComment
  | taskState
  | taskResult

/-- The task and what the script does to it, from its arguments. -/
def Command.read : Command → List String → Except Error (String × Request)
  | .taskComment => commentArgs
  | .taskState => stateArgs
  | .taskResult => resultArgs

theorem checkTaskId_eq_ok {value : String} {u : Unit} : checkTaskId value = .ok u ↔
    validName value = true := by
  unfold checkTaskId die
  cases validName value with
  | true => exact iff_of_true rfl rfl
  | false => exact iff_of_false (fun h => by cases h) (fun h => by cases h)

theorem validName_ne {value other : String} (h : validName value = true)
    (hother : validName other = false) : value ≠ other := by
  rintro rfl
  rw [h] at hother
  cases hother

theorem validState_name : ∀ state : TaskState, validName state.1 = true := by
  intro state
  have hstate := state.2
  rcases List.mem_cons.mp hstate with hopen | hdone
  · rw [String.toList_inj.mp hopen]
    decide
  · rw [String.toList_inj.mp (List.mem_singleton.mp hdone)]
    decide

/-- A name is taken for a positional argument. -/
theorem parseState_name {name : String} {rest : List String} {args : StateArgs}
    (hname : validName name = true) : parseState (name :: rest) args =
      if args.task = "" then parseState rest { args with task := name }
      else if args.state = "" then parseState rest { args with state := name }
      else die s!"unexpected argument '{name}'" := by
  have hmessage : name ≠ "-m" := validName_ne hname (by decide)
  have hhelp : ¬(name = "--help" ∨ name = "-h") :=
    not_or.mpr ⟨validName_ne hname (by decide), validName_ne hname (by decide)⟩
  rw [parseState.eq_def (name :: rest)]
  exact (if_neg hmessage).trans (if_neg hhelp)

theorem stateArgs_render (id : String) (state : TaskState) (message : String)
    (hid : validName id = true) : stateArgs [id, state.1, "-m", message] =
      .ok (id, .state state message) := by
  have hstate := validState_name state
  have htask : id ≠ "" := validName_ne hid (by decide)
  have hnone : ¬(id = "" ∨ state.1 = "") := not_or.mpr ⟨htask, validName_ne hstate (by decide)⟩
  have hparsed : parseState [id, state.1, "-m", message] {} = .ok ⟨id, state.1, message⟩ := by
    rw [parseState_name hid, if_pos rfl, parseState_name hstate, if_neg htask, if_pos rfl]
    rfl
  unfold stateArgs
  rw [hparsed, ok_bind, if_neg hnone, (checkTaskId_eq_ok (u := ())).mpr hid, ok_bind, dif_pos state.2]
  rfl

theorem commentArgs_eq_ok {arguments : List String} {id : String} {request : Request}
    (h : commentArgs arguments = .ok (id, request)) :
    validName id = true ∧ ∃ message, request = .comment message ∧ message ≠ "" := by
  unfold commentArgs at h
  split at h
  · obtain ⟨_, hid, hmessage⟩ := bind_eq_ok.mp h
    split_ifs at hmessage with hempty
    · cases hmessage
    · cases hmessage
      exact ⟨checkTaskId_eq_ok.mp hid, _, rfl, hempty⟩
  · cases h

theorem stateArgs_eq_ok {arguments : List String} {id : String} {request : Request}
    (h : stateArgs arguments = .ok (id, request)) :
    validName id = true ∧ ∃ state message, request = .state state message := by
  unfold stateArgs at h
  obtain ⟨args, -, hargs⟩ := bind_eq_ok.mp h
  split_ifs at hargs with hnone hvalid
  · cases hargs
  · obtain ⟨_, hid, hstate⟩ := bind_eq_ok.mp hargs
    cases hstate
    exact ⟨checkTaskId_eq_ok.mp hid, _, _, rfl⟩
  · obtain ⟨_, -, hstate⟩ := bind_eq_ok.mp hargs
    cases hstate

theorem resultArgs_eq_ok {arguments : List String} {id : String} {request : Request}
    (h : resultArgs arguments = .ok (id, request)) :
    validName id = true ∧ ∃ file, request = .result file := by
  unfold resultArgs at h
  split at h
  · obtain ⟨_, hid, hfile⟩ := bind_eq_ok.mp h
    cases hfile
    exact ⟨checkTaskId_eq_ok.mp hid, _, rfl⟩
  · cases h

/-- What the scripts can be called for: any request on a task with a valid name, but for an empty
comment. -/
theorem read_range {id : String} {request : Request} :
    (∃ (command : Command) (arguments : List String), command.read arguments = .ok (id, request)) ↔
      validName id = true ∧ request ≠ .comment "" := by
  constructor
  · intro hread
    obtain ⟨command, arguments, hread⟩ := hread
    cases command with
    | taskComment =>
      obtain ⟨hid, message, rfl, hmessage⟩ := commentArgs_eq_ok hread
      refine ⟨hid, fun hnone => ?_⟩
      cases hnone
      exact hmessage rfl
    | taskState =>
      obtain ⟨hid, state, message, rfl⟩ := stateArgs_eq_ok hread
      exact ⟨hid, fun hnone => by cases hnone⟩
    | taskResult =>
      obtain ⟨hid, file, rfl⟩ := resultArgs_eq_ok hread
      exact ⟨hid, fun hnone => by cases hnone⟩
  · intro h
    obtain ⟨hid, hrequest⟩ := h
    cases request with
    | comment message =>
      have hmessage : message ≠ "" := fun hnone => hrequest (by rw [hnone])
      have hread : commentArgs [id, message] = .ok (id, .comment message) := by
        change (checkTaskId id >>= fun _ => if " ".intercalate [message] = "" then
          die "message required"
          else .ok (id, Request.comment (" ".intercalate [message]))) = _
        rw [(checkTaskId_eq_ok (u := ())).mpr hid, ok_bind]
        rw [String.intercalate_singleton, if_neg hmessage]
      exact ⟨.taskComment, [id, message], hread⟩
    | state state message => exact ⟨.taskState, _, stateArgs_render id state message hid⟩
    | result file =>
      have hread : resultArgs [id, file] = .ok (id, .result file) := by
        change (checkTaskId id >>= fun _ => Except.ok (id, Request.result file)) = _
        rw [(checkTaskId_eq_ok (u := ())).mpr hid, ok_bind]
      exact ⟨.taskResult, [id, file], hread⟩

def lockedTask (task : Task) (body : Call Unit) : Call Unit := do
  acquireTaskControlLock task
  let files ← readTask
  .ofExcept (requireTaskRecordLocked task files)
  body

def Request.summary : Request → String
  | .comment _ => "Comment"
  | .state value _ => "State: " ++ value.1
  | .result _ => "Result recorded"

def Request.detail : Request → String
  | .comment message => message
  | .state _ message => message
  | .result _ => "See result.md. State set to done."

def taskComment (task : Task) (message : String) : Call Unit :=
  lockedTask task (appendTaskLog task "Comment" message)

def taskState (task : Task) (state : TaskState) (message : String) : Call Unit :=
  lockedTask task do
    writeState state.1
    appendTaskLog task ("State: " ++ state.1) message

def taskResult (task : Task) (file : String) : Call Unit := do
  let source ← ask .resultFile
  .ofExcept (requireRegular source s!"result file '{file}' is symlinked or does not exist")
  .ofExcept (dieIf (isEmpty source) s!"result file '{file}' is empty")
  lockedTask task do
    copyResult task file
    writeState "done"
    appendTaskLog task "Result recorded" "See result.md. State set to done."

def Request.call (task : Task) : Request → Call Unit
  | .comment message => taskComment task message
  | .state value message => taskState task value message
  | .result file => taskResult task file

end Cyclo.AgentWs.TaskRecords
