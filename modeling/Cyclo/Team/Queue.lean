import Cyclo.Python.Decoding
import Cyclo.Team.Roster
import Mathlib.Data.List.Lex
import Mathlib.Data.Rat.Defs

/-! The queue of a team as the host scans it: a shallow walk over tasks, jobs and agents, with
limits on the entries that are taken and the bytes that are read. -/
namespace Cyclo.Team.Queue
open Python

structure QueueLimits where
  maxEntries : ℕ
  maxReadBytes : ℕ
  recentTasks : ℕ
  recentActivity : ℕ

structure ScanBudget where
  limits : QueueLimits
  entries : ℕ
  readBytes : ℕ
  truncated : Bool

def ScanBudget.takeEntry (budget : ScanBudget) : Bool × ScanBudget :=
  if budget.limits.maxEntries ≤ budget.entries then (false, { budget with truncated := true })
  else (true, { budget with entries := budget.entries + 1 })

def ScanBudget.readAllowance (budget : ScanBudget) (requested : ℕ) : ℕ × ScanBudget :=
  let remaining := budget.limits.maxReadBytes - budget.readBytes
  if remaining = 0 then (0, { budget with truncated := true }) else (min requested remaining, budget)

/-- A name in a directory: the content where a regular file can be read under it, and the time of its
last change where `stat` finds a regular file. -/
structure File where
  content : Option (List UInt8)
  mtime : Option ℚ

structure Directory where
  mtime : ℚ
  files : List (String × File)

def Directory.content (directory : Directory) (name : String) : Option (List UInt8) :=
  (directory.files.lookup name).bind File.content

def Directory.readRegular (directory : Directory) (name : String) (maxBytes : ℕ)
    (default : List Char) (budget : ScanBudget) : List Char × ScanBudget :=
  let (allowance, budget) := budget.readAllowance maxBytes
  if allowance = 0 then (default, budget)
  else
    match directory.content name with
    | none => (default, budget)
    | some content =>
      let raw := content.take allowance
      (decodeReplacing raw, { budget with readBytes := budget.readBytes + raw.length })

def Directory.latestRegularMtime (directory : Directory) (names : List String) : ℚ :=
  names.foldl (fun result name =>
    match (directory.files.lookup name).bind File.mtime with
    | none => result
    | some mtime => max result mtime) directory.mtime

/-- `value.split("\n\n")` -/
def paragraphs : List Char → List (List Char)
  | [] => [[]]
  | '\n' :: '\n' :: rest => [] :: paragraphs rest
  | c :: rest => prependHead c (paragraphs rest)

def nonempty (text : List Char) : Option (List Char) := if text = [] then none else some text

def headingTitle (line : List Char) : Option (List Char) :=
  let line := strip line
  if line.head? = some '#' then nonempty (strip (line.dropWhile (· = '#'))) else none

def paragraphTitle (paragraph : List Char) : Option (List Char) :=
  nonempty (List.intercalate [' '] (split paragraph))

def firstTitle (value fallback : List Char) : List Char :=
  match (splitlines value).findSome? headingTitle with
  | some title => title.take 160
  | none =>
    match (paragraphs value).findSome? paragraphTitle with
    | some title => title.take 160
    | none => fallback

/-- What becomes of an entry that is inspected; `gone` is for the errors ENOENT, ELOOP and ENOTDIR. -/
inductive Inspection where
  | other
  | gone
  | failed (reason : String)
  | directory (directory : Directory)

/-- An entry of a directory; a name that is not UTF-8 is nothing. -/
structure Entry where
  name : Option (List Char)
  inspection : Inspection

/-- A directory of the queue. No two of its entries have one name. -/
inductive Category where
  | unavailable
  | unopenable (reason : String)
  | unlistable (reason : String)
  | listed (entries : List Entry) (distinct : (entries.filterMap Entry.name).Nodup)

def Category.entries : Category → List Entry
  | .listed entries _ => entries
  | _ => []

inductive Found where
  | skipped
  | failed (error : String)
  | directory (id : List Char) (directory : Directory)

def Entry.find (ignoredNames : List (List Char)) (entry : Entry) : Found :=
  match entry.name with
  | none => .failed "ignored an unsafe queue entry name"
  | some name =>
    if name ∈ ignoredNames then .skipped
    else if matchesName name then
      match entry.inspection with
      | .other => .skipped
      | .gone => .skipped
      | .failed reason =>
        .failed s!"cannot inspect queue entry {String.ofList name}: {reason}"
      | .directory directory => .directory name directory
    else .failed "ignored an unsafe queue entry name"

section
variable {ρ : Type} (row : List Char → Directory → ScanBudget → ρ × ScanBudget)

/-- `_iter_queue_directories` with the body of the loop over it. -/
def iterQueueDirectories (ignoredNames : List (List Char)) :
    List Entry → ScanBudget → List String → List ρ × ScanBudget × List String
  | [], budget, errors => ([], budget, errors)
  | entry :: rest, budget, errors =>
    match budget.takeEntry with
    | (false, budget) => ([], budget, errors)
    | (true, budget) =>
      match entry.find ignoredNames with
      | .skipped => iterQueueDirectories ignoredNames rest budget errors
      | .failed error => iterQueueDirectories ignoredNames rest budget (errors ++ [error])
      | .directory id directory =>
        let (first, budget) := row id directory budget
        let (rows, budget, errors) := iterQueueDirectories ignoredNames rest budget errors
        (first :: rows, budget, errors)

/-- `_open_category` and the loop over its directories. -/
def scanCategory (name : String) (ignoredNames : List (List Char)) (category : Category)
    (budget : ScanBudget) (errors : List String) : List ρ × ScanBudget × List String :=
  match category with
  | .unavailable =>
    ([], budget, errors ++ [s!"AgentWS queue directory is unavailable: {name}"])
  | .unopenable reason =>
    ([], budget, errors ++ [s!"cannot open AgentWS queue directory {name}: {reason}"])
  | .unlistable reason => ([], budget, errors ++ [s!"cannot list queue directory: {reason}"])
  | .listed entries _ => iterQueueDirectories row ignoredNames entries budget errors

end

inductive TaskState where
  | opened
  | closed
  | unknown
  deriving DecidableEq, Repr

inductive JobStatus where
  | pending
  | claimed
  | running
  | done
  | failed
  | unknown
  deriving DecidableEq, Repr

structure TaskRow where
  id : List Char
  state : TaskState
  updatedTs : ℚ
  deriving DecidableEq

structure JobRow where
  id : List Char
  status : JobStatus
  taskId : List Char
  agentId : List Char
  updatedTs : ℚ
  deriving DecidableEq

def taskState (text : List Char) : TaskState :=
  let state := strip text
  if state = "open".toList then .opened else if state = "done".toList then .closed else .unknown

/-- The status of a text. Only ASCII letters have lower-case forms among the letters of these words. -/
def jobStatus (text : List Char) : JobStatus :=
  let status := (strip text).map Char.toLower
  if status = "pending".toList then .pending
  else if status = "claimed".toList then .claimed
  else if status = "running".toList then .running
  else if status = "done".toList then .done
  else if status = "failed".toList then .failed
  else .unknown

def taskRow (id : List Char) (directory : Directory) (budget : ScanBudget) : TaskRow × ScanBudget :=
  let (state, budget) := directory.readRegular "state" 128 "unknown".toList budget
  ({ id := id
     state := taskState state
     updatedTs := directory.latestRegularMtime ["state", "spec.md", "log.md", "result.md"] }, budget)

def jobRow (id : List Char) (directory : Directory) (budget : ScanBudget) : JobRow × ScanBudget :=
  let (status, budget) := directory.readRegular "status" 64 "unknown".toList budget
  let (taskId, budget) := directory.readRegular "task-id" 128 [] budget
  let (agentId, budget) := directory.readRegular "agent-id" 128 [] budget
  ({ id := id
     status := jobStatus status
     taskId := strip taskId
     agentId := strip agentId
     updatedTs := directory.latestRegularMtime
      ["status", "log.md", "spec.md", "agent-id", "task-id", "role"] }, budget)

def agentRow (id : List Char) (_ : Directory) (budget : ScanBudget) : List Char × ScanBudget :=
  (id, budget)

def supervisorDirectory : List Char := ".team-runs".toList

structure RecentTask where
  task : TaskRow
  title : List Char
  deriving DecidableEq

inductive Activity where
  | task (row : TaskRow)
  | job (row : JobRow)
  deriving DecidableEq

def Activity.id : Activity → List Char
  | .task row => row.id
  | .job row => row.id

def Activity.updatedTs : Activity → ℚ
  | .task row => row.updatedTs
  | .job row => row.updatedTs

/-- The latest first. -/
def recency (updatedTs : ℚ) (id : List Char) : ℚ ×ₗ List Char := toLex (-updatedTs, id)

def recentRows (taskRows : List TaskRow) (limits : QueueLimits) : List TaskRow :=
  (sortedBy (fun row => recency row.updatedTs row.id) taskRows).take limits.recentTasks

/-- The directory of an identifier, where it can be opened. -/
def Category.child (category : Category) (id : List Char) : Option Directory :=
  match category.entries.find? fun entry => entry.name = some id with
  | some ⟨_, .directory directory⟩ => some directory
  | _ => none

/-- The titles of the recent tasks. -/
def titledTasks (tasks : Category) : List TaskRow → ScanBudget → List RecentTask × ScanBudget
  | [], budget => ([], budget)
  | task :: rest, budget =>
    match tasks.child task.id with
    | none =>
      let (recent, budget) := titledTasks tasks rest budget
      (⟨task, task.id⟩ :: recent, budget)
    | some directory =>
      let (spec, budget) := directory.readRegular "spec.md" 4096 [] budget
      let (recent, budget) := titledTasks tasks rest budget
      (⟨task, firstTitle spec task.id⟩ :: recent, budget)

def recentActivity (taskRows : List TaskRow) (jobRows : List JobRow) (limits : QueueLimits) :
    List Activity :=
  (sortedBy (fun row => recency row.updatedTs row.id)
    (taskRows.map .task ++ jobRows.map .job)).take limits.recentActivity

structure Counts where
  tasks : ℕ
  taskStates : TaskState → ℕ
  jobs : ℕ
  statuses : JobStatus → ℕ
  agents : ℕ
  active : ℕ

/-- `empty_counts` -/
def emptyCounts : Counts := ⟨0, fun _ => 0, 0, fun _ => 0, 0, 0⟩

structure QueueScan where
  counts : Counts
  recentTasks : List RecentTask
  recentActivity : List Activity
  errors : List String

def activeAgentIds (jobRows : List JobRow) : List (List Char) :=
  (jobRows.filter fun row =>
    (row.status = .claimed ∨ row.status = .running) ∧ row.agentId ≠ []).map JobRow.agentId

def countRows (taskRows : List TaskRow) (jobRows : List JobRow) (agentIds : List (List Char)) :
    Counts where
  tasks := taskRows.length
  taskStates state := taskRows.countP (·.state = state)
  jobs := jobRows.length
  statuses status := jobRows.countP (·.status = status)
  agents := agentIds.dedup.length
  active := agentIds.dedup.countP (· ∈ activeAgentIds jobRows)

def truncationError (limits : QueueLimits) : String :=
  s!"queue scan truncated at {limits.maxEntries} entries or {limits.maxReadBytes} bytes"

def unknownJobsError (count : ℕ) : String :=
  if count = 1 then "1 job has an unknown or unreadable status"
  else s!"{count} jobs have an unknown or unreadable status"

def unknownTasksError (count : ℕ) : String :=
  if count = 1 then "1 task has an unknown or unreadable state"
  else s!"{count} tasks have an unknown or unreadable state"

/-- The directories of a queue, or why its root cannot be opened. -/
inductive AgentwsQueue where
  | unavailable (reason : String)
  | opened (tasks jobs agents : Category)

/-- The scan, and the budget at its end. The titles are read from the category of the tasks as it was
listed: it is opened once more for them only after rows were found in it. -/
def scanAgentwsQueue (queue : AgentwsQueue) (limits : QueueLimits) : QueueScan × ScanBudget :=
  let budget : ScanBudget := ⟨limits, 0, 0, false⟩
  match queue with
  | .unavailable reason =>
    (⟨emptyCounts, [], [], [s!"AgentWS queue is unavailable: {reason}"]⟩, budget)
  | .opened tasks jobs agents =>
    let (taskRows, budget, errors) := scanCategory taskRow "tasks" [] tasks budget []
    let (jobRows, budget, errors) := scanCategory jobRow "jobs" [] jobs budget errors
    let (agentIds, budget, errors) :=
      scanCategory agentRow "agents" [supervisorDirectory] agents budget errors
    let (recentTasks, budget) := titledTasks tasks (recentRows taskRows limits) budget
    let counts := countRows taskRows jobRows agentIds
    let errors := errors ++ if budget.truncated then [truncationError limits] else []
    let errors := errors ++
      if counts.statuses .unknown = 0 then [] else [unknownJobsError (counts.statuses .unknown)]
    let errors := errors ++
      if counts.taskStates .unknown = 0 then []
      else [unknownTasksError (counts.taskStates .unknown)]
    ({ counts := counts
       recentTasks := recentTasks
       recentActivity := recentActivity taskRows jobRows limits
       errors := errors.eraseDups }, budget)

end Cyclo.Team.Queue
