import Cyclo.AgentWs.Store

/-! The functions of `bin/lib-agentws` the queue commands share. -/
namespace Cyclo.AgentWs
open Cyclo.Process

/-- The pattern of `validate_name`: an alphanumeric character, then alphanumerics, dots,
underscores and hyphens. -/
def validName (value : String) : Bool :=
  match value.toList with
  | [] => false
  | c :: cs => c.isAlphanum && cs.all fun d => d.isAlphanum || d = '.' || d = '_' || d = '-'

def validateName (label value : String) : Script Unit :=
  require (validName value)
    (s!"invalid {label} '{value}' - must start with an alphanumeric character and contain " ++
      "only alphanumeric, dot, underscore, and hyphen")

def validateJobId := validateName "job ID"
def validateTaskId := validateName "task ID"
def validateRole := validateName "role"
def validateAgentId := validateName "agent ID"

/-- `basename` of a queue directory. -/
def Entry.name : Entry → String
  | .named id => id
  | .staged id => s!".{id}+.task-create-stage"

/-- One file of a job directory, `none` when the directory or the file is missing. -/
def Files.jobFile {β : Type} (f : Files) (j : Entry) (read : Job → Option β) : Option β :=
  (f.job j).bind read

def Files.taskFile {β : Type} (f : Files) (t : Entry) (read : Task → Option β) : Option β :=
  (f.task t).bind read

def Files.hasLock (f : Files) (j : Entry) : Bool := (f.jobFile j (·.lock)).isSome

/-- The text of a small file, as `$(cat file 2>/dev/null || true)` gives it. -/
def Files.catJob (f : Files) (j : Entry) (read : Job → Option String) : String :=
  (f.jobFile j read).getD ""

def Files.catTask (f : Files) (t : Entry) (read : Task → Option String) : String :=
  (f.taskFile t read).getD ""

def Files.readStatus (f : Files) (j : Entry) : Status :=
  (f.jobFile j (·.status)).getD (.other "unknown")

def readStatus (j : Entry) : Script Status := get (·.readStatus j)

/-- `write_file_atomic` on a job's `status`. -/
def writeStatus (j : Entry) (s : Status) : Script Unit := do
  let ok ← write (.setStatus j s)
  require ok s!"cannot write temporary file for '{j.name}/status'"

def writeAgentId (j : Entry) (agent : String) : Script Unit := do
  let ok ← write (.setAgentId j agent)
  require ok s!"cannot write temporary file for '{j.name}/agent-id'"

def appendLog (j : Entry) (summary detail : String) : Script Unit := do
  let _ ← write (.appendLog j ⟨summary, detail⟩)

def acquireJobControlLock (j : Entry) : Script Unit := do
  let ok ← lock (.job j)
  require ok s!"cannot open job control lock: {j.name}/.control.lock"

def releaseJobControlLock (j : Entry) : Script Unit := unlock (.job j)

/-- The answer of `terminal_notice_ready_locked`; `waiting` names the source not yet terminal. -/
inductive NoticeGate where
  | ready
  | waiting (source : String)
  deriving DecidableEq, Repr

def terminalNoticeReadyLocked (notice : Entry) : Script NoticeGate := do
  match ← get (·.jobFile notice (·.noticeSource)) with
  | none => pure .ready
  | some source =>
    validateJobId source
    let src := Entry.named source
    require (← get fun f => (f.job src).isSome)
      s!"terminal notice '{notice.name}' has no valid source job '{source}'"
    require (← get fun f => (f.jobFile src (·.role)).isSome)
      s!"source job '{source}' has invalid role"
    require (← get fun f => (f.jobFile src (·.taskId)).isSome)
      s!"source job '{source}' has invalid task-id"
    require (← get fun f => (f.jobFile src (·.status)).isSome)
      s!"source job '{source}' has invalid status"
    let role ← get (·.catJob notice (·.role))
    let task ← get (·.catJob notice (·.taskId))
    let sourceRole ← get (·.catJob src (·.role))
    let sourceTask ← get (·.catJob src (·.taskId))
    require (role = "planner") s!"terminal notice '{notice.name}' does not have role planner"
    require (sourceRole ≠ "planner") s!"terminal notice source '{source}' is a planner job"
    require (task = sourceTask)
      s!"terminal notice '{notice.name}' and source '{source}' belong to different tasks"
    match ← readStatus src with
    | .done | .failed => pure .ready
    | .pending | .claimed | .running => pure (.waiting source)
    | .other text => die s!"source job '{source}' has invalid status '{text}'"

def acquireTaskControlLock (t : Entry) : Script Unit := do
  require (← get fun f => (f.task t).isSome)
    s!"task directory is symlinked or is not a directory: {t.name}"
  let ok ← lock (.task t)
  require ok s!"cannot open task control lock: {t.name}/.control.lock"
  require (← get fun f => (f.task t).isSome)
    s!"task directory changed while acquiring its control lock: {t.name}"
  require (← get fun f => (f.task t).any (·.controlLock))
    s!"task control lock changed while it was being acquired: {t.name}/.control.lock"

def releaseTaskControlLock (t : Entry) : Script Unit := unlock (.task t)

/-- Finish an interrupted `task-create` before its planner job is exposed. The caller holds the
job's control lock. -/
def finalizePendingTaskCreationLocked (j : Entry) : Script Unit := do
  match ← get (·.jobFile j (·.transaction)) with
  | none => pure ()
  | some token =>
    require (token ≠ "") s!"initial planner job '{j.name}' has an invalid task-create transaction"
    if (← readStatus j) ≠ .pending then pure () else
    match ← get (·.jobFile j (·.taskId)) with
    | none => die s!"initial planner job '{j.name}' has an invalid task-id"
    | some task =>
    validateTaskId task
    require (j.name = task ++ "-plan")
      s!"initial planner job '{j.name}' does not match task '{task}'"
    require (← get fun f => decide (f.jobFile j (·.role) = some "planner"))
      s!"initial planner job '{j.name}' has an invalid role"
    require (← get fun f => (f.jobFile j (·.spec)).any (· ≠ ""))
      s!"initial planner job '{j.name}' has an invalid spec.md"
    require (← get fun f => (f.jobFile j (·.log)).isSome)
      s!"initial planner job '{j.name}' has an invalid log.md"
    require (← get fun f => (f.job j).any (·.workspace))
      s!"initial planner job '{j.name}' has an invalid workspace"
    let t := Entry.named task
    acquireTaskControlLock t
    match ← get (·.taskFile t (·.creating)) with
    | none => releaseTaskControlLock t
    | some marker =>
      require (marker ≠ "") s!"task '{task}' has an invalid creation marker"
      require (← get fun f => (f.taskFile t (·.spec)).isSome) s!"task '{task}' has an invalid spec.md"
      require (← get fun f => (f.taskFile t (·.state)).isSome) s!"task '{task}' has an invalid state"
      require (← get fun f => (f.taskFile t (·.log)).isSome) s!"task '{task}' has an invalid log.md"
      require (← get fun f => (f.taskFile t (·.spec)).any (· ≠ ""))
        s!"task '{task}' has an empty spec.md"
      require (← get fun f => decide (f.catTask t (·.state) = "open"))
        s!"task '{task}' has invalid state during creation recovery"
      require (← get fun f => decide (f.catTask t (·.creating) = f.catJob j (·.transaction)))
        s!"task '{task}' does not match its initial planner transaction"
      require (← write (.removeCreating t)) s!"cannot recover task '{task}' creation"
      require (← get fun f => (f.taskFile t (·.creating)).isNone)
        s!"cannot recover task '{task}' creation"
      releaseTaskControlLock t
      appendLog j "Recovered interrupted task creation"
        s!"Finalized task '{task}' before exposing its planner job."

/-- A pending job has no owner: drop the one a dead process left. `false` when it is not pending. -/
def repairPendingOwnershipLocked (j : Entry) : Script Bool := do
  if (← readStatus j) ≠ .pending then pure false else
  if ← get (·.hasLock j) then
    require (← write (.removeLock j)) s!"pending job '{j.name}' has a non-empty ownership lock"
    let _ ← write (.removeAgentId j)
    appendLog j "Recovered interrupted transition" "Removed stale ownership from a pending job."
    pure true
  else
    let _ ← write (.removeAgentId j)
    pure true

/-- Why a claimed or running job has no live owner; `none` when its agent directory exists. -/
def jobOrphanReason (j : Entry) : Script (Option String) := do
  if ← get fun f => (f.jobFile j (·.agentId)).isNone then pure (some "missing agent-id") else
  let agent ← get (·.catJob j (·.agentId))
  if agent = "" then pure (some "empty agent-id") else
  if !validName agent then pure (some s!"invalid agent-id '{agent}'") else
  if ← get (fun f => !f.agent agent) then
    pure (some s!"agent '{agent}' has no agents/{agent} directory")
  else pure none

def requireAgentOwner (action : String) (j : Entry) (agent : String) : Script Unit := do
  validateAgentId agent
  require (← get fun f => (f.jobFile j (·.agentId)).isSome)
    s!"cannot {action} job '{j.name}': missing agent-id"
  let expected ← get (·.catJob j (·.agentId))
  require (expected = agent)
    s!"cannot {action} job '{j.name}': owned by '{expected}', not '{agent}'"

end Cyclo.AgentWs
