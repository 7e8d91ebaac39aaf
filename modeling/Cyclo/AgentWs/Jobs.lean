import Cyclo.AgentWs.Lib

/-! The job commands of `bin/`, the notice publisher of `tools/planner_notification.py` and the
safety fallback of `tools/agent`. -/
namespace Cyclo.AgentWs
open Cyclo.Process

/-- The arguments of `job-create`; `spec` is the text of the spec file. -/
structure JobCreateArgs where
  jobId : String
  role : String
  taskId : String
  noticeSource : Option String := none
  specFile : String
  spec : String

/-- The staged directory `job-create` publishes. -/
def JobCreateArgs.build (a : JobCreateArgs) : Job where
  status := some .pending
  role := some a.role
  taskId := some a.taskId
  spec := some a.spec
  log := some []
  workspace := true
  controlLock := true
  noticeSource := a.noticeSource

/-- The checks of `--terminal-notice-for`. -/
def checkNoticeSource (a : JobCreateArgs) (source : String) : Script Unit := do
  validateJobId source
  require (a.role = "planner") "--terminal-notice-for requires role 'planner'"
  let src := Entry.named source
  require (← get fun f => (f.job src).isSome)
    s!"source job '{source}' does not exist or is not a real directory"
  require (← get fun f => (f.jobFile src (·.role)).isSome) s!"source job '{source}' has invalid role"
  require (← get fun f => (f.jobFile src (·.taskId)).isSome)
    s!"source job '{source}' has invalid task-id"
  require (← get fun f => (f.jobFile src (·.status)).isSome)
    s!"source job '{source}' has invalid status"
  require (← get fun f => (f.job src).any (·.controlLock))
    s!"source job '{source}' has invalid .control.lock"
  let sourceRole ← get (·.catJob src (·.role))
  let sourceTask ← get (·.catJob src (·.taskId))
  let sourceStatus ← readStatus src
  validateRole sourceRole
  validateTaskId sourceTask
  require (sourceRole ≠ "planner") "planner jobs do not require planner notifications"
  require (sourceTask = a.taskId)
    s!"source job '{source}' belongs to task '{sourceTask}', not '{a.taskId}'"
  require sourceStatus.active
    (s!"cannot prepare planner notification for source job '{source}' from status " ++
      s!"'{sourceStatus.text}'")

def jobCreate (a : JobCreateArgs) : Script Unit := do
  require (a.jobId ≠ "") "usage"
  require (a.role ≠ "") "job role required (-r <role>)"
  require (a.taskId ≠ "") "task ID required (-t <task-id>)"
  require (a.spec ≠ "") s!"spec file '{a.specFile}' is empty"
  validateJobId a.jobId
  validateRole a.role
  validateTaskId a.taskId
  match a.noticeSource with
  | none => pure ()
  | some source => checkNoticeSource a source
  require (← get fun f => (f.task (.named a.taskId)).isSome) s!"task '{a.taskId}' does not exist"
  require (← get fun f => (f.job (.named a.jobId)).isNone) s!"job '{a.jobId}' already exists"
  require (← write (.publishJob (.named a.jobId) a.build)) s!"job '{a.jobId}' already exists"
  say (.line s!"created: {a.jobId} (task: {a.taskId}, role: {a.role})")

inductive ClaimResult where
  | claimed
  | refused (waitingSource : Option String)
  deriving DecidableEq, Repr

def releaseAndRefuse (j : Entry) (waitingSource : Option String) : Script ClaimResult := do
  releaseJobControlLock j
  pure (.refused waitingSource)

def claimJob (jobRole : Option String) (agent job : String) : Script ClaimResult := do
  let j := Entry.named job
  if !(← get fun f => (f.job j).isSome) then pure (.refused none) else
  if !(← get fun f => (f.jobFile j (·.status)).isSome) then pure (.refused none) else
  if !(← get fun f => (f.jobFile j (·.role)).isSome) then pure (.refused none) else
  acquireJobControlLock j
  if (← readStatus j) ≠ .pending then releaseAndRefuse j none else
  let role ← get (·.catJob j (·.role))
  if role = "" then releaseAndRefuse j none else
  if jobRole.any (· ≠ role) then releaseAndRefuse j none else
  match ← terminalNoticeReadyLocked j with
  | .waiting source => releaseAndRefuse j (some source)
  | .ready =>
    finalizePendingTaskCreationLocked j
    if !(← repairPendingOwnershipLocked j) then releaseAndRefuse j none else
    if !(← write (.makeLock j)) then releaseAndRefuse j none else
    writeAgentId j agent
    writeStatus j .claimed
    releaseJobControlLock j
    say (.claimed job)
    pure .claimed

/-- The scan of `job-claim` without a job id: the first job it can claim. -/
def claimFirst (jobRole : Option String) (agent : String) : List String → Script Unit
  | [] => say .noJobs
  | job :: rest => do
    validateJobId job
    match ← claimJob jobRole agent job with
    | .claimed => pure ()
    | .refused _ => claimFirst jobRole agent rest

def jobClaim (jobId jobRole : Option String) (agent : String) : Script Unit := do
  match jobRole with
  | none => pure ()
  | some role => validateRole role
  require (agent ≠ "") "--agent-id <agent-id> is required"
  validateAgentId agent
  match jobId with
  | none => claimFirst jobRole agent (← ask .listing)
  | some job =>
    validateJobId job
    let j := Entry.named job
    require (← get fun f => (f.job j).isSome) s!"job '{job}' does not exist"
    match ← claimJob jobRole agent job with
    | .claimed => pure ()
    | .refused waitingSource =>
      let status ← readStatus j
      require (status = .pending)
        s!"cannot claim job '{job}' from status '{status.text}' (expected: pending)"
      match waitingSource with
      | some source =>
        die s!"cannot claim job '{job}': waiting for source job '{source}' to become terminal"
      | none =>
        require (← get fun f => !f.hasLock j)
          s!"cannot claim job '{job}': lock directory already exists"
        die s!"could not claim job '{job}' due to a concurrent claim race"

/-- How a child process ended. -/
inductive ChildStatus where
  | exited (code : ℕ) (message : String)
  | killed
  | timedOut
  deriving DecidableEq, Repr

/-- Run a script as a child: its `exit` ends it alone, and it can be killed at any point. -/
def child : Script Unit → Script ChildStatus
  | .ret _ => .ret (.exited 0 "")
  | .exit code message => .ret (.exited code message)
  | .op e next => .op (.ask .child) fun
    | ChildFate.alive => .op e fun r => child (next r)
    | ChildFate.killed => .ret .killed
    | ChildFate.timedOut => .ret .timedOut

/-- `str.rstrip("._-")`. -/
def rstripPunctuation (s : List Char) : List Char :=
  (s.reverse.dropWhile fun c => c = '.' || c = '_' || c = '-').reverse

section Notice
variable (hexdigest : String → String)

/-- `hexdigest` is SHA-256 in hexadecimal of the UTF-8 encoding of its argument. -/
def plannerNotificationId (taskId jobId : String) : String :=
  let digest := String.ofList ((hexdigest (taskId ++ "\x00" ++ jobId)).toList.take 20)
  let stem := String.ofList (rstripPunctuation (jobId.toList.take 40))
  s!"{stem}-planner-terminal-{digest}"

def plannerNotificationSpec (taskId jobId sourceRole : String) : String :=
  s!"# Notify Planner: {jobId}\n\n## Task\n{taskId}\n\n## Source Job\n{jobId}\n\n" ++
  s!"## Source Role\n{sourceRole}\n\n## Event\nsource job terminal transition\n\n" ++
  "## Settlement\nAgentWS publishes this notice before the source job becomes terminal, but the\n" ++
  "queue keeps it unclaimable until the source status is done or failed. Once this\n" ++
  "job can be claimed, the source evidence is stable and ready to inspect.\n\n" ++
  "## Follow-Up Jobs Created\nInspect the other jobs attached to this task. The source worker " ++
  "may also have\ncreated a direct success-path handoff.\n\n" ++
  s!"## Evidence\nRead jobs/{jobId}/status, jobs/{jobId}/log.md, the task log, and any linked\n" ++
  "artifacts after the source settles.\n\n" ++
  "## When Done\nRecord the source outcome on the task, create any missing route required by the\n" ++
  "team protocol, and then mark this planner notification done.\n"

/-- The notice `job-create` is asked for. -/
def noticeArgs (taskId jobId sourceRole : String) : JobCreateArgs where
  jobId := plannerNotificationId hexdigest taskId jobId
  role := "planner"
  taskId := taskId
  noticeSource := some jobId
  specFile := "agentws-planner-notification"
  spec := plannerNotificationSpec taskId jobId sourceRole

/-- `_notification_matches`. -/
def notificationMatches (n : Entry) (taskId jobId spec : String) : Script Bool := do
  if !(← get fun f => (f.job n).isSome) then pure false else
  if !(← get fun f => (f.job n).any (·.workspace)) then pure false else
  let role ← get (·.jobFile n (·.role))
  let task ← get (·.jobFile n (·.taskId))
  let status ← get (·.jobFile n (·.status))
  let source ← get (·.jobFile n (·.noticeSource))
  let text ← get (·.jobFile n (·.spec))
  let log ← get fun f => (f.jobFile n (·.log)).isSome
  let controlLock ← get fun f => (f.job n).any (·.controlLock)
  pure (role = some "planner" && task = some taskId && status = some .pending &&
    source = some jobId && text = some spec && log && controlLock)

def ensurePlannerNotification (job : String) : Script (Except NoticeError (Option String)) := do
  if !validName job then pure (.error .invalidId) else
  let j := Entry.named job
  if !(← get fun f => (f.job j).isSome) then pure (.error .notDirectory) else
  let role ← get (·.catJob j (·.role))
  let task ← get (·.catJob j (·.taskId))
  let status ← readStatus j
  if !validName role || !validName task then pure (.error .invalidRoleOrTask) else
  if role = "planner" then pure (.ok none) else
  if !status.active then pure (.error (.badStatus status.text)) else
  let notice := plannerNotificationId hexdigest task job
  let n := Entry.named notice
  let spec := plannerNotificationSpec task job role
  if ← get fun f => (f.job n).isSome then
    if ← notificationMatches n task job spec then pure (.ok (some notice))
    else pure (.error (.collision notice))
  else
    match ← child (jobCreate (noticeArgs hexdigest task job role)) with
    | .timedOut => pure (.error (.creationFailed "timed out"))
    | .killed =>
      if ← notificationMatches n task job spec then pure (.ok (some notice))
      else pure (.error (.creationFailed "exit status -9"))
    | .exited _ message =>
      if ← notificationMatches n task job spec then pure (.ok (some notice))
      else pure (.error (.creationFailed message))

/-- `job-notify-planner`. -/
def jobNotifyPlanner (job : String) : Script Unit := do
  match ← ensurePlannerNotification hexdigest job with
  | .ok _ => pure ()
  | .error e =>
    say (.noticeError job e)
    .exit 1 ""

def jobStart (job agent : String) : Script Unit := do
  validateJobId job
  validateAgentId agent
  let j := Entry.named job
  require (← get fun f => (f.job j).isSome) s!"job '{job}' does not exist"
  acquireJobControlLock j
  let status ← readStatus j
  require (status = .claimed)
    s!"cannot start job '{job}' from status '{status.text}' (expected: claimed)"
  require (← get (·.hasLock j)) s!"cannot start job '{job}': missing lock directory"
  requireAgentOwner "start" j agent
  appendLog j "Started" s!"Job started by agent {agent}."
  writeStatus j .running
  releaseJobControlLock j
  say (.line s!"{job}: claimed -> running")

/-- The common part of `job-done` and `job-fail`: `action` is the verb of the messages, `expected`
the statuses the command accepts and their text, `status` what it writes. -/
def settle (action : String) (expected : Status → Bool) (expectedText : String) (final : Status)
    (summary job agent message : String) : Script Unit := do
  require (message ≠ "") "-m <message> is required"
  validateJobId job
  validateAgentId agent
  let j := Entry.named job
  require (← get fun f => (f.job j).isSome) s!"job '{job}' does not exist"
  acquireJobControlLock j
  let status ← readStatus j
  require (expected status)
    s!"cannot {action} job '{job}' from status '{status.text}' (expected: {expectedText})"
  require (← get (·.hasLock j)) s!"cannot {action} job '{job}': missing lock directory"
  requireAgentOwner action j agent
  -- the notice is published first: on an error the source stays owned
  let notified ← child (jobNotifyPlanner hexdigest job)
  require (notified = .exited 0 "")
    s!"cannot {action} job '{job}': planner notification was not published"
  appendLog j summary message
  writeStatus j final
  require (← write (.removeLock j)) s!"cannot {action} job '{job}': lock directory is not empty"
  releaseJobControlLock j
  say (.line s!"{job}: {status.text} -> {final.text}")

def jobDone (job agent message : String) : Script Unit :=
  settle hexdigest "complete" (· = .running) "running" .done "Done" job agent message

def jobFail (job agent message : String) : Script Unit :=
  settle hexdigest "fail" Status.active "claimed or running" .failed "Failed" job agent message

def jobRelease (job agent message : String) : Script Unit := do
  require (message ≠ "") "-m <message> is required"
  validateJobId job
  validateAgentId agent
  let j := Entry.named job
  require (← get fun f => (f.job j).isSome) s!"job '{job}' does not exist"
  acquireJobControlLock j
  let status ← readStatus j
  require status.active
    s!"cannot release job '{job}' from status '{status.text}' (expected: claimed or running)"
  require (← get (·.hasLock j)) s!"cannot release job '{job}': missing lock directory"
  requireAgentOwner "release" j agent
  appendLog j "Released back to pending" message
  writeStatus j .pending
  let _ ← write (.removeAgentId j)
  require (← write (.removeLock j)) s!"cannot release job '{job}': lock directory is not empty"
  releaseJobControlLock j
  say (.line s!"{job}: {status.text} -> pending")

/-- `job_owned_by`. -/
def jobOwnedBy (j : Entry) (agent : String) : Script Bool := do
  if !(← readStatus j).active then pure false else
  if (← get (·.catJob j (·.agentId))) ≠ agent then pure false else
  get (·.hasLock j)

/-- `force_fail_owned_job` of `tools/agent`. -/
def forceFailOwnedJob (job agent message : String) : Script Bool := do
  let j := Entry.named job
  if !(← lock (.job j)) then
    say (.line s!"warning: cannot fail job {job} safely")
    pure false
  else if !(← jobOwnedBy j agent) then
    say (.line s!"warning: cannot fail job {job} safely: ownership was lost")
    releaseJobControlLock j
    pure false
  else
    match ← ensurePlannerNotification hexdigest job with
    | .error e =>
      say (.noticeError job e)
      releaseJobControlLock j
      pure false
    | .ok _ =>
      appendLog j "Failed by agent safety fallback" message
      if !(← write (.setStatus j .failed)) then
        releaseJobControlLock j
        pure false
      else
        -- the terminal status already prevents another launch; a damaged lock stays for job-reap
        if !(← write (.removeLock j)) then
          say (.line s!"warning: job {job} failed closed but its lock remains")
          releaseJobControlLock j
          pure true
        else
          releaseJobControlLock j
          pure true

end Notice

/-- `job-reap`'s reason to reset a job, `none` when it leaves the status alone. -/
inductive ReapPlan where
  | skip (message : String)
  | unlock
  | reset (reason : String)

def reapPlan (force : Bool) (j : Entry) (job : String) (status : Status) : Script ReapPlan := do
  match status with
  | .done | .failed => pure .unlock
  | .pending => pure (.reset "pending job has an ownership lock")
  | .claimed | .running =>
    if !force then
      pure (.skip (s!"skipped: {job} is {status.text}; age never proves its owner is dead " ++
        "(stop it, then use --force)"))
    else
      match ← jobOrphanReason j with
      | none => pure (.reset "explicit forced reset after owner shutdown")
      | some reason => pure (.reset s!"explicit forced reset ({reason})")
  | .other text =>
    if !force then
      pure (.skip s!"skipped: {job} has invalid status '{text}'; use --force to override")
    else pure (.reset s!"forced reset of invalid status '{text}'")

/-- One round of the loop of `job-reap`; `true` when the job was reaped. -/
def reapJob (force : Bool) (minutes : ℤ) (job : String) : Script Bool := do
  let j := Entry.named job
  if !(← get fun f => (f.job j).isSome) then pure false else
  if !(← get fun f => (f.jobFile j (·.status)).isSome) then pure false else
  if !(← get (·.hasLock j)) then pure false else
  if !(← ask (.age job)).any (minutes ≤ ·) then pure false else
  acquireJobControlLock j
  if !(← get (·.hasLock j)) then releaseJobControlLock j; pure false else
  match ← ask (.age job) with
  | none => releaseJobControlLock j; pure false
  | some age =>
  if age < minutes then releaseJobControlLock j; pure false else
  let status ← readStatus j
  match ← reapPlan force j job status with
  | .skip message => say (.line message); releaseJobControlLock j; pure false
  | .unlock =>
    say (.line s!"reaping: {job} (status: {status.text}, stale for {age}m)")
    appendLog j "Removed stale lock"
      s!"Removed stale lock from terminal {status.text} job after {age}m."
    finishReap j job
  | .reset reason =>
    say (.line s!"reaping: {job} (status: {status.text}, stale for {age}m)")
    appendLog j "Reaped stale job" s!"Reset {status.text} job after {age}m: {reason}."
    writeStatus j .pending
    let _ ← write (.removeAgentId j)
    finishReap j job
where
  finishReap (j : Entry) (job : String) : Script Bool := do
    if !(← write (.removeLock j)) then
      say (.jobError job s!"cannot reap job '{job}': lock directory is not empty")
      releaseJobControlLock j
      pure false
    else
      releaseJobControlLock j
      pure true

def reapJobs (force : Bool) (minutes : ℤ) : List String → ℕ → Script Unit
  | [], reaped => say (.line s!"Reaped {reaped} job(s).")
  | job :: rest, reaped => do
    let done ← reapJob force minutes job
    reapJobs force minutes rest (if done then reaped + 1 else reaped)

def jobReap (force : Bool) (minutes : ℕ) : Script Unit := do
  require (0 < minutes) "minutes must be greater than zero"
  reapJobs force minutes (← ask .listing) 0

/-- `validate_empty_ownership_lock`. -/
def validateEmptyOwnershipLock (job : String) : Script Bool := do
  match ← get (·.jobFile (.named job) (·.lock)) with
  | none | some [] => pure true
  | some (_ :: _) =>
    say (.jobError job s!"cannot reset job '{job}': lock directory is not empty")
    pure false

inductive ResetResult where
  | unchanged
  | reset
  | error
  deriving DecidableEq, Repr

def resetPending (job : String) : Script ResetResult := do
  let j := Entry.named job
  acquireJobControlLock j
  if (← readStatus j) ≠ .pending then
    releaseJobControlLock j
    pure .unchanged
  else if !(← validateEmptyOwnershipLock job) then
    releaseJobControlLock j
    pure .error
  else
    finalizePendingTaskCreationLocked j
    let repaired ← repairPendingOwnershipLocked j
    -- under set -e a failing call ends the script
    if !repaired then .exit 1 "" else
    releaseJobControlLock j
    pure .unchanged

/-- Reset a claimed or running job whose lock is empty. -/
def resetOrphaned (job reason : String) : Script ResetResult := do
  let j := Entry.named job
  say (.line s!"Resetting orphaned job: {job} ({reason})")
  appendLog j "Reset by job-reset-orphans" s!"{reason}."
  writeStatus j .pending
  let _ ← write (.removeAgentId j)
  if !(← get (·.hasLock j)) then
    releaseJobControlLock j
    pure .reset
  else if !(← write (.removeLock j)) then
    say (.jobError job s!"cannot reset orphaned job '{job}': lock directory is not empty")
    releaseJobControlLock j
    pure .error
  else
    releaseJobControlLock j
    pure .reset

/-- Why `job-reset-orphans` resets a claimed or running job. -/
def resetReason (allActive : Bool) (j : Entry) : Script (Option String) :=
  if allActive then pure (some "fresh runtime startup proved that no prior team process remains")
  else jobOrphanReason j

def resetActive (allActive : Bool) (job : String) : Script ResetResult := do
  let j := Entry.named job
  acquireJobControlLock j
  if !(← readStatus j).active then
    releaseJobControlLock j
    pure .unchanged
  else
    match ← resetReason allActive j with
    | none =>
      releaseJobControlLock j
      pure .unchanged
    | some reason =>
      if !(← validateEmptyOwnershipLock job) then
        releaseJobControlLock j
        pure .error
      else resetOrphaned job reason

/-- One round of the loop of `job-reset-orphans`. -/
def resetOrphan (allActive : Bool) (job : String) : Script ResetResult := do
  let j := Entry.named job
  if !(← get fun f => (f.jobFile j (·.status)).isSome) then pure .unchanged else
  let status ← readStatus j
  if allActive && status = .pending then resetPending job else
  if !status.active then pure .unchanged else resetActive allActive job

def resetOrphans (allActive : Bool) : List String → ℕ → Bool → Script Unit
  | [], count, errors => do
    say (.line (if count = 0 then "No orphaned jobs found" else s!"Reset {count} orphaned jobs"))
    if errors then .exit 1 "" else pure ()
  | job :: rest, count, errors => do
    match ← resetOrphan allActive job with
    | .unchanged => resetOrphans allActive rest count errors
    | .reset => resetOrphans allActive rest (count + 1) errors
    | .error => resetOrphans allActive rest count true

/-- The `current-job` files `--all-active` also empties are read by no queue command. -/
def jobResetOrphans (allActive : Bool) : Script Unit := do
  if allActive then
    require (← ask .runtimeLock) "--all-active requires Cyclo's inherited runtime-lock capability"
  resetOrphans allActive (← ask .listing) 0 false

/-- `has_pending_job` of `job-wait`. -/
def hasPendingJob (jobRole : Option String) : List String → Script Bool
  | [] => pure false
  | job :: rest => do
    let j := Entry.named job
    if !(← get fun f => (f.job j).isSome) then hasPendingJob jobRole rest else
    if !(← get fun f => (f.jobFile j (·.status)).isSome) then hasPendingJob jobRole rest else
    if !(← get fun f => (f.jobFile j (·.role)).isSome) then hasPendingJob jobRole rest else
    if (← readStatus j) ≠ .pending then hasPendingJob jobRole rest else
    let role ← get (·.catJob j (·.role))
    if jobRole.any (· ≠ role) then hasPendingJob jobRole rest else
    acquireJobControlLock j
    match ← terminalNoticeReadyLocked j with
    | .waiting _ => releaseJobControlLock j; hasPendingJob jobRole rest
    | .ready =>
      finalizePendingTaskCreationLocked j
      if !(← repairPendingOwnershipLocked j) then
        releaseJobControlLock j
        hasPendingJob jobRole rest
      else
        releaseJobControlLock j
        pure true

/-- `job-wait`, stopped after `rounds` scans: every finite part of its endless loop is a part of
this for some number of rounds. -/
def jobWait (jobRole : Option String) : ℕ → Script Unit
  | 0 => pure ()
  | rounds + 1 => do
    if ← hasPendingJob jobRole (← ask .listing) then pure () else jobWait jobRole rounds

end Cyclo.AgentWs
