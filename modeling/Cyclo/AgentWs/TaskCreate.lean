import Cyclo.AgentWs.Lib

/-! `bin/task-create`: a task and its initial planner job, published as one transaction over two
sibling directories. The tests of several files of one directory are one read: only `.creating`
and `status` can change under them. -/
namespace Cyclo.AgentWs
open Cyclo.Process

/-- `task_is_complete`; `mustBeOpen` is its third argument `open`. -/
def Files.taskIsComplete (f : Files) (t : Entry) (transaction : String) (mustBeOpen : Bool) : Bool :=
  (f.task t).any fun T => T.creating = some transaction && T.spec.any (· ≠ "") && T.log.isSome &&
    (if mustBeOpen then T.state = some "open" else T.state = some "open" || T.state = some "done")

def Files.plannerJobHasCompleteBase (f : Files) (task : String) (j : Entry) (transaction : String) :
    Bool :=
  (f.job j).any fun J => J.transaction = some transaction && J.workspace && J.spec.any (· ≠ "") &&
    J.role = some "planner" && J.taskId = some task && J.log.isSome && J.controlLock

def Files.plannerJobIsStaged (f : Files) (task : String) (j : Entry) (transaction : String) : Bool :=
  f.plannerJobHasCompleteBase task j transaction &&
    (match f.jobFile j (·.status) with
    | none => true
    | some status => status = .pending)

def Files.plannerJobIsComplete (f : Files) (task : String) (j : Entry) (transaction : String) : Bool :=
  f.plannerJobHasCompleteBase task j transaction &&
    (match f.jobFile j (·.status) with
    | none | some (.other _) => false
    | some _ => true)

def Files.plannerJobIsRecoverable (f : Files) (task : String) (j : Entry) (transaction : String) :
    Bool :=
  f.plannerJobHasCompleteBase task j transaction &&
    ((f.jobFile j (·.status)).isNone || f.plannerJobIsComplete task j transaction)

/-- The shell variables the exit trap reads. -/
structure Vars where
  transactionId : String := ""
  ownTaskStage : Bool := false
  ownPlanStage : Bool := false

def planJobId (task : String) : String := task ++ "-plan"

def taskStage (task : String) : Entry := .staged task
def planJobStage (task : String) : Entry := .staged (planJobId task)

def unlinkTaskFiles (t : Entry) : List TaskFile → Script Unit
  | [] => pure ()
  | file :: rest => do
    let _ ← write (.unlinkTask t file)
    unlinkTaskFiles t rest

def unlinkJobFiles (j : Entry) : List JobFile → Script Unit
  | [] => pure ()
  | file :: rest => do
    let _ ← write (.unlinkJob j file)
    unlinkJobFiles j rest

def allTaskFiles : List TaskFile := [.creating, .spec, .log, .state, .controlLock]

def allJobFiles : List JobFile :=
  [.transaction, .workspace, .spec, .role, .taskId, .log, .controlLock, .status]

/-- `remove_owned_stage` on the task stage; `rm -rf` visits the directory in any order. -/
def removeOwnedTaskStage (task transaction : String) : Script Unit := do
  let t := taskStage task
  if transaction = "" then pure () else
  if !(← get fun f => decide (f.taskFile t (·.creating) = some transaction)) then pure () else
  say (.removingTask t transaction)
  unlinkTaskFiles t ((← ask .taskOrder) ++ allTaskFiles)
  let _ ← write (.removeTask t)

def removeOwnedPlanStage (task transaction : String) : Script Unit := do
  let j := planJobStage task
  if transaction = "" then pure () else
  if !(← get fun f => decide (f.jobFile j (·.transaction) = some transaction)) then pure () else
  say (.removingJob j transaction)
  unlinkJobFiles j ((← ask .jobOrder) ++ allJobFiles)
  let _ ← write (.removeJob j)

/-- The exit trap outside a commit, on a failure or a caught signal. The private build directories
it removes as well are no part of the queue. -/
def cleanup (task : String) (v : Vars) : Script Unit := do
  ifSet v.ownTaskStage (removeOwnedTaskStage task v.transactionId)
  ifSet v.ownPlanStage (removeOwnedPlanStage task v.transactionId)
  unlock .create

/-- A point between two commands where a caught signal may end the script. -/
def signalPoint (task : String) (v : Vars) : Script Unit := do
  let caught ← ask .signal
  ifSet caught do
    cleanup task v
    .exit 143 ""

def failWith {α : Type} (task : String) (v : Vars) (message : String) : Script α := do
  cleanup task v
  die message

/-- `test || die message` where the exit trap has stages to remove. -/
def requireOwned (task : String) (v : Vars) (test : Bool) (message : String) : Script Unit :=
  if test then pure () else failWith task v message

def taskBuild (transaction spec : String) : Task where
  creating := some transaction
  token := some transaction
  spec := some spec
  log := some []
  state := some "open"
  controlLock := true

def planSpec (task : String) : String :=
  s!"# Plan for task {task}\n\n## Task\n{task}\n\n" ++
  s!"## Objective\nRead the task with `bin/task-show {task}`, update task understanding with\n" ++
  s!"`bin/task-comment {task} <message>`, and create the first jobs needed to\n" ++
  "complete this task.\n\n" ++
  "## Acceptance Criteria\nThe task has a clear initial plan, and any jobs needed next have been " ++
  s!"created\nwith `task-id={task}`.\n\n" ++
  "## When Done\nCreate the required follow-up jobs for this task, then close this planner job.\n" ++
  "The task is complete only when a planner decides it is complete and records the\n" ++
  s!"result with `bin/task-result {task} <result-file>`.\n"

def planJobBuild (task transaction : String) : Job where
  transaction := some transaction
  workspace := true
  spec := some (planSpec task)
  role := some "planner"
  taskId := some task
  log := some []
  controlLock := true

/-- `create_task_stage`: the variables after it. -/
def createTaskStage (task spec : String) (v : Vars) : Script Vars := do
  signalPoint task v
  requireOwned task v (← write (.publishTask (taskStage task) (taskBuild v.transactionId spec)))
    s!"cannot publish staged task because the destination already exists: {(taskStage task).name}"
  -- a signal taken here leaves a stage the trap does not own yet
  signalPoint task v
  pure { v with ownTaskStage := true }

def createPlannerJobStage (task : String) (v : Vars) : Script Vars := do
  signalPoint task v
  requireOwned task v (← write (.publishJob (planJobStage task) (planJobBuild task v.transactionId)))
    (s!"cannot publish staged initial planner job because the destination already exists: " ++
      (planJobStage task).name)
  signalPoint task v
  pure { v with ownPlanStage := true }

def publishTaskStage (task : String) : Script Unit := do
  require (← write (.renameTask (taskStage task) (.named task)))
    s!"cannot publish task because the destination already exists: {task}"

def publishPlanStage (task : String) : Script Unit := do
  require (← write (.renameJob (planJobStage task) (.named (planJobId task))))
    s!"cannot publish initial planner job because the destination already exists: {planJobId task}"

/-- The job directory `finish_commit` locks. -/
def commitJob (task : String) (publishJob : Bool) : Entry :=
  if publishJob then planJobStage task else .named (planJobId task)

/-- `finish_commit`. Signals are ignored in it, and the exit trap removes nothing. -/
def finishCommit (task transaction : String) (publishTask publishJob : Bool) : Script Unit := do
  let j := commitJob task publishJob
  let planJob := Entry.named (planJobId task)
  acquireJobControlLock j
  ifSet publishTask (publishTaskStage task)
  require (← get (·.taskIsComplete (.named task) transaction false))
    s!"published task '{task}' is incomplete"
  require (← get (·.plannerJobHasCompleteBase task j transaction))
    s!"published initial planner job '{planJobId task}' is incomplete"
  acquireTaskControlLock (.named task)
  releaseTaskControlLock (.named task)
  let fresh ← get fun f => (f.jobFile j (·.status)).isNone
  ifSet fresh (writeStatus j .pending)
  require (← get (·.plannerJobIsComplete task j transaction))
    s!"published initial planner job '{planJobId task}' is incomplete"
  ifSet publishJob (publishPlanStage task)
  require (← get (·.plannerJobIsComplete task planJob transaction))
    s!"published initial planner job '{planJobId task}' is incomplete"
  require (← write (.removeCreating (.named task))) s!"cannot finalize task '{task}' creation"
  releaseJobControlLock planJob

/-- `recover_interrupted_commit`: `true` when it finished an interrupted creation, `false` when
there is nothing of the task. -/
def recoverInterruptedCommit (task : String) : Script Bool := do
  let v : Vars := {}
  let planJob := Entry.named (planJobId task)
  let finalTask ← get fun f => (f.task (.named task)).isSome
  let finalJob ← get fun f => (f.job planJob).isSome
  let stagedTask ← get fun f => (f.task (taskStage task)).isSome
  let stagedJob ← get fun f => (f.job (planJobStage task)).isSome
  signalPoint task v
  match finalTask, finalJob, stagedTask, stagedJob with
  | false, false, false, false => pure false
  | true, true, false, false =>
    let transaction ← get (·.catTask (.named task) (·.creating))
    require (transaction ≠ "" && (← get (·.taskIsComplete (.named task) transaction false)) &&
        (← get (·.plannerJobIsRecoverable task planJob transaction)))
      s!"task '{task}' collides with an existing or corrupt task/planner pair"
    signalPoint task v
    finishCommit task transaction false false
    pure true
  | true, false, false, true =>
    let transaction ← get (·.catTask (.named task) (·.creating))
    require (transaction ≠ "" && (← get (·.taskIsComplete (.named task) transaction false)) &&
        (← get (·.plannerJobIsStaged task (planJobStage task) transaction)))
      s!"task '{task}' has an ambiguous or corrupt interrupted creation"
    signalPoint task v
    finishCommit task transaction false true
    pure true
  | false, false, true, false =>
    let transaction ← get (·.catTask (taskStage task) (·.creating))
    require (transaction ≠ "" && (← get (·.taskIsComplete (taskStage task) transaction true)))
      s!"task '{task}' has ambiguous or corrupt staged creation data"
    let v ← createPlannerJobStage task { v with transactionId := transaction }
    signalPoint task v
    requireOwned task v (← get (·.plannerJobIsStaged task (planJobStage task) transaction))
      s!"staged initial planner job '{planJobId task}' is incomplete"
    signalPoint task v
    finishCommit task transaction true true
    pure true
  | false, false, true, true =>
    let transaction ← get (·.catTask (taskStage task) (·.creating))
    require (transaction ≠ "" && (← get (·.taskIsComplete (taskStage task) transaction true)) &&
        (← get (·.plannerJobIsStaged task (planJobStage task) transaction)))
      s!"task '{task}' has ambiguous or corrupt staged creation data"
    signalPoint task v
    finishCommit task transaction true true
    pure true
  | _, _, _, _ => die s!"task '{task}' collides with ambiguous task or planner creation state"

/-- `TRANSACTION_ID` of a new creation: `$$` and the seconds of the clock. -/
def newTransaction (task : String) (stamp : ℕ × ℕ) : String := s!"task-{task}-{stamp.1}-{stamp.2}"

def createTask (task spec : String) : Script Unit := do
  let v : Vars := { transactionId := newTransaction task (← ask .stamp) }
  let v ← createTaskStage task spec v
  signalPoint task v
  let v ← createPlannerJobStage task v
  signalPoint task v
  requireOwned task v (← get (·.taskIsComplete (taskStage task) v.transactionId true))
    s!"staged task '{task}' is incomplete"
  requireOwned task v (← get (·.plannerJobIsStaged task (planJobStage task) v.transactionId))
    s!"staged initial planner job '{planJobId task}' is incomplete"
  signalPoint task v
  finishCommit task v.transactionId true true

/-- `task-create <task> <spec-file>`; `spec` is the text of the file. -/
def taskCreate (task specFile spec : String) : Script Unit := do
  require (task ≠ "") "usage"
  require (spec ≠ "") s!"spec file '{specFile}' is empty"
  validateTaskId task
  let ok ← lock .create
  require ok "cannot acquire task creation lock"
  signalPoint task {}
  if ← recoverInterruptedCommit task then
    say (.line s!"recovered completed task creation: {task}")
  else
    createTask task spec
  say (.line s!"created task: {task}")

end Cyclo.AgentWs
