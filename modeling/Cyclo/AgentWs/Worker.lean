import Cyclo.AgentWs.Jobs
import Cyclo.Process.Embedding

/-! How a worker of `tools/agent` settles its claimed job once the engine process has ended. -/
namespace Cyclo.AgentWs
open Cyclo.Process

def fatalAgentExit : ℤ := 70
def retryableAgentExit : ℤ := 75

section
variable (hexdigest : String → String)

/-- The commands a worker settles a job with. -/
inductive Transition where
  | fail
  | release
  deriving DecidableEq, Repr

def Transition.command : Transition → String
  | .fail => "job-fail"
  | .release => "job-release"

def Transition.script (job agent message : String) : Transition → Script Unit
  | .fail => jobFail hexdigest job agent message
  | .release => jobRelease job agent message

def warnTransition (c : Transition) (job detail : String) : Script Bool := do
  say (.line s!"warning: {c.command} failed for {job}: {detail}")
  pure false

/-- `run_job_transition`: whether the command has exited with status 0. It may be stopped at any
point, and then counts as failed. -/
def runJobTransition (c : Transition) (job agent message : String) : Script Bool := do
  let ended ← child (c.script hexdigest job agent message)
  -- the control lock is free again however the command has ended
  releaseJobControlLock (.named job)
  match ended with
  | .exited 0 _ => pure true
  | .exited code detail =>
    warnTransition c job (if detail = "" then s!"exit status {code}" else detail)
  | .killed => warnTransition c job "exit status -9"
  | .timedOut => warnTransition c job "timed out after 5 seconds"

/-- `transition_or_fail_closed`: whether the job is settled, and whether by the fallback. -/
def transitionOrFailClosed (c : Transition) (job agent message : String) : Script (Bool × Bool) := do
  if ← runJobTransition hexdigest c job agent message then pure (true, false)
  else
    let settled ← forceFailOwnedJob hexdigest job agent
      (s!"The normal {c.command} transition failed. The worker failed this job " ++
        "closed to prevent an unbounded retry or a stranded owned job.")
    pure (settled, true)

end

/-- The operations of a worker: those of the queue, and the changes of the job's `.agent-attempts`,
which the operating system may refuse. -/
inductive WorkerOp : Type → Type 1 where
  | queue {β : Type} (e : Op β) : WorkerOp β
  | unlinkAttempts : WorkerOp Bool
  | writeAttempts (value : ℤ) : WorkerOp Bool

structure WorkerState where
  queue : State
  attempts : Option ℤ

def WorkerState.changes (s : WorkerState) (attempts : Option ℤ) (r : Bool) (s' : WorkerState) : Prop :=
  s'.queue = s.queue ∧ s'.attempts = if r then attempts else s.attempts

def workerExec (p : ℕ) {β : Type} : WorkerOp β → WorkerState → β → WorkerState → Prop
  | .queue e, s, r, s' => exec p e s.queue r s'.queue ∧ s'.attempts = s.attempts
  | .unlinkAttempts, s, r, s' => s.changes none r s'
  | .writeAttempts value, s, r, s' => s.changes (some value) r s'

def workerKernel : Kernel WorkerOp WorkerState where
  exec := workerExec
  quit p s := { s with queue := queueKernel.quit p s.queue }

abbrev Worker := Prog WorkerOp

def onQueue {α : Type} (x : Script α) : Worker α := x.embed .queue

/-- An error other than a missing file leaves the caller. -/
def clearJobAttempts : Worker Unit := do
  if ← .perform .unlinkAttempts then pure () else .exit 1 "OSError"

/-- `restore_job_attempt`; `false` is an error, which its caller catches. -/
def restoreJobAttempt (previous : ℤ) : Worker Bool :=
  if previous ≤ 0 then .perform .unlinkAttempts else .perform (.writeAttempts previous)

section
variable (hexdigest : String → String)

def settleStoredRetryBudgetExhaustion (job agent : String) (maximum : ℤ) : Worker ℤ := do
  let (settled, usedFallback) ← onQueue (transitionOrFailClosed hexdigest .fail job agent
    (s!"Agent retry safety budget exhausted after {maximum} unsuccessful " ++
      "process attempts; refusing another model launch."))
  if !settled || usedFallback then pure fatalAgentExit else pure retryableAgentExit

/-- `settle_job_after_process`. -/
def settleJobAfterProcess (job agent : String) (processStatus previousAttempts attempt maximum : ℤ)
    (interrupted : Bool) (label : String) : Worker ℤ := do
  let j := Entry.named job
  let status ← onQueue (get (·.jobFile j (·.status)))
  if status.any Status.terminal then
    clearJobAttempts
    pure 0
  else if interrupted then
    if ← onQueue (jobOwnedBy j agent) then
      let restored ← restoreJobAttempt previousAttempts
      onQueue (ifSet (!restored) (say (.line s!"warning: cannot restore retry counter for {job}")))
      let (settled, usedFallback) ← onQueue (transitionOrFailClosed hexdigest .release job agent
        (s!"{label} process was stopped by the operator; releasing without " ++
          "consuming a retry attempt."))
      if !settled || usedFallback then pure fatalAgentExit else pure processStatus
    else pure processStatus
  else if ← onQueue (jobOwnedBy j agent) then
    let terminalFailure := attempt ≤ 0 ∨ maximum ≤ attempt
    let (settled, usedFallback) ← onQueue (if terminalFailure then
        transitionOrFailClosed hexdigest .fail job agent
          (s!"{label} process exited with status {processStatus} without " ++
            s!"finishing the job; retry safety budget exhausted ({attempt}/{maximum}).")
      else
        transitionOrFailClosed hexdigest .release job agent
          (s!"{label} process exited with status {processStatus} without " ++
            s!"finishing the job; released for bounded retry ({attempt}/{maximum})."))
    if !settled || usedFallback then pure fatalAgentExit else pure retryableAgentExit
  else if status = some .pending then pure retryableAgentExit
  else
    -- another agent may have claimed the released job in the meantime
    let owner ← onQueue (get (·.catJob j (·.agentId)))
    if status.any Status.active && owner ≠ agent then pure 0
    else
      let text := (status.map Status.text).getD ""
      let shown := if text = "" then "missing" else text
      onQueue (say (.line s!"warning: cannot settle job {job}: unexpected status {shown}"))
      pure fatalAgentExit

/-- The two ways in which a worker settles the job it has claimed. -/
inductive WorkerSettling where
  | storedRetryBudgetExhaustion (maximum : ℤ)
  | afterProcess (processStatus previousAttempts attempt maximum : ℤ) (interrupted : Bool)
    (label : String)

def WorkerSettling.program (job agent : String) : WorkerSettling → Worker ℤ
  | .storedRetryBudgetExhaustion maximum =>
    settleStoredRetryBudgetExhaustion hexdigest job agent maximum
  | .afterProcess processStatus previousAttempts attempt maximum interrupted label =>
    settleJobAfterProcess hexdigest job agent processStatus previousAttempts attempt maximum
      interrupted label

end

end Cyclo.AgentWs
