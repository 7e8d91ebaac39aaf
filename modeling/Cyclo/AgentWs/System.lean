import Cyclo.AgentWs.Interference

/-! The queue with its commands fixed: the state it starts in, the processes that run, and the
invariants of what is published in it. -/
namespace Cyclo.AgentWs
open Cyclo.Process

/-- A queue no command has used yet: jobs as `job-create` leaves them, tasks whose creation is
over. -/
structure Fresh (s : State) : Prop where
  trace : s.trace = []
  createLock : s.files.createLock = none
  stagedJob : ∀ id, s.files.job (.staged id) = none
  stagedTask : ∀ id, s.files.task (.staged id) = none
  job : ∀ id J, s.files.job (.named id) = some J →
    ∃ a : JobCreateArgs, a.Valid ∧ a.jobId = id ∧ a.noticeSource = none ∧ J = a.build
  task : ∀ id T, s.files.task (.named id) = some T → T.creating = none ∧ T.token = none

/-- A job that is no planner's and is in the queue from the start or created by some command. -/
def InUse (cmd : ℕ → Command) (s₀ : State) (task job : String) : Prop :=
  ∃ a : JobCreateArgs, a.jobId = job ∧ a.taskId = task ∧ a.role ≠ "planner" ∧
    ((∃ p, cmd p = .jobCreate a) ∨ s₀.files.job (.named job) = some a.build)

/-- No two jobs have one notice id, and no job but the notice itself has it. -/
structure NoCollision (hexdigest : String → String) (cmd : ℕ → Command) (s₀ : State) : Prop where
  notices : ∀ {task job task' job'}, InUse cmd s₀ task job → InUse cmd s₀ task' job' →
    plannerNotificationId hexdigest task job = plannerNotificationId hexdigest task' job' →
    job = job'
  initial : ∀ {id task job}, s₀.files.job (.named id) ≠ none → InUse cmd s₀ task job →
    id ≠ plannerNotificationId hexdigest task job
  created : ∀ {p a task job}, cmd p = .jobCreate a → InUse cmd s₀ task job →
    a.jobId ≠ plannerNotificationId hexdigest task job
  planned : ∀ {p id task job}, (cmd p).creates = some id → InUse cmd s₀ task job →
    planJobId id ≠ plannerNotificationId hexdigest task job
  /-- `--terminal-notice-for` is left to the publisher of notices. -/
  ordinary : ∀ {p a}, cmd p = .jobCreate a → a.noticeSource = none

/-- The processes of a queue and the state they start in. -/
structure Setting where
  hexdigest : String → String
  cmd : ℕ → Command
  start : State
  fresh : Fresh start

namespace Setting

def Unique (S : Setting) : Prop := NoCollision S.hexdigest S.cmd S.start

def act (S : Setting) : ℕ → State → State → Prop := Action S.hexdigest S.cmd S.Unique

/-- The states the actions of the processes reach. -/
def Visited (S : Setting) (s : State) : Prop := Visits S.act S.start s

/-- The interleavings of the commands' scripts. -/
def Reachable (S : Setting) (c : Config Op State) : Prop :=
  Process.Reachable queueKernel (fun p => (S.cmd p).script S.hexdigest) S.start c

end Setting

end Cyclo.AgentWs
