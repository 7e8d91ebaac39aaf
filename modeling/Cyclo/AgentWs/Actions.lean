import Cyclo.AgentWs.Jobs
import Cyclo.AgentWs.TaskCreate

/-! The queue as a system of guarded actions: who may change what, and when. The scripts are
shown to perform nothing else (`Scripts`), and the properties of the queue are proved of these
actions alone. -/
namespace Cyclo.AgentWs
open Cyclo.Process

/-- The commands a process of the queue may run. -/
inductive Command where
  | jobCreate (a : JobCreateArgs)
  | jobClaim (jobId jobRole : Option String) (agent : String)
  | jobStart (job agent : String)
  | jobDone (job agent message : String)
  | jobFail (job agent message : String)
  | jobRelease (job agent message : String)
  | jobReap (force : Bool) (minutes : ℕ)
  | jobResetOrphans (allActive : Bool)
  | jobWait (jobRole : Option String) (rounds : ℕ)
  | jobNotifyPlanner (job : String)
  | forceFailOwnedJob (job agent message : String)
  | taskCreate (task specFile spec : String)

namespace Command

def script (hexdigest : String → String) : Command → Script Unit
  | jobCreate a => AgentWs.jobCreate a
  | jobClaim jobId jobRole agent => AgentWs.jobClaim jobId jobRole agent
  | jobStart job agent => AgentWs.jobStart job agent
  | jobDone job agent message => AgentWs.jobDone hexdigest job agent message
  | jobFail job agent message => AgentWs.jobFail hexdigest job agent message
  | jobRelease job agent message => AgentWs.jobRelease job agent message
  | jobReap force minutes => AgentWs.jobReap force minutes
  | jobResetOrphans allActive => AgentWs.jobResetOrphans allActive
  | jobWait jobRole rounds => AgentWs.jobWait jobRole rounds
  | jobNotifyPlanner job => AgentWs.jobNotifyPlanner hexdigest job
  | forceFailOwnedJob job agent message => do
    let _ ← AgentWs.forceFailOwnedJob hexdigest job agent message
  | taskCreate task specFile spec => AgentWs.taskCreate task specFile spec

/-- The agent a `job-claim` claims for. -/
def claimant : Command → Option String
  | jobClaim _ _ agent => some agent
  | _ => none

/-- The job a settlement takes the control lock of. -/
def settles : Command → Option String
  | jobDone job _ _ | jobFail job _ _ | forceFailOwnedJob job _ _ => some job
  | _ => none

/-- The task a `task-create` creates. -/
def creates : Command → Option String
  | taskCreate task _ _ => some task
  | _ => none

/-- The job whose terminal notice a command publishes. -/
def notifies : Command → Option String
  | jobNotifyPlanner job => some job
  | c => c.settles

end Command

section
variable (hexdigest : String → String) (cmd : ℕ → Command)

/-- Process `p` holds the control lock of job `j`, whose directory is `J`; of a staged job only
the holder of `.task-create.lock` does. -/
structure HoldsJob (f : Files) (p : ℕ) (j : Entry) (J : Job) : Prop where
  present : f.job j = some J
  holder : J.holder = some p
  creator : ∀ id, j = .staged id → f.createLock = some p

/-- The gate of `terminal_notice_ready_locked`. -/
def NoticeReady (f : Files) (J : Job) : Prop :=
  ∀ source, J.noticeSource = some source →
    ∃ S st, f.job (.named source) = some S ∧ S.status = some st ∧ st.terminal = true

/-- The creation of the task of an initial planner job is over. -/
def TaskCreated (f : Files) (j : Entry) (J : Job) : Prop :=
  J.transaction ≠ none → ∃ task T, J.taskId = some task ∧ j = .named (planJobId task) ∧
    f.task (.named task) = some T ∧ T.creating = none

/-- `N` is the complete terminal notice of `job` of `task`. -/
structure NoticeFor (N : Job) (task job sourceRole : String) : Prop where
  role : N.role = some "planner"
  taskId : N.taskId = some task
  source : N.noticeSource = some job
  spec : N.spec = some (plannerNotificationSpec task job sourceRole)
  workspace : N.workspace = true
  log : N.log.isSome
  controlLock : N.controlLock = true

/-- A job that is no planner's has its terminal notice in the queue. -/
def Noticed (f : Files) (job : String) (J : Job) : Prop :=
  J.role = some "planner" ∨ ∃ role task N, J.role = some role ∧ J.taskId = some task ∧
    f.job (.named (plannerNotificationId hexdigest task job)) = some N ∧ NoticeFor N task job role

/-- What the status of `j` may become, and when. -/
def MaySetStatus (p : ℕ) (f : Files) (j : Entry) (J : Job) : Status → Prop
  | .claimed => J.status = some .pending ∧ J.lock = some [] ∧
      (∃ agent, J.agentId = some agent ∧ (cmd p).claimant = some agent) ∧
      NoticeReady f J ∧ TaskCreated f j J
  | .running => J.status = some .claimed
  | .done => (∃ st, J.status = some st ∧ st.active = true) ∧ ∃ job, j = .named job ∧
    Noticed hexdigest f job J
  | .failed => (∃ st, J.status = some st ∧ st.active = true) ∧ ∃ job, j = .named job ∧
    Noticed hexdigest f job J
  | .pending => ∀ st, J.status = some st → st.terminal = false
  | .other _ => False

/-- The checks `job-create` makes of its own arguments. -/
structure JobCreateArgs.Valid (a : JobCreateArgs) : Prop where
  jobId : validName a.jobId = true
  role : validName a.role = true
  taskId : validName a.taskId = true
  spec : a.spec ≠ ""

/-- The job a command publishes: its own, or the notice of the job it settles. -/
def MayPublish (p : ℕ) (f : Files) (a : JobCreateArgs) : Prop :=
  cmd p = .jobCreate a ∨ ∃ job role task S, (cmd p).notifies = some job ∧
    a = noticeArgs hexdigest task job role ∧ role ≠ "planner" ∧
    f.job (.named job) = some S ∧ S.role = some role ∧ S.taskId = some task

/-- `p` staged the task directory itself, with this token. -/
def StagedTask (p : ℕ) (s : State) (t : Entry) (token : String) : Prop :=
  ∃ build : Task, build.creating = some token ∧ (p, .wrote (.publishTask t build)) ∈ s.trace

def StagedJob (p : ℕ) (s : State) (j : Entry) (token : String) : Prop :=
  ∃ build : Job, build.transaction = some token ∧ (p, .wrote (.publishJob j build)) ∈ s.trace

/-- Since `p` began to remove the directory nobody else has touched it. -/
def RemovingTask (p : ℕ) (s : State) (t : Entry) : Prop :=
  ∃ later earlier token, s.trace = later ++ (p, .said (.removingTask t token)) :: earlier ∧
    ∀ build q, (q, .wrote (.publishTask t build)) ∉ later

def RemovingJob (p : ℕ) (s : State) (j : Entry) : Prop :=
  ∃ later earlier token, s.trace = later ++ (p, .said (.removingJob j token)) :: earlier ∧
    ∀ build q, (q, .wrote (.publishJob j build)) ∉ later

/-- `p` publishes the complete planner job of a task published with the same token. -/
structure PublishesPlan (p : ℕ) (f : Files) (src dst : Entry) (task token : String) (J : Job)
    (T : Task) : Prop where
  creator : f.createLock = some p
  creates : (cmd p).creates = some task
  valid : validName task = true
  staged : src = planJobStage task
  named : dst = .named (planJobId task)
  hold : HoldsJob f p src J
  complete : f.plannerJobIsComplete task src token = true
  status : J.status = some .pending
  task : f.task (.named task) = some T
  token : T.token = some token

/-- The guards of the changes of the queue directories. -/
def Allowed (p : ℕ) (s : State) : Write → Prop
  | .setStatus j st => ∃ J, HoldsJob s.files p j J ∧ MaySetStatus hexdigest cmd p s.files j J st
  | .setAgentId j _ => ∃ J, HoldsJob s.files p j J ∧ J.status = some .pending
  | .removeAgentId j => ∃ J, HoldsJob s.files p j J ∧ J.status = some .pending
  | .makeLock j => ∃ J, HoldsJob s.files p j J ∧ J.status = some .pending
  | .removeLock j => ∃ J, HoldsJob s.files p j J ∧ ∀ st, J.status = some st → st.active = false
  | .appendLog j _ => ∃ J, HoldsJob s.files p j J
  | .publishJob (.named id) build =>
    ∃ a, a.Valid ∧ id = a.jobId ∧ build = a.build ∧ MayPublish hexdigest cmd p s.files a
  | .publishJob (.staged id) build => s.files.createLock = some p ∧
    ∃ task token, id = planJobId task ∧ build = planJobBuild task token
  | .renameJob src dst => ∃ task token J T, PublishesPlan cmd p s.files src dst task token J T
  | .unlinkJob j _ => s.files.createLock = some p ∧ (∃ id, j = .staged id) ∧ RemovingJob p s j
  | .removeJob j => s.files.createLock = some p ∧ (∃ id, j = .staged id) ∧ RemovingJob p s j
  | .publishTask t build => s.files.createLock = some p ∧
    ∃ task token spec, t = taskStage task ∧ build = taskBuild token spec ∧ spec ≠ ""
  | .renameTask src dst => s.files.createLock = some p ∧ ∃ task token,
    src = taskStage task ∧ dst = .named task ∧ s.files.taskIsComplete src token true
  | .removeCreating t => ∃ task token J, t = .named task ∧
    HoldsJob s.files p (.named (planJobId task)) J ∧ J.transaction = some token ∧
    J.taskId = some task ∧ ∀ T, s.files.task t = some T → T.creating = none ∨ T.creating = some token
  | .unlinkTask t _ => s.files.createLock = some p ∧ (∃ id, t = .staged id) ∧ RemovingTask p s t
  | .removeTask t => s.files.createLock = some p ∧ (∃ id, t = .staged id) ∧ RemovingTask p s t

/-- Only the holder of `.task-create.lock` locks a staged directory. -/
def MayLock (p : ℕ) (f : Files) : LockName → Prop
  | .job (.staged _) | .task (.staged _) => f.createLock = some p
  | _ => True

/-- When `p` took the control lock of `job` no notice of it had been published. -/
def NoticeUnpublishedAtLock (p : ℕ) (job : String) (notice : String) (trace : List (ℕ × Event)) :
    Prop :=
  ∃ later earlier, trace = later ++ (p, .locked (.job (.named job))) :: earlier ∧
    ∀ q build, (q, .wrote (.publishJob (.named notice) build)) ∉ earlier

/-- The guards of the output. `Unique` stands for the absence of collisions of notice ids. -/
def MaySay (Unique : Prop) (p : ℕ) (s : State) : Output → Prop
  | .claimed job => (p, .wrote (.setStatus (.named job) .claimed)) ∈ s.trace
  | .removingTask t token => s.files.createLock = some p ∧
    (∃ T, s.files.task t = some T ∧ T.creating = some token) ∧ StagedTask p s t token
  | .removingJob j token => s.files.createLock = some p ∧
    (∃ J, s.files.job j = some J ∧ J.transaction = some token) ∧ StagedJob p s j token
  | .noticeError job _ => Unique → (cmd p).settles = some job →
    ∃ S task, s.files.job (.named job) = some S ∧ S.taskId = some task ∧
      NoticeUnpublishedAtLock p job (plannerNotificationId hexdigest task job) s.trace
  | _ => True

/-- What process `p` may do in one step. -/
inductive Action (Unique : Prop) (p : ℕ) (s : State) : State → Prop
  | idle : Action Unique p s s
  | write {w : Write} {f : Files} : Allowed hexdigest cmd p s w → w.apply s.files = some f →
      Action Unique p s (s.record p (.wrote w) f)
  | lock {l : LockName} : s.files.lockState l = some none → MayLock p s.files l →
      Action Unique p s (s.record p (.locked l) (s.files.grant p l))
  | free (l : LockName) : Action Unique p s ⟨s.files.free p l, s.trace⟩
  | say {o : Output} : MaySay hexdigest cmd Unique p s o →
      Action Unique p s (s.record p (.said o) s.files)
  | quit : Action Unique p s ⟨s.files.freeAll p, s.trace⟩

end

end Cyclo.AgentWs
