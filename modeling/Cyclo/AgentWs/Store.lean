import Cyclo.Process.Refinement

/-! The AgentWS queue on disk: job and task directories, the atomic steps that change them,
and the advisory locks. A private directory that only its maker can name (`mktemp -d`) is a
value of the process until the rename that publishes it. -/
namespace Cyclo.AgentWs
open Cyclo.Process

/-- The text of a `status` file. -/
inductive Status where
  | pending
  | claimed
  | running
  | done
  | failed
  | other (text : String)
  deriving DecidableEq, Repr

namespace Status

def text : Status → String
  | pending => "pending"
  | claimed => "claimed"
  | running => "running"
  | done => "done"
  | failed => "failed"
  | other t => t

/-- Claimed or running: the job has an owner. -/
def active : Status → Bool
  | claimed | running => true
  | _ => false

def terminal : Status → Bool
  | done | failed => true
  | _ => false

end Status

/-- A directory entry of `jobs/` or `tasks/`: `<id>`, or the hidden staging directory
`.<id>+.task-create-stage`. -/
inductive Entry where
  | named (id : String)
  | staged (id : String)
  deriving DecidableEq, Repr

/-- One record of a `log.md`; its time stamp is left out. -/
structure LogRecord where
  summary : String
  detail : String
  deriving DecidableEq, Repr

/-- A job directory. A file is `none` when absent; `lock` lists what `lock/` contains and
`holder` is the process whose `flock` on `.control.lock` is granted. -/
structure Job where
  status : Option Status := none
  role : Option String := none
  taskId : Option String := none
  spec : Option String := none
  log : Option (List LogRecord) := none
  workspace : Bool := false
  controlLock : Bool := false
  agentId : Option String := none
  lock : Option (List String) := none
  noticeSource : Option String := none
  transaction : Option String := none
  holder : Option ℕ := none
  deriving DecidableEq, Repr

/-- A task directory; `creating` is the token in `.creating`. `token`, the token the directory was
staged with, is a history variable: it is no file and no script reads it. -/
structure Task where
  creating : Option String := none
  token : Option String := none
  spec : Option String := none
  log : Option (List LogRecord) := none
  state : Option String := none
  controlLock : Bool := false
  holder : Option ℕ := none
  deriving DecidableEq, Repr

/-- The queue: `jobs/`, `tasks/`, the directories of `agents/`, and the holder of
`tasks/.task-create.lock`. -/
structure Files where
  job : Entry → Option Job := fun _ => none
  task : Entry → Option Task := fun _ => none
  agent : String → Bool := fun _ => false
  createLock : Option ℕ := none

namespace Files

def setJob (f : Files) (j : Entry) (x : Option Job) : Files :=
  { f with job := fun k => if k = j then x else f.job k }

def setTask (f : Files) (t : Entry) (x : Option Task) : Files :=
  { f with task := fun k => if k = t then x else f.task k }

@[simp] theorem setJob_job (f : Files) (j k : Entry) (x : Option Job) :
    (f.setJob j x).job k = if k = j then x else f.job k := rfl

@[simp] theorem setJob_task (f : Files) (j : Entry) (x : Option Job) :
    (f.setJob j x).task = f.task := rfl

@[simp] theorem setJob_createLock (f : Files) (j : Entry) (x : Option Job) :
    (f.setJob j x).createLock = f.createLock := rfl

@[simp] theorem setTask_task (f : Files) (t k : Entry) (x : Option Task) :
    (f.setTask t x).task k = if k = t then x else f.task k := rfl

@[simp] theorem setTask_job (f : Files) (t : Entry) (x : Option Task) :
    (f.setTask t x).job = f.job := rfl

@[simp] theorem setTask_createLock (f : Files) (t : Entry) (x : Option Task) :
    (f.setTask t x).createLock = f.createLock := rfl

end Files

/-- What a recursive removal unlinks from a staging directory, one at a time. -/
inductive JobFile where
  | transaction | workspace | spec | role | taskId | log | controlLock | status
  deriving DecidableEq, Repr

inductive TaskFile where
  | creating | spec | log | state | controlLock
  deriving DecidableEq, Repr

def Job.unlink (J : Job) : JobFile → Job
  | .transaction => { J with transaction := none }
  | .workspace => { J with workspace := false }
  | .spec => { J with spec := none }
  | .role => { J with role := none }
  | .taskId => { J with taskId := none }
  | .log => { J with log := none }
  | .controlLock => { J with controlLock := false }
  | .status => { J with status := none }

def Task.unlink (T : Task) : TaskFile → Task
  | .creating => { T with creating := none }
  | .spec => { T with spec := none }
  | .log => { T with log := none }
  | .state => { T with state := none }
  | .controlLock => { T with controlLock := false }

/-- The atomic changes of the queue directories. -/
inductive Write where
  | setStatus (j : Entry) (s : Status)
  | setAgentId (j : Entry) (agent : String)
  | removeAgentId (j : Entry)
  | makeLock (j : Entry)
  | removeLock (j : Entry)
  | appendLog (j : Entry) (r : LogRecord)
  | publishJob (j : Entry) (build : Job)
  | renameJob (src dst : Entry)
  | unlinkJob (j : Entry) (file : JobFile)
  | removeJob (j : Entry)
  | publishTask (t : Entry) (build : Task)
  | renameTask (src dst : Entry)
  | removeCreating (t : Entry)
  | unlinkTask (t : Entry) (file : TaskFile)
  | removeTask (t : Entry)
  deriving DecidableEq, Repr

/-- Change an existing job directory. -/
def Files.onJob (f : Files) (j : Entry) (g : Job → Option Job) : Option Files :=
  (f.job j).bind fun J => (g J).map fun J' => f.setJob j (some J')

def Files.onTask (f : Files) (t : Entry) (g : Task → Option Task) : Option Files :=
  (f.task t).bind fun T => (g T).map fun T' => f.setTask t (some T')

/-- The effect of a change; `none` when the file system refuses it. -/
def Write.apply (f : Files) : Write → Option Files
  | .setStatus j s => f.onJob j fun J => some { J with status := some s }
  | .setAgentId j a => f.onJob j fun J => some { J with agentId := some a }
  | .removeAgentId j => f.onJob j fun J => some { J with agentId := none }
  | .makeLock j => f.onJob j fun J => if J.lock = none then some { J with lock := some [] } else none
  -- rmdir refuses a directory that is missing or not empty
  | .removeLock j => f.onJob j fun J => if J.lock = some [] then some { J with lock := none } else none
  | .appendLog j r => f.onJob j fun J => some { J with log := some (J.log.getD [] ++ [r]) }
  -- mv -nT leaves an existing destination alone
  | .publishJob j build => if f.job j = none then some (f.setJob j (some build)) else none
  | .renameJob src dst =>
    if f.job dst = none then
      (f.job src).map fun J => (f.setJob dst (some J)).setJob src none
    else none
  | .unlinkJob j file => f.onJob j fun J => some (J.unlink file)
  | .removeJob j => (f.job j).map fun _ => f.setJob j none
  | .publishTask t build => if f.task t = none then some (f.setTask t (some build)) else none
  | .renameTask src dst =>
    if f.task dst = none then
      (f.task src).map fun T => (f.setTask dst (some T)).setTask src none
    else none
  | .removeCreating t => f.onTask t fun T => some { T with creating := none }
  | .unlinkTask t file => f.onTask t fun T => some (T.unlink file)
  | .removeTask t => (f.task t).map fun _ => f.setTask t none

/-- The job directories a change touches. -/
def Write.jobs : Write → List Entry
  | .setStatus j _ | .setAgentId j _ | .removeAgentId j | .makeLock j | .removeLock j
  | .appendLog j _ | .publishJob j _ | .unlinkJob j _ | .removeJob j => [j]
  | .renameJob src dst => [src, dst]
  | _ => []

def Write.tasks : Write → List Entry
  | .publishTask t _ | .removeCreating t | .unlinkTask t _ | .removeTask t => [t]
  | .renameTask src dst => [src, dst]
  | _ => []

theorem Files.onJob_eq_some {f f' : Files} {j : Entry} {g : Job → Option Job} :
    f.onJob j g = some f' ↔
      ∃ J J', f.job j = some J ∧ g J = some J' ∧ f.setJob j (some J') = f' := by
  simp [Files.onJob, Option.bind_eq_some_iff]

theorem Files.onTask_eq_some {f f' : Files} {t : Entry} {g : Task → Option Task} :
    f.onTask t g = some f' ↔
      ∃ T T', f.task t = some T ∧ g T = some T' ∧ f.setTask t (some T') = f' := by
  simp [Files.onTask, Option.bind_eq_some_iff]

/-- A change leaves alone every directory it does not name, and the creation lock. -/
theorem Write.apply_frame {w : Write} {f f' : Files} (h : w.apply f = some f') :
    (∀ k, k ∉ w.jobs → f'.job k = f.job k) ∧ (∀ k, k ∉ w.tasks → f'.task k = f.task k) ∧
      f'.createLock = f.createLock := by
  cases w with
  | setStatus j _ | setAgentId j _ | removeAgentId j | makeLock j | removeLock j | appendLog j _
  | unlinkJob j _ =>
    obtain ⟨J, J', _, _, rfl⟩ := Files.onJob_eq_some.1 h
    simp +contextual [Write.jobs]
  | removeCreating t | unlinkTask t _ =>
    obtain ⟨T, T', _, _, rfl⟩ := Files.onTask_eq_some.1 h
    simp +contextual [Write.tasks]
  | publishJob j build =>
    simp only [Write.apply] at h
    split at h <;> cases h
    simp +contextual [Write.jobs]
  | publishTask t build =>
    simp only [Write.apply] at h
    split at h <;> cases h
    simp +contextual [Write.tasks]
  | renameJob src dst =>
    simp only [Write.apply] at h
    split at h
    · obtain ⟨J, _, rfl⟩ := Option.map_eq_some_iff.1 h
      simp +contextual [Write.jobs]
    · cases h
  | renameTask src dst =>
    simp only [Write.apply] at h
    split at h
    · obtain ⟨T, _, rfl⟩ := Option.map_eq_some_iff.1 h
      simp +contextual [Write.tasks]
    · cases h
  | removeJob j =>
    obtain ⟨J, _, rfl⟩ := Option.map_eq_some_iff.1 h
    simp +contextual [Write.jobs]
  | removeTask t =>
    obtain ⟨T, _, rfl⟩ := Option.map_eq_some_iff.1 h
    simp +contextual [Write.tasks]

/-- The three kinds of advisory lock. -/
inductive LockName where
  | job (j : Entry)
  | task (t : Entry)
  | create
  deriving DecidableEq, Repr

/-- The holder of a lock, or `none` when its file cannot be opened. -/
def Files.lockState (f : Files) : LockName → Option (Option ℕ)
  | .job j => (f.job j).map (·.holder)
  | .task t => (f.task t).map (·.holder)
  | .create => some f.createLock

/-- Grant a lock, creating its file when it is missing. -/
def Files.grant (f : Files) (p : ℕ) : LockName → Files
  | .job j => f.setJob j ((f.job j).map fun J => { J with holder := some p, controlLock := true })
  | .task t => f.setTask t ((f.task t).map fun T => { T with holder := some p, controlLock := true })
  | .create => { f with createLock := some p }

def dropHolder (p : ℕ) (h : Option ℕ) : Option ℕ := if h = some p then none else h

/-- Close the descriptor that holds a lock. -/
def Files.free (f : Files) (p : ℕ) : LockName → Files
  | .job j => f.setJob j ((f.job j).map fun J => { J with holder := dropHolder p J.holder })
  | .task t => f.setTask t ((f.task t).map fun T => { T with holder := dropHolder p T.holder })
  | .create => { f with createLock := dropHolder p f.createLock }

/-- The kernel closes every descriptor of a process that ends. -/
def Files.freeAll (f : Files) (p : ℕ) : Files :=
  { f with
    job := fun j => (f.job j).map fun J => { J with holder := dropHolder p J.holder }
    task := fun t => (f.task t).map fun T => { T with holder := dropHolder p T.holder }
    createLock := dropHolder p f.createLock }

/-- Why no terminal notice could be prepared for a source job. -/
inductive NoticeError where
  | invalidId
  | notDirectory
  | invalidRoleOrTask
  | badStatus (text : String)
  | collision (notice : String)
  | creationFailed (detail : String)
  deriving DecidableEq, Repr

/-- What the scripts print that a caller reads, and the start of `rm -rf` on a staging directory. -/
inductive Output where
  | claimed (job : String)
  | noJobs
  | jobError (job : String) (message : String)
  | noticeError (job : String) (e : NoticeError)
  | removingTask (t : Entry) (token : String)
  | removingJob (j : Entry) (token : String)
  | line (text : String)
  deriving DecidableEq, Repr

/-- What may happen to a child process before its next operation. -/
inductive ChildFate where
  | alive
  | killed
  | timedOut
  deriving DecidableEq, Repr

/-- What the surroundings answer: whether a signal is caught now, the age in minutes of a job's
`lock/`, a directory listing, whether the runtime-lock descriptor is inherited, `$$` and the clock
of a new transaction, the order in which `rm -rf` visits a directory, the fate of a child. -/
inductive Query where
  | signal
  | age (job : String)
  | listing
  | runtimeLock
  | stamp
  | taskOrder
  | jobOrder
  | child
  deriving DecidableEq, Repr

@[reducible] def Query.Reply : Query → Type
  | .signal => Bool
  | .age _ => Option ℤ
  | .listing => List String
  | .runtimeLock => Bool
  | .stamp => ℕ × ℕ
  | .taskOrder => List TaskFile
  | .jobOrder => List JobFile
  | .child => ChildFate

/-- The operations of the scripts. `get` reads one file, or tests one. -/
inductive Op : Type → Type 1 where
  | get {β : Type} (f : Files → β) : Op β
  | write (w : Write) : Op Bool
  | lock (l : LockName) : Op Bool
  | unlock (l : LockName) : Op Unit
  | ask (q : Query) : Op q.Reply
  | say (o : Output) : Op Unit

inductive Event where
  | wrote (w : Write)
  | locked (l : LockName)
  | said (o : Output)
  deriving DecidableEq, Repr

/-- The queue and everything written, locked and printed so far, the newest first. -/
structure State where
  files : Files
  trace : List (ℕ × Event) := []

def State.record (s : State) (p : ℕ) (e : Event) (f : Files) : State :=
  ⟨f, (p, e) :: s.trace⟩

@[simp] theorem State.record_files (s : State) (p : ℕ) (e : Event) (f : Files) :
    (s.record p e f).files = f := rfl

@[simp] theorem State.record_trace (s : State) (p : ℕ) (e : Event) (f : Files) :
    (s.record p e f).trace = (p, e) :: s.trace := rfl

/-- `exec p e s r s'`: process `p` performs `e` in `s`, gets the answer `r` and leaves `s'`.
A lock that is held blocks: there is no such step until it is free. -/
def exec (p : ℕ) {β : Type} : Op β → State → β → State → Prop
  | .get f, s, r, s' => r = f s.files ∧ s' = s
  | .write w, s, r, s' =>
    match w.apply s.files with
    | some f => r = true ∧ s' = s.record p (.wrote w) f
    | none => r = false ∧ s' = s
  | .lock l, s, r, s' =>
    match s.files.lockState l with
    | none => r = false ∧ s' = s
    | some none => r = true ∧ s' = s.record p (.locked l) (s.files.grant p l)
    | some (some _) => False
  | .unlock l, s, _, s' => s' = ⟨s.files.free p l, s.trace⟩
  | .ask _, s, _, s' => s' = s
  | .say o, s, _, s' => s' = s.record p (.said o) s.files

def queueKernel : Kernel Op State where
  exec := exec
  quit p s := ⟨s.files.freeAll p, s.trace⟩

abbrev Script := Prog Op

def get {β : Type} (f : Files → β) : Script β := .perform (.get f)
def write (w : Write) : Script Bool := .perform (.write w)
def lock (l : LockName) : Script Bool := .perform (.lock l)
def unlock (l : LockName) : Script Unit := .perform (.unlock l)
def ask (q : Query) : Script q.Reply := .perform (.ask q)
def say (o : Output) : Script Unit := .perform (.say o)

/-- `die`: the message goes to standard error and the script ends. -/
def die {α : Type} (message : String) : Script α := .exit 1 ("error: " ++ message)

/-- `[ flag -eq 0 ] || command`. -/
def ifSet (flag : Bool) (x : Script Unit) : Script Unit := if flag then x else pure ()

/-- `test || die message`. -/
def require (test : Bool) (message : String) : Script Unit := if test then pure () else die message

end Cyclo.AgentWs
