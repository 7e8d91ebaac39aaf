import Cyclo.AgentWs.Sequential
import Cyclo.AgentWs.Replay

/-! What interrupted executions of `task-create` leave of one task, and what a later execution makes
of it. -/
namespace Cyclo.AgentWs
open Cyclo.Process

/-- One execution of `task-create` for the task, up to any of its points: it ends there, by itself or
killed. -/
def Execution (task : String) (s t : State) : Prop :=
  ∃ p specFile spec y u, Reaches queueKernel p (taskCreate task specFile spec) s y u ∧
    t = queueKernel.quit p u

/-- No signal is caught. -/
def uninterrupted : (q : Query) → q.Reply → Prop
  | .signal, caught => caught = false
  | _, _ => True

/-- The task and its planner job are published and complete. -/
def Complete (task : String) (f : Files) : Prop :=
  ∃ T token, f.task (.named task) = some T ∧ T.creating = none ∧
    T.spec.any (· ≠ "") = true ∧ T.log.isSome = true ∧ T.state = some "open" ∧
    f.plannerJobIsComplete task (.named (planJobId task)) token = true

/-- Whoever runs `task-create` uninterrupted has the pair complete afterwards. -/
def Recovers (task : String) (s : State) : Prop :=
  ∀ p specFile spec, spec ≠ "" →
    (∃ out t, Runs (answering uninterrupted) p (taskCreate task specFile spec) s out t) ∧
    ∀ out t, Runs (answering uninterrupted) p (taskCreate task specFile spec) s out t →
      Complete task t.files

/-- The tests of the script on leftovers: the task is published, nothing of it exists, or its stage is
complete and, if the planner job has one, that is staged with the same token. -/
def Files.recoverable (f : Files) (task : String) : Bool :=
  let transaction := f.catTask (taskStage task) (·.creating)
  (f.task (.named task)).isSome ||
    ((f.task (taskStage task)).isNone && (f.job (planJobStage task)).isNone) ||
    (transaction ≠ "" && f.taskIsComplete (taskStage task) transaction true &&
      ((f.job (planJobStage task)).isNone ||
        f.plannerJobIsStaged task (planJobStage task) transaction))

/-- The directories of one task and the creation lock. -/
structure Shape (task : String) (f : Files) (lock : Option ℕ) (finalTask : Option Task)
    (finalJob : Option Job) (stagedTask : Option Task) (stagedJob : Option Job) : Prop where
  lock : f.createLock = lock
  finalTask : f.task (.named task) = finalTask
  finalJob : f.job (.named (planJobId task)) = finalJob
  stagedTask : f.task (taskStage task) = stagedTask
  stagedJob : f.job (planJobStage task) = stagedJob

namespace Shape
variable {task : String} {f : Files} {lock : Option ℕ} {T : Option Task} {J : Option Job}
  {S : Option Task} {P : Option Job} (h : Shape task f lock T J S P)
include h

theorem setFinalTask (T' : Option Task) : Shape task (f.setTask (.named task) T') lock T' J S P :=
  ⟨h.lock, by simp, h.finalJob, by simp [taskStage, ← h.stagedTask], h.stagedJob⟩

theorem setFinalJob (J' : Option Job) :
    Shape task (f.setJob (.named (planJobId task)) J') lock T J' S P :=
  ⟨h.lock, h.finalTask, by simp, h.stagedTask, by simp [planJobStage, ← h.stagedJob]⟩

theorem setStagedTask (S' : Option Task) : Shape task (f.setTask (taskStage task) S') lock T J S' P :=
  ⟨h.lock, by simp [taskStage, ← h.finalTask], h.finalJob, by simp, h.stagedJob⟩

theorem setStagedJob (P' : Option Job) :
    Shape task (f.setJob (planJobStage task) P') lock T J S P' :=
  ⟨h.lock, h.finalTask, by simp [planJobStage, ← h.finalJob], h.stagedTask, by simp⟩

theorem grantCreate (p : ℕ) : Shape task (f.grant p .create) (some p) T J S P :=
  ⟨rfl, h.finalTask, h.finalJob, h.stagedTask, h.stagedJob⟩

theorem freeCreate (p : ℕ) : Shape task (f.free p .create) (dropHolder p lock) T J S P :=
  ⟨by rw [← h.lock]; rfl, h.finalTask, h.finalJob, h.stagedTask, h.stagedJob⟩

end Shape

/-- The files of a complete task, its marker aside. -/
structure Task.Filled (T : Task) : Prop where
  spec : T.spec.any (· ≠ "") = true
  log : T.log.isSome = true
  isOpen : T.state = some "open"

theorem Task.creating_eq {T T' : Task} (h : T'.data = T.data) : T'.creating = T.creating := by
  change T'.data.creating = T.data.creating
  rw [h]

theorem Task.Filled.of_eq {T T' : Task} (h : T.Filled) (he : T'.data = T.data) : T'.Filled := by
  have hdata : T.data.Filled := ⟨h.spec, h.log, h.isOpen⟩
  rw [← he] at hdata
  exact ⟨hdata.spec, hdata.log, hdata.isOpen⟩

/-- A complete planner job of the task, its status aside. -/
structure Job.PlanBase (J : Job) (task token : String) : Prop where
  transaction : J.transaction = some token
  workspace : J.workspace = true
  spec : J.spec.any (· ≠ "") = true
  role : J.role = some "planner"
  taskId : J.taskId = some task
  log : J.log.isSome = true
  controlLock : J.controlLock = true

/-- The layouts `task-create` leaves; `H` holds of the holders of the directories. -/
inductive Layout (task : String) (H : Option ℕ → Prop) :
    Option Task → Option Job → Option Task → Option Job → Prop
  | staging {S : Option Task} {P : Option Job} : (∀ T, S = some T → H T.holder) →
      (∀ J, P = some J → H J.holder) → Layout task H none none S P
  | half {T : Task} {P : Job} {token : String} : token ≠ "" → T.Filled → T.creating = some token →
      P.PlanBase task token → P.status = none ∨ P.status = some .pending → H T.holder → H P.holder →
      Layout task H (some T) none none (some P)
  | full {T : Task} {J : Job} {token : String} : token ≠ "" → T.Filled →
      T.creating = some token ∨ T.creating = none → J.PlanBase task token →
      J.status = some .pending → H T.holder → H J.holder → Layout task H (some T) (some J) none none

/-- The process holds the lock or nobody does. -/
def Mine (p : ℕ) (h : Option ℕ) : Prop := h = none ∨ h = some p

/-- A state in which an execution of `p` may stop. -/
def Stoppable (task : String) (p : ℕ) (u : State) : Prop :=
  ∃ lock T J S P, Shape task u.files lock T J S P ∧ Mine p lock ∧ Layout task (Mine p) T J S P

/-- A state between two executions. -/
def Resting (task : String) (u : State) : Prop :=
  ∃ T J S P, Shape task u.files none T J S P ∧ Layout task (· = none) T J S P

theorem Layout.mono {task : String} {H H' : Option ℕ → Prop} (hH : ∀ h, H h → H' h) {T : Option Task}
    {J : Option Job} {S : Option Task} {P : Option Job} (h : Layout task H T J S P) :
    Layout task H' T J S P := by
  cases h with
  | staging hS hP => exact .staging (fun T hT => hH _ (hS T hT)) (fun J hJ => hH _ (hP J hJ))
  | half htok hF hc hB hst hT hP => exact .half htok hF hc hB hst (hH _ hT) (hH _ hP)
  | full htok hF hc hB hst hT hP => exact .full htok hF hc hB hst (hH _ hT) (hH _ hP)

section
variable {task token : String} {f : Files}

theorem taskIsComplete_of {t : Entry} {T : Task} (hT : f.task t = some T) (hF : T.Filled)
    (hc : T.creating = some token) (mustBeOpen : Bool) :
    f.taskIsComplete t token mustBeOpen = true := by
  unfold Files.taskIsComplete
  rw [hT, Option.any_some, hc, hF.spec, hF.log, hF.isOpen]
  cases mustBeOpen with
  | false => simp
  | true => simp

theorem taskIsComplete_open {t : Entry} (h : f.taskIsComplete t token true = true) :
    ∃ T, f.task t = some T ∧ T.Filled ∧ T.creating = some token := by
  unfold Files.taskIsComplete at h
  cases hT : f.task t with
  | none =>
    rw [hT] at h
    cases h
  | some T =>
    rw [hT, Option.any_some] at h
    simp only [Bool.and_eq_true, decide_eq_true_eq, if_true] at h
    obtain ⟨⟨⟨hc, hspec⟩, hlog⟩, hopen⟩ := h
    exact ⟨T, rfl, ⟨hspec, hlog, hopen⟩, hc⟩

theorem completeBase_iff {j : Entry} : f.plannerJobHasCompleteBase task j token = true ↔
    ∃ J, f.job j = some J ∧ J.PlanBase task token := by
  unfold Files.plannerJobHasCompleteBase
  cases hJ : f.job j with
  | none => simp
  | some J =>
    simp only [Option.any_some, Bool.and_eq_true, decide_eq_true_eq, Option.some.injEq]
    constructor
    · rintro ⟨⟨⟨⟨⟨⟨h₁, h₂⟩, h₃⟩, h₄⟩, h₅⟩, h₆⟩, h₇⟩
      exact ⟨J, rfl, ⟨h₁, h₂, h₃, h₄, h₅, h₆, h₇⟩⟩
    · rintro ⟨J', rfl, h⟩
      exact ⟨⟨⟨⟨⟨⟨h.transaction, h.workspace⟩, h.spec⟩, h.role⟩, h.taskId⟩, h.log⟩, h.controlLock⟩

theorem completeBase_of {j : Entry} {J : Job} (hJ : f.job j = some J) (hB : J.PlanBase task token) :
    f.plannerJobHasCompleteBase task j token = true := completeBase_iff.2 ⟨J, hJ, hB⟩

theorem isComplete_of {j : Entry} {J : Job} (hJ : f.job j = some J) (hB : J.PlanBase task token)
    (hst : J.status = some .pending) : f.plannerJobIsComplete task j token = true := by
  unfold Files.plannerJobIsComplete
  rw [completeBase_of hJ hB, Files.jobFile, hJ, Option.bind_some, hst]
  rfl

theorem isStaged_iff {j : Entry} : f.plannerJobIsStaged task j token = true ↔
    ∃ J, f.job j = some J ∧ J.PlanBase task token ∧
      (J.status = none ∨ J.status = some .pending) := by
  unfold Files.plannerJobIsStaged
  rw [Bool.and_eq_true, completeBase_iff]
  constructor
  · rintro ⟨⟨J, hJ, hB⟩, hst⟩
    refine ⟨J, hJ, hB, ?_⟩
    rw [Files.jobFile, hJ, Option.bind_some] at hst
    cases h : J.status with
    | none => exact Or.inl rfl
    | some st =>
      rw [h] at hst
      exact Or.inr (congrArg some (of_decide_eq_true hst))
  · rintro ⟨J, hJ, hB, hst⟩
    refine ⟨⟨J, hJ, hB⟩, ?_⟩
    rw [Files.jobFile, hJ, Option.bind_some]
    rcases hst with h | h
    · rw [h]
    · rw [h]
      rfl

end

/-- The operations of the exit trap: they read, remove parts of the stages, and free the creation
lock. -/
def Op.Cleans (task : String) {β : Type} : Op β → Prop
  | .get _ | .ask _ | .say _ => True
  | .unlock l => l = .create
  | .lock _ => False
  | .write w => (∃ file, w = .unlinkTask (taskStage task) file) ∨ w = .removeTask (taskStage task) ∨
      (∃ file, w = .unlinkJob (planJobStage task) file) ∨ w = .removeJob (planJobStage task)

/-- Nothing of the task is published; its stages are in any state. -/
def Staging (task : String) (p : ℕ) (u : State) : Prop :=
  ∃ lock S P, Shape task u.files lock none none S P ∧ Mine p lock ∧
    (∀ T, S = some T → Mine p T.holder) ∧ ∀ J, P = some J → Mine p J.holder

theorem Staging.stoppable {task : String} {p : ℕ} {u : State} (h : Staging task p u) :
    Stoppable task p u := by
  obtain ⟨lock, S, P, hs, hl, hS, hP⟩ := h
  exact ⟨lock, none, none, S, P, hs, hl, .staging hS hP⟩

theorem mine_drop {p : ℕ} {h : Option ℕ} (hm : Mine p h) : dropHolder p h = none := by
  rcases hm with rfl | rfl
  · rfl
  · simp [dropHolder]

theorem Op.Cleans.staging {A : (q : Query) → q.Reply → Prop} {task : String} {p : ℕ} {β : Type}
    (e : Op β) (t : State) (r : β) (u : State) (he : e.Cleans task) (h : Staging task p t)
    (hx : (answering A).exec p e t r u) : Staging task p u := by
  have hx := hx.1
  cases e with
  | get f =>
    obtain ⟨-, rfl⟩ := hx
    exact h
  | ask q =>
    obtain rfl : u = t := hx
    exact h
  | say o =>
    obtain rfl : u = _ := hx
    exact h
  | lock l => exact he.elim
  | unlock l =>
    obtain rfl : l = .create := he
    obtain rfl : u = _ := hx
    obtain ⟨lock, S, P, hs, hl, hS, hP⟩ := h
    exact ⟨_, S, P, hs.freeCreate p, Or.inl (mine_drop hl), hS, hP⟩
  | write w =>
    simp only [exec] at hx
    split at hx
    swap
    · obtain ⟨-, rfl⟩ := hx
      exact h
    rename_i f hf
    obtain ⟨-, rfl⟩ := hx
    obtain ⟨lock, S, P, hs, hl, hS, hP⟩ := h
    obtain ⟨file, rfl⟩ | rfl | ⟨file, rfl⟩ | rfl := he
    · obtain ⟨T, T', hT, hT', rfl⟩ := Files.onTask_eq_some.1 hf
      cases hT'
      refine ⟨lock, _, P, hs.setStagedTask _, hl, ?_, hP⟩
      intro T' heq
      cases heq
      have hm := hS T (hs.stagedTask.symm.trans hT)
      cases file <;> exact hm
    · obtain ⟨T, hT, rfl⟩ := Option.map_eq_some_iff.1 hf
      exact ⟨lock, none, P, hs.setStagedTask none, hl, fun T h => absurd h (by simp), hP⟩
    · obtain ⟨J, J', hJ, hJ', rfl⟩ := Files.onJob_eq_some.1 hf
      cases hJ'
      refine ⟨lock, S, _, hs.setStagedJob _, hl, hS, ?_⟩
      intro J' heq
      cases heq
      have hm := hP J (hs.stagedJob.symm.trans hJ)
      cases file <;> exact hm
    · obtain ⟨J, hJ, rfl⟩ := Option.map_eq_some_iff.1 hf
      exact ⟨lock, S, none, hs.setStagedJob none, hl, hS, fun J h => absurd h (by simp)⟩

section
variable {task : String}

theorem unlinkTaskFiles_cleans (files : List TaskFile) :
    (unlinkTaskFiles (taskStage task) files).All (Op.Cleans task) := by
  induction files with
  | nil => trivial
  | cons file rest ih => exact ⟨Or.inl ⟨file, rfl⟩, fun _ => ih⟩

theorem unlinkJobFiles_cleans (files : List JobFile) :
    (unlinkJobFiles (planJobStage task) files).All (Op.Cleans task) := by
  induction files with
  | nil => trivial
  | cons file rest ih => exact ⟨Or.inr (Or.inr (Or.inl ⟨file, rfl⟩)), fun _ => ih⟩

theorem removeOwnedTaskStage_cleans (transaction : String) :
    (removeOwnedTaskStage task transaction).All (Op.Cleans task) := by
  unfold removeOwnedTaskStage
  split
  · trivial
  refine ⟨trivial, fun mine => ?_⟩
  cases mine with
  | false => trivial
  | true =>
    refine ⟨trivial, fun _ => ⟨trivial, fun order => ?_⟩⟩
    exact (unlinkTaskFiles_cleans _).bind fun _ => ⟨Or.inr (Or.inl rfl), fun _ => trivial⟩

theorem removeOwnedPlanStage_cleans (transaction : String) :
    (removeOwnedPlanStage task transaction).All (Op.Cleans task) := by
  unfold removeOwnedPlanStage
  split
  · trivial
  refine ⟨trivial, fun mine => ?_⟩
  cases mine with
  | false => trivial
  | true =>
    refine ⟨trivial, fun _ => ⟨trivial, fun order => ?_⟩⟩
    exact (unlinkJobFiles_cleans _).bind fun _ => ⟨Or.inr (Or.inr (Or.inr rfl)), fun _ => trivial⟩

theorem cleanup_cleans (v : Vars) : (cleanup task v).All (Op.Cleans task) := by
  unfold cleanup
  refine Prog.All.bind ?_ fun _ => Prog.All.bind ?_ fun _ => ⟨rfl, fun _ => trivial⟩
  · cases v.ownTaskStage with
    | false => trivial
    | true => exact removeOwnedTaskStage_cleans _
  · cases v.ownPlanStage with
    | false => trivial
    | true => exact removeOwnedPlanStage_cleans _

/-- What an execution asks of its surroundings: under `T` it is never interrupted. -/
structure Calm (A : (q : Query) → q.Reply → Prop) (T : Prop) : Prop where
  quiet : T → ∀ caught, A .signal caught → caught = false
  answers : T → ∀ q, ∃ r, A q r

variable {A : (q : Query) → q.Reply → Prop} {T : Prop} {p : ℕ} {u : State}

/-- The point where a signal may be caught: either the script goes on, or its exit trap runs. -/
theorem signalPoint_along {R X : State → Prop} {v : Vars} (calm : Calm A T) (hR : R u)
    (hX : ¬ T → ∀ t, X t)
    (trap : Along (answering A) p False R (fun _ => True) (cleanup task v) (fun _ _ => True) u) :
    Along (answering A) p T R X (signalPoint task v) (fun _ t => t = u) u := by
  unfold signalPoint
  refine along_ask hR (fun hT => calm.answers hT .signal) fun caught hcaught => ?_
  cases caught with
  | false => exact along_pure hR rfl
  | true =>
    have hT : ¬ T := fun hT => absurd (calm.quiet hT true hcaught) (by simp)
    refine Along.relax (T := False) hT (Along.bind (trap.weaken (fun _ h => h) ?_ ?_))
    · exact fun t _ _ => hX hT t
    · exact fun _ t ht _ => ⟨ht, hX hT t⟩

theorem cleanup_staging {v : Vars} (h : Staging task p u) :
    Along (answering A) p False (Stoppable task p) (fun _ => True) (cleanup task v)
      (fun _ _ => True) u :=
  ((cleanup_cleans v).along (K := answering A) (p := p) Op.Cleans.staging h).weaken
    (fun _ h => h.stoppable) (fun _ _ _ => trivial) (fun _ _ _ _ => trivial)

/-- Before it owns a stage, the exit trap only frees the creation lock. -/
theorem cleanup_unowned {R : State → Prop} {transaction : String} (hR : R u)
    (freed : R ⟨u.files.free p .create, u.trace⟩) :
    Along (answering A) p False R (fun _ => True) (cleanup task { transactionId := transaction })
      (fun _ _ => True) u := by
  refine ⟨hR, False.elim, ?_⟩
  rintro _ _ ⟨rfl, -⟩
  exact ⟨freed, trivial⟩

theorem Stoppable.freeCreate (h : Stoppable task p u) :
    Stoppable task p ⟨u.files.free p .create, u.trace⟩ := by
  obtain ⟨lock, T, J, S, P, hs, hl, hlay⟩ := h
  exact ⟨_, T, J, S, P, hs.freeCreate p, Or.inl (mine_drop hl), hlay⟩

/-- `finish_commit` once the planner job is pending. -/
def exposePlan (task transaction : String) (publishJob : Bool) : Script Unit := do
  require (← get (·.plannerJobIsComplete task (commitJob task publishJob) transaction))
    s!"published initial planner job '{planJobId task}' is incomplete"
  ifSet publishJob (publishPlanStage task)
  require (← get (·.plannerJobIsComplete task (.named (planJobId task)) transaction))
    s!"published initial planner job '{planJobId task}' is incomplete"
  require (← write (.removeCreating (.named task))) s!"cannot finalize task '{task}' creation"
  releaseJobControlLock (.named (planJobId task))

/-- `finish_commit` once the task is published. -/
def commitPlan (task transaction : String) (publishJob : Bool) : Script Unit := do
  let j := commitJob task publishJob
  require (← get (·.taskIsComplete (.named task) transaction false))
    s!"published task '{task}' is incomplete"
  require (← get (·.plannerJobHasCompleteBase task j transaction))
    s!"published initial planner job '{planJobId task}' is incomplete"
  acquireTaskControlLock (.named task)
  releaseTaskControlLock (.named task)
  let fresh ← get fun f => (f.jobFile j (·.status)).isNone
  ifSet fresh (writeStatus j .pending)
  exposePlan task transaction publishJob

theorem finishCommit_eq (task transaction : String) (publishTask publishJob : Bool) :
    finishCommit task transaction publishTask publishJob = (do
      acquireJobControlLock (commitJob task publishJob)
      ifSet publishTask (publishTaskStage task)
      commitPlan task transaction publishJob) := rfl

/-- Taking and releasing the control lock of the published task changes only the lock. -/
theorem taskLock_along {α : Type} {R X : State → Prop} {Q : α → State → Prop} {x : Script α}
    {W : Task} {lock : Option ℕ} {J : Option Job} {S : Option Task} {P : Option Job}
    (h : Shape task u.files lock (some W) J S P) (hfree : W.holder = none)
    (hR : ∀ t W', Shape task t.files lock (some W') J S P → W'.data = W.data →
      Mine p W'.holder → R t)
    (next : ∀ t W', Shape task t.files lock (some W') J S P → W'.data = W.data →
      W'.holder = none → Along (answering A) p T R X x Q t) :
    Along (answering A) p T R X
      (do acquireTaskControlLock (.named task); releaseTaskControlLock (.named task); x) Q u := by
  have hu := hR u W h rfl (Or.inl hfree)
  unfold acquireTaskControlLock
  simp only [Prog.bind_assoc]
  refine along_get hu (along_pass (by rw [h.finalTask]; rfl) ?_)
  refine along_lock hu ?_ ?_ ?_
  · intro _ q
    simp [Files.lockState, h.finalTask, hfree]
  · intro _
    generalize hv : u.record p (.locked (.task (.named task)))
      (u.files.grant p (.task (.named task))) = v
    have granted : Shape task v.files lock (some { W with holder := some p, controlLock := true })
      J S P := by
      rw [← hv]
      have hset := h.setFinalTask (some { W with holder := some p, controlLock := true })
      simpa only [State.record_files, Files.grant, h.finalTask, Option.map_some] using hset
    have hR' := hR v _ granted rfl (Or.inr rfl)
    refine along_pass rfl (along_get hR' (along_pass (by rw [granted.finalTask]; rfl) ?_))
    refine along_get hR' (along_pass (by rw [granted.finalTask]; rfl) (along_unlock hR' ?_))
    refine next _ { W with holder := none, controlLock := true } ?_ rfl rfl
    have hset := granted.setFinalTask (some { W with holder := none, controlLock := true })
    simpa only [Files.free, granted.finalTask, Option.map_some, dropHolder, if_true] using hset
  · intro hl
    simp [Files.lockState, h.finalTask] at hl

section
variable {X : State → Prop} {W : Task} {token : String} (htok : token ≠ "") (hW : W.Filled)
include htok hW

theorem stoppable_half {t : State} {B : Job} {W' : Task}
    (ht : Shape task t.files (some p) (some W') none none (some B)) (hdata : W'.data = W.data)
    (hc : W.creating = some token) (hB : B.PlanBase task token)
    (hst : B.status = none ∨ B.status = some .pending) (hw : Mine p W'.holder) (hb : Mine p B.holder) :
    Stoppable task p t :=
  ⟨_, _, _, _, _, ht, Or.inr rfl, .half htok (hW.of_eq hdata)
    ((Task.creating_eq hdata).trans hc) hB hst hw hb⟩

/-- Once the planner job is published and pending, the creation is finished. -/
theorem finishCreation_along {B : Job} (h : Shape task u.files (some p) (some W) (some B) none none)
    (hc : W.creating = some token ∨ W.creating = none) (hm : Mine p W.holder)
    (hB : B.PlanBase task token) (hst : B.status = some .pending) (hheld : B.holder = some p) :
    Along (answering A) p T (Stoppable task p) X (do
      require (← get (·.plannerJobIsComplete task (.named (planJobId task)) token))
        s!"published initial planner job '{planJobId task}' is incomplete"
      require (← write (.removeCreating (.named task))) s!"cannot finalize task '{task}' creation"
      releaseJobControlLock (.named (planJobId task)))
      (fun _ t => Complete task t.files ∧ Stoppable task p t) u := by
  have hu : Stoppable task p u :=
    ⟨_, _, _, _, _, h, Or.inr rfl, .full htok hW hc hB hst hm (Or.inr hheld)⟩
  refine along_get hu (along_pass (isComplete_of h.finalJob hB hst) ?_)
  have removed : (Write.removeCreating (.named task)).apply u.files =
      some (u.files.setTask (.named task) (some { W with creating := none })) := by
    simp [Write.apply, Files.onTask, h.finalTask]
  refine along_wrote removed hu (along_pass rfl ?_)
  generalize hv : u.record p (.wrote (.removeCreating (.named task)))
    (u.files.setTask (.named task) (some { W with creating := none })) = v
  have shaped : Shape task v.files (some p) (some { W with creating := none }) (some B) none none := by
    rw [← hv]
    exact h.setFinalTask _
  have filled : ({ W with creating := none } : Task).Filled := ⟨hW.spec, hW.log, hW.isOpen⟩
  have hv' : Stoppable task p v :=
    ⟨_, _, _, _, _, shaped, Or.inr rfl, .full htok filled (Or.inr rfl) hB hst hm (Or.inr hheld)⟩
  have freed : Shape task (v.files.setJob (.named (planJobId task))
      (some { B with holder := dropHolder p B.holder })) (some p) (some { W with creating := none })
      (some { B with holder := dropHolder p B.holder }) none none := shaped.setFinalJob _
  have base : ({ B with holder := dropHolder p B.holder } : Job).PlanBase task token :=
    ⟨hB.transaction, hB.workspace, hB.spec, hB.role, hB.taskId, hB.log, hB.controlLock⟩
  refine along_release (f := pure) shaped.finalJob hv' (along_pure ?_ ⟨?_, ?_⟩)
  · exact ⟨_, _, _, _, _, freed, Or.inr rfl, .full htok filled (Or.inr rfl) base hst hm
      (Or.inl (mine_drop (Or.inr hheld)))⟩
  · exact ⟨_, token, freed.finalTask, rfl, hW.spec, hW.log, hW.isOpen,
      isComplete_of freed.finalJob base hst⟩
  · exact ⟨_, _, _, _, _, freed, Or.inr rfl, .full htok filled (Or.inr rfl) base hst hm
      (Or.inl (mine_drop (Or.inr hheld)))⟩

/-- The pending planner job is published from its stage. -/
theorem exposePlan_half {B : Job} (h : Shape task u.files (some p) (some W) none none (some B))
    (hc : W.creating = some token) (hfree : W.holder = none) (hB : B.PlanBase task token)
    (hst : B.status = some .pending) (hheld : B.holder = some p) :
    Along (answering A) p T (Stoppable task p) X (exposePlan task token true)
      (fun _ t => Complete task t.files ∧ Stoppable task p t) u := by
  have hu := stoppable_half htok hW h rfl hc hB (Or.inr hst) (Or.inl hfree) (Or.inr hheld)
  unfold exposePlan
  refine along_get hu (along_pass (isComplete_of h.stagedJob hB hst) ?_)
  have renamed : (Write.renameJob (planJobStage task) (.named (planJobId task))).apply u.files =
      some ((u.files.setJob (.named (planJobId task)) (some B)).setJob (planJobStage task) none) := by
    simp only [Write.apply, h.finalJob, h.stagedJob, if_true, Option.map_some]
  refine along_wrote renamed hu (along_pass rfl ?_)
  refine finishCreation_along htok hW ?_ (Or.inl hc) (Or.inl hfree) hB hst hheld
  exact (h.setFinalJob (some B)).setStagedJob none

/-- The commit from a published task and a staged planner job, whose lock is held. -/
theorem commitPlan_half {B : Job} (h : Shape task u.files (some p) (some W) none none (some B))
    (hc : W.creating = some token) (hfree : W.holder = none) (hB : B.PlanBase task token)
    (hst : B.status = none ∨ B.status = some .pending) (hheld : B.holder = some p) :
    Along (answering A) p T (Stoppable task p) X (commitPlan task token true)
      (fun _ t => Complete task t.files ∧ Stoppable task p t) u := by
  have hu := stoppable_half htok hW h rfl hc hB hst (Or.inl hfree) (Or.inr hheld)
  unfold commitPlan
  refine along_get hu (along_pass (taskIsComplete_of h.finalTask hW hc false) ?_)
  refine along_get hu (along_pass (completeBase_of h.stagedJob hB) ?_)
  refine taskLock_along h hfree
    (fun t W' ht hdata hm => stoppable_half htok hW ht hdata hc hB hst hm (Or.inr hheld)) ?_
  intro t W' ht hdata hfree'
  have hW' := hW.of_eq hdata
  have hc' := (Task.creating_eq hdata).trans hc
  have ht' := stoppable_half htok hW ht hdata hc hB hst (Or.inl hfree') (Or.inr hheld)
  refine along_get ht' ?_
  have hstatus : (t.files.jobFile (commitJob task true) (·.status)).isNone = B.status.isNone := by
    rw [Files.jobFile, show commitJob task true = planJobStage task from rfl, ht.stagedJob]
    rfl
  rw [hstatus]
  rcases hst with hst | hst
  · rw [hst]
    refine along_writeStatus (j := planJobStage task) ht.stagedJob ht' ?_
    have shaped := ht.setStagedJob (some { B with status := some .pending })
    have base : ({ B with status := some .pending } : Job).PlanBase task token :=
      ⟨hB.transaction, hB.workspace, hB.spec, hB.role, hB.taskId, hB.log, hB.controlLock⟩
    exact exposePlan_half htok hW' shaped hc' hfree' base rfl hheld
  · rw [hst]
    exact exposePlan_half htok hW' ht hc' hfree' hB hst hheld

/-- `finish_commit` of a published pair. -/
theorem finishCommit_full {B : Job} (h : Shape task u.files (some p) (some W) (some B) none none)
    (hc : W.creating = some token) (hfree : W.holder = none) (hB : B.PlanBase task token)
    (hst : B.status = some .pending) (hfreeB : B.holder = none) :
    Along (answering A) p T (Stoppable task p) X (finishCommit task token false false)
      (fun _ t => Complete task t.files ∧ Stoppable task p t) u := by
  have full : ∀ (t : State) (W' : Task) (B' : Job),
      Shape task t.files (some p) (some W') (some B') none none → W'.data = W.data →
      B'.PlanBase task token → B'.status = some .pending → Mine p W'.holder → Mine p B'.holder →
      Stoppable task p t := fun t W' B' ht hdata hB' hst' hw hb =>
    ⟨_, _, _, _, _, ht, Or.inr rfl, .full htok (hW.of_eq hdata)
      (Or.inl ((Task.creating_eq hdata).trans hc)) hB' hst' hw hb⟩
  rw [finishCommit_eq]
  refine along_acquire (j := .named (planJobId task)) h.finalJob
    (full u W B h rfl hB hst (Or.inl hfree) (Or.inl hfreeB)) (fun _ => hfreeB) fun _ => ?_
  generalize hv : u.locked p (.named (planJobId task)) B = v
  have shaped : Shape task v.files (some p) (some W)
      (some { B with holder := some p, controlLock := true }) none none := by
    rw [← hv]
    exact h.setFinalJob _
  have base : ({ B with holder := some p, controlLock := true } : Job).PlanBase task token :=
    ⟨hB.transaction, hB.workspace, hB.spec, hB.role, hB.taskId, hB.log, rfl⟩
  have hv' := full v W _ shaped rfl base hst (Or.inl hfree) (Or.inr rfl)
  unfold commitPlan
  refine along_get hv' (along_pass (taskIsComplete_of shaped.finalTask hW hc false) ?_)
  refine along_get hv' (along_pass (completeBase_of shaped.finalJob base) ?_)
  refine taskLock_along shaped hfree
    (fun t W' ht hdata hm => full t W' _ ht hdata base hst hm (Or.inr rfl)) ?_
  intro t W' ht hdata hfree'
  have ht' := full t W' _ ht hdata base hst (Or.inl hfree') (Or.inr rfl)
  refine along_get ht' ?_
  have hstatus : (t.files.jobFile (commitJob task false) (·.status)).isNone = false := by
    rw [Files.jobFile, show commitJob task false = .named (planJobId task) from rfl, ht.finalJob,
      Option.bind_some, hst]
    rfl
  rw [hstatus]
  unfold exposePlan
  refine along_get ht' (along_pass (isComplete_of ht.finalJob base hst) ?_)
  exact finishCreation_along htok (hW.of_eq hdata) ht (Or.inl ((Task.creating_eq hdata).trans hc))
    (Or.inl hfree') base hst rfl

/-- `finish_commit` of a published task with a staged planner job. -/
theorem finishCommit_half {B : Job} (h : Shape task u.files (some p) (some W) none none (some B))
    (hc : W.creating = some token) (hfree : W.holder = none) (hB : B.PlanBase task token)
    (hst : B.status = none ∨ B.status = some .pending) (hfreeB : B.holder = none) :
    Along (answering A) p T (Stoppable task p) X (finishCommit task token false true)
      (fun _ t => Complete task t.files ∧ Stoppable task p t) u := by
  have base : ({ B with holder := some p, controlLock := true } : Job).PlanBase task token :=
    ⟨hB.transaction, hB.workspace, hB.spec, hB.role, hB.taskId, hB.log, rfl⟩
  rw [finishCommit_eq]
  refine along_acquire (j := planJobStage task) h.stagedJob
    (stoppable_half htok hW h rfl hc hB hst (Or.inl hfree) (Or.inl hfreeB))
    (fun _ => hfreeB) fun _ => ?_
  have shaped := h.setStagedJob (some { B with holder := some p, controlLock := true })
  exact commitPlan_half htok hW shaped hc hfree base hst rfl

/-- `finish_commit` of a staged pair. -/
theorem finishCommit_staged {B : Job} (h : Shape task u.files (some p) none none (some W) (some B))
    (hc : W.creating = some token) (hfree : W.holder = none) (hB : B.PlanBase task token)
    (hst : B.status = none ∨ B.status = some .pending) (hfreeB : B.holder = none) :
    Along (answering A) p T (Stoppable task p) X (finishCommit task token true true)
      (fun _ t => Complete task t.files ∧ Stoppable task p t) u := by
  have base : ({ B with holder := some p, controlLock := true } : Job).PlanBase task token :=
    ⟨hB.transaction, hB.workspace, hB.spec, hB.role, hB.taskId, hB.log, rfl⟩
  have staging : ∀ (t : State) (B' : Job), Shape task t.files (some p) none none (some W) (some B') →
      Mine p B'.holder → Stoppable task p t := fun t B' ht hb =>
    ⟨_, _, _, _, _, ht, Or.inr rfl, .staging (by rintro _ ⟨⟩; exact Or.inl hfree)
      (by rintro _ ⟨⟩; exact hb)⟩
  rw [finishCommit_eq]
  refine along_acquire (j := planJobStage task) h.stagedJob (staging u B h (Or.inl hfreeB))
    (fun _ => hfreeB) fun _ => ?_
  generalize hv : u.locked p (planJobStage task) B = v
  have shaped : Shape task v.files (some p) none none (some W)
      (some { B with holder := some p, controlLock := true }) := by
    rw [← hv]
    exact h.setStagedJob _
  have renamed : (Write.renameTask (taskStage task) (.named task)).apply v.files =
      some ((v.files.setTask (.named task) (some W)).setTask (taskStage task) none) := by
    simp only [Write.apply, shaped.finalTask, shaped.stagedTask, if_true, Option.map_some]
  refine along_wrote renamed (staging v _ shaped (Or.inr rfl)) (along_pass rfl ?_)
  have published := (shaped.setFinalTask (some W)).setStagedTask none
  exact commitPlan_half htok hW published hc hfree base hst rfl

end

theorem planSpec_ne (task : String) : planSpec task ≠ "" := by
  intro h
  unfold planSpec at h
  have hlast := (String.append_eq_empty_iff.1 h).2
  exact absurd (String.append_eq_empty_iff.1 hlast).2 (by decide)

theorem newTransaction_ne (task : String) (stamp : ℕ × ℕ) : newTransaction task stamp ≠ "" := by
  simp [newTransaction, String.append_eq_empty_iff]

theorem taskBuild_filled (transaction : String) {spec : String} (h : spec ≠ "") :
    (taskBuild transaction spec).Filled :=
  ⟨by simpa [taskBuild] using h, rfl, rfl⟩

theorem planJobBuild_base (task transaction : String) :
    (planJobBuild task transaction).PlanBase task transaction :=
  ⟨rfl, rfl, by simpa [planJobBuild] using planSpec_ne task, rfl, rfl, rfl, rfl⟩

theorem requireOwned_true (v : Vars) (m : String) : requireOwned task v true m = pure () := rfl

/-- Where an execution may exit: when it was interrupted, or the pair is complete. -/
def Settled (task : String) (T : Prop) (t : State) : Prop := T → Complete task t.files

theorem Staging.of {lock : Option ℕ} {S : Option Task} {P : Option Job} (hl : Mine p lock)
    (h : Shape task u.files lock none none S P) (hS : ∀ W, S = some W → Mine p W.holder)
    (hP : ∀ B, P = some B → Mine p B.holder) : Staging task p u := ⟨lock, S, P, h, hl, hS, hP⟩

section
variable (calm : Calm A T)
include calm

theorem signalPoint_staging {v : Vars} (h : Staging task p u) :
    Along (answering A) p T (Stoppable task p) (Settled task T) (signalPoint task v)
      (fun _ t => t = u) u :=
  signalPoint_along calm h.stoppable (fun hT _ h => absurd h hT) (cleanup_staging h)

theorem signalPoint_unowned {transaction : String} (h : Stoppable task p u) :
    Along (answering A) p T (Stoppable task p) (Settled task T)
      (signalPoint task { transactionId := transaction }) (fun _ t => t = u) u :=
  signalPoint_along calm h (fun hT _ h => absurd h hT) (cleanup_unowned h h.freeCreate)

theorem createTaskStage_along {spec : String} {v : Vars}
    (h : Shape task u.files (some p) none none none none) :
    Along (answering A) p T (Stoppable task p) (Settled task T) (createTaskStage task spec v)
      (fun v' t => v'.transactionId = v.transactionId ∧
        Shape task t.files (some p) none none (some (taskBuild v.transactionId spec)) none) u := by
  have hu : Staging task p u := .of (Or.inr rfl) h (by simp) (by simp)
  unfold createTaskStage
  refine along_call (signalPoint_staging calm hu) ?_
  rintro _ _ _ rfl
  refine along_wrote (if_pos h.stagedTask) hu.stoppable ?_
  rw [requireOwned_true, Prog.pure_bind']
  have shaped := h.setStagedTask (some (taskBuild v.transactionId spec))
  refine along_call (signalPoint_staging calm (.of (Or.inr rfl) shaped ?_ ?_)) ?_
  · intro W hW
    cases hW
    exact Or.inl rfl
  · intro B hB
    cases hB
  · rintro _ _ ht rfl
    exact along_pure ht ⟨rfl, shaped⟩

theorem createPlannerJobStage_along {v : Vars} {W : Task} (hW : W.holder = none)
    (h : Shape task u.files (some p) none none (some W) none) :
    Along (answering A) p T (Stoppable task p) (Settled task T) (createPlannerJobStage task v)
      (fun v' t => v'.transactionId = v.transactionId ∧
        Shape task t.files (some p) none none (some W) (some (planJobBuild task v.transactionId)))
          u := by
  have mine : ∀ T', some W = some T' → Mine p T'.holder := by
    rintro _ ⟨⟩
    exact Or.inl hW
  have hu : Staging task p u := .of (Or.inr rfl) h mine (by simp)
  unfold createPlannerJobStage
  refine along_call (signalPoint_staging calm hu) ?_
  rintro _ _ _ rfl
  refine along_wrote (if_pos h.stagedJob) hu.stoppable ?_
  rw [requireOwned_true, Prog.pure_bind']
  have shaped := h.setStagedJob (some (planJobBuild task v.transactionId))
  refine along_call (signalPoint_staging calm (.of (Or.inr rfl) shaped mine ?_)) ?_
  · rintro _ ⟨⟩
    exact Or.inl rfl
  · rintro _ _ ht rfl
    exact along_pure ht ⟨rfl, shaped⟩

/-- A creation from nothing. -/
theorem createTask_along {spec : String} (hspec : spec ≠ "")
    (h : Shape task u.files (some p) none none none none) :
    Along (answering A) p T (Stoppable task p) (Settled task T) (createTask task spec)
      (fun _ t => Complete task t.files ∧ Stoppable task p t) u := by
  have hu : Staging task p u := .of (Or.inr rfl) h (by simp) (by simp)
  unfold createTask
  refine along_ask hu.stoppable (fun hT => calm.answers hT .stamp) fun stamp _ => ?_
  generalize htoken : newTransaction task stamp = token
  have htok : token ≠ "" := htoken ▸ newTransaction_ne task stamp
  refine along_call (createTaskStage_along calm h) ?_
  rintro v t _ ⟨hv, ht⟩
  dsimp only at hv ht
  have mine : ∀ T', some (taskBuild token spec) = some T' → Mine p T'.holder := by
    rintro _ ⟨⟩
    exact Or.inl rfl
  refine along_call (signalPoint_staging calm (.of (Or.inr rfl) ht mine (by simp))) ?_
  rintro _ _ _ rfl
  refine along_call (createPlannerJobStage_along calm rfl ht) ?_
  rintro v' t' _ ⟨hv', ht'⟩
  have htoken' : v'.transactionId = token := hv'.trans hv
  rw [hv] at ht'
  have staged : Staging task p t' := by
    refine .of (Or.inr rfl) ht' mine ?_
    rintro _ ⟨⟩
    exact Or.inl rfl
  refine along_call (signalPoint_staging calm staged) ?_
  rintro _ _ _ rfl
  rw [htoken']
  have filled := taskBuild_filled token hspec
  have base := planJobBuild_base task token
  have complete := taskIsComplete_of ht'.stagedTask filled rfl true
  have isStaged := isStaged_iff.2 ⟨_, ht'.stagedJob, base, Or.inl rfl⟩
  refine along_get staged.stoppable ?_
  rw [complete, requireOwned_true, Prog.pure_bind']
  refine along_get staged.stoppable ?_
  rw [isStaged, requireOwned_true, Prog.pure_bind']
  refine along_call (signalPoint_staging calm staged) ?_
  rintro _ _ _ rfl
  exact finishCommit_staged htok filled ht' rfl rfl base (Or.inl rfl) rfl

/-- An interrupted creation is finished, or nothing of the task exists. -/
theorem recoverInterruptedCommit_along {W : Option Task} {J : Option Job} {S : Option Task}
    {P : Option Job} (h : Shape task u.files (some p) W J S P) (hlay : Layout task (· = none) W J S P)
    (hrec : u.files.recoverable task = true) :
    Along (answering A) p T (Stoppable task p) (Settled task T) (recoverInterruptedCommit task)
      (fun r t => r = true ∧ Complete task t.files ∧ Stoppable task p t ∨
        r = false ∧ Shape task t.files (some p) none none none none) u := by
  have hu : Stoppable task p u :=
    ⟨_, _, _, _, _, h, Or.inr rfl, hlay.mono fun _ h => Or.inl h⟩
  have finished : ∀ t, Stoppable task p t → Complete task t.files ∧ Stoppable task p t →
      Along (answering A) p T (Stoppable task p) (Settled task T) (pure true : Script Bool)
        (fun r t => r = true ∧ Complete task t.files ∧ Stoppable task p t ∨
          r = false ∧ Shape task t.files (some p) none none none none) t :=
    fun t ht hc => along_pure ht (Or.inl ⟨rfl, hc⟩)
  unfold recoverInterruptedCommit
  refine along_get hu (along_get hu (along_get hu (along_get hu ?_)))
  refine along_call (signalPoint_unowned calm hu) ?_
  intro _ t _ ht
  rw [ht]
  rw [h.finalTask, h.finalJob, h.stagedTask, h.stagedJob]
  cases hlay with
  | @full W J token htok hF hc hB hst hW hJ =>
    simp only [Option.isSome_some, Option.isSome_none]
    refine along_get hu (along_get hu (along_get hu ?_))
    have hcat : u.files.catTask (.named task) (·.creating) = W.creating.getD "" := by
      simp [Files.catTask, Files.taskFile, h.finalTask]
    rw [hcat]
    rcases hc with hc | hc
    · rw [hc, Option.getD_some, taskIsComplete_of h.finalTask hF hc false]
      have recoverable : u.files.plannerJobIsRecoverable task (.named (planJobId task)) token =
          true := by
        unfold Files.plannerJobIsRecoverable
        rw [completeBase_of h.finalJob hB, isComplete_of h.finalJob hB hst,
          Bool.or_true, Bool.and_true]
      rw [recoverable]
      refine along_pass (by simpa using htok) (along_call (signalPoint_unowned calm hu) ?_)
      intro _ t _ ht
      rw [ht]
      refine along_call (finishCommit_full htok hF h hc hW hB hst hJ) ?_
      exact fun _ => finished
    · rw [hc]
      refine along_require hu (fun htest => ?_) (fun _ _ => ?_)
      · simp at htest
      · exact ⟨W, token, h.finalTask, hc, hF.spec, hF.log, hF.isOpen, isComplete_of h.finalJob hB hst⟩
  | @half W P token htok hF hc hB hst hW hP =>
    simp only [Option.isSome_some, Option.isSome_none]
    refine along_get hu (along_get hu (along_get hu ?_))
    have hcat : u.files.catTask (.named task) (·.creating) = token := by
      simp [Files.catTask, Files.taskFile, h.finalTask, hc]
    rw [hcat, taskIsComplete_of h.finalTask hF hc false, isStaged_iff.2 ⟨P, h.stagedJob, hB, hst⟩]
    refine along_pass (by simpa using htok) (along_call (signalPoint_unowned calm hu) ?_)
    intro _ t _ ht
    rw [ht]
    refine along_call (finishCommit_half htok hF h hc hW hB hst hP) ?_
    exact fun _ => finished
  | staging hS hP =>
    unfold Files.recoverable at hrec
    rw [h.finalTask, h.stagedTask, h.stagedJob] at hrec
    cases hSt : S with
    | none =>
      subst hSt
      cases hPt : P with
      | none =>
        subst hPt
        exact along_pure hu (Or.inr ⟨rfl, h⟩)
      | some P =>
        -- a planner stage alone is no leftover the script can use
        subst hPt
        have empty : u.files.catTask (taskStage task) (·.creating) = "" := by
          simp [Files.catTask, Files.taskFile, h.stagedTask]
        simp [empty] at hrec
    | some W =>
      subst hSt
      simp only [Option.isSome_none, Option.isNone_some, Bool.false_and, Bool.or_self, Bool.false_or,
        Bool.and_eq_true] at hrec
      obtain ⟨⟨htok, hcomplete⟩, hplan⟩ := hrec
      obtain ⟨W', hW', hF, hc⟩ := taskIsComplete_open hcomplete
      rw [h.stagedTask] at hW'
      cases hW'
      generalize htoken : u.files.catTask (taskStage task) (·.creating) =
        token at htok hcomplete hplan hc
      have htok' : token ≠ "" := of_decide_eq_true htok
      have mine : ∀ T', some W = some T' → Mine p T'.holder := fun T' hT' => Or.inl (hS T' hT')
      cases hPt : P with
      | none =>
        subst hPt
        simp only [Option.isSome_some, Option.isSome_none]
        refine along_get hu ?_
        rw [htoken]
        refine along_get hu ?_
        rw [hcomplete]
        refine along_pass (by simpa using htok') ?_
        refine along_call (createPlannerJobStage_along calm (hS W rfl) h) ?_
        rintro v t _ ⟨hv, ht⟩
        dsimp only at hv ht
        have staged : Staging task p t := by
          refine .of (Or.inr rfl) ht mine ?_
          rintro _ ⟨⟩
          exact Or.inl rfl
        have base := planJobBuild_base task token
        refine along_call (signalPoint_staging calm staged) ?_
        intro _ t' _ ht'
        rw [ht']
        refine along_get staged.stoppable ?_
        rw [isStaged_iff.2 ⟨_, ht.stagedJob, base, Or.inl rfl⟩, requireOwned_true, Prog.pure_bind']
        refine along_call (signalPoint_staging calm staged) ?_
        intro _ t' _ ht'
        rw [ht']
        refine along_call (finishCommit_staged htok' hF ht hc (hS W rfl) base (Or.inl rfl) rfl) ?_
        exact fun _ => finished
      | some B =>
        subst hPt
        obtain ⟨B', hB', base, hst⟩ := isStaged_iff.1 (by simpa using hplan)
        rw [h.stagedJob] at hB'
        cases hB'
        simp only [Option.isSome_some, Option.isSome_none]
        refine along_get hu ?_
        rw [htoken]
        refine along_get hu (along_get hu ?_)
        rw [hcomplete, isStaged_iff.2 ⟨B, h.stagedJob, base, hst⟩]
        refine along_pass (by simpa using htok') (along_call (signalPoint_unowned calm hu) ?_)
        intro _ t _ ht
        rw [ht]
        refine along_call (finishCommit_staged htok' hF h hc (hS W rfl) base hst (hP B rfl)) ?_
        exact fun _ => finished

/-- An execution that finds leftovers it can use completes the creation, unless it is interrupted. -/
theorem taskCreate_along (specFile spec : String) (hT : T → validName task = true ∧ spec ≠ "")
    (hrest : Resting task u) (hrec : u.files.recoverable task = true) :
    Along (answering A) p T (Stoppable task p) (Settled task T) (taskCreate task specFile spec)
      (fun _ t => Complete task t.files) u := by
  obtain ⟨W, J, S, P, h, hlay⟩ := hrest
  have hu : Stoppable task p u :=
    ⟨_, _, _, _, _, h, Or.inl rfl, hlay.mono fun _ h => Or.inl h⟩
  unfold taskCreate validateTaskId validateName
  refine along_require hu (fun _ => ?_) (fun hempty t => ?_)
  swap
  · exact absurd (validName_ne (hT t).1) (of_decide_eq_false hempty)
  refine along_require hu (fun hspec => ?_) (fun hempty t => ?_)
  swap
  · exact absurd (hT t).2 (of_decide_eq_false hempty)
  refine along_require hu (fun _ => ?_) (fun hbad t => ?_)
  swap
  · rw [(hT t).1] at hbad
    cases hbad
  refine along_lock hu ?_ ?_ ?_
  · intro _ q
    simp [Files.lockState, h.lock]
  swap
  · intro hl
    simp [Files.lockState] at hl
  intro _
  generalize hv : u.record p (.locked .create) (u.files.grant p .create) = v
  have shaped : Shape task v.files (some p) W J S P := by
    rw [← hv]
    exact h.grantCreate p
  have hrec' : v.files.recoverable task = true := by
    rw [← hv]
    exact hrec
  have hv' : Stoppable task p v :=
    ⟨_, _, _, _, _, shaped, Or.inr rfl, hlay.mono fun _ h => Or.inl h⟩
  refine along_pass rfl (along_call (signalPoint_unowned calm hv') ?_)
  intro _ t _ ht
  rw [ht]
  have said : ∀ (t : State) (o : Output), Complete task t.files → Stoppable task p t →
      Along (answering A) p T (Stoppable task p) (Settled task T) (say o)
        (fun _ t => Complete task t.files) t := fun t o hc ht => along_said ht ht hc
  refine along_call (recoverInterruptedCommit_along calm shaped hlay hrec') ?_
  rintro r t' _ (⟨rfl, hc, ht'⟩ | ⟨rfl, ht'⟩)
  · exact along_say ht' (said _ _ hc ht')
  · refine along_call (createTask_along calm (of_decide_eq_true ‹_›) ht') ?_
    rintro _ t'' _ ⟨hc, ht''⟩
    exact said _ _ hc ht''

end

/-- The leftovers are `S` and `P`, and nothing is published. -/
def Leftover (task : String) (p : ℕ) (S : Option Task) (P : Option Job) (t : State) : Prop :=
  ∃ lock, Shape task t.files lock none none S P ∧ Mine p lock

theorem recoverable_staging {S : Option Task} {P : Option Job} {lock : Option ℕ}
    (h : Shape task u.files lock none none S P) : u.files.recoverable task =
      (S.isNone && P.isNone ||
        (u.files.catTask (taskStage task) (·.creating) ≠ "" &&
          u.files.taskIsComplete (taskStage task) (u.files.catTask (taskStage task) (·.creating))
            true &&
          (P.isNone || u.files.plannerJobIsStaged task (planJobStage task)
            (u.files.catTask (taskStage task) (·.creating))))) := by
  unfold Files.recoverable
  rw [h.finalTask, h.stagedTask, h.stagedJob, Option.isSome_none, Bool.false_or]

/-- An execution that finds leftovers it cannot use leaves them. -/
theorem taskCreate_stuck (specFile spec : String) {S : Option Task} {P : Option Job}
    (h : Shape task u.files none none none S P) (hrec : u.files.recoverable task = false) :
    Along (answering A) p False (Leftover task p S P) (fun _ => True)
      (taskCreate task specFile spec) (fun _ _ => True) u := by
  have hu : Leftover task p S P u := ⟨none, h, Or.inl rfl⟩
  unfold taskCreate validateTaskId validateName
  refine along_require hu (fun _ => ?_) (fun _ => trivial)
  refine along_require hu (fun _ => ?_) (fun _ => trivial)
  refine along_require hu (fun _ => ?_) (fun _ => trivial)
  refine along_lock hu False.elim ?_ ?_
  swap
  · intro hl
    simp [Files.lockState] at hl
  intro _
  generalize hv : u.record p (.locked .create) (u.files.grant p .create) = v
  have shaped : Shape task v.files (some p) none none S P := by
    rw [← hv]
    exact h.grantCreate p
  have hrec' : v.files.recoverable task = false := by
    rw [← hv]
    exact hrec
  have hv' : Leftover task p S P v := ⟨_, shaped, Or.inr rfl⟩
  have freed : Leftover task p S P ⟨v.files.free p .create, v.trace⟩ :=
    ⟨_, shaped.freeCreate p, Or.inl (mine_drop (Or.inr rfl))⟩
  have point : ∀ transaction, Along (answering A) p False (Leftover task p S P) (fun _ => True)
      (signalPoint task { transactionId := transaction }) (fun _ t => t = v) v := fun transaction =>
    signalPoint_along ⟨False.elim, False.elim⟩ hv' (fun _ _ => trivial) (cleanup_unowned hv' freed)
  refine along_pass rfl (along_call (point _) ?_)
  intro _ t _ ht
  rw [ht]
  refine along_call (G := fun _ _ => False) ?_ fun _ _ _ h => h.elim
  unfold recoverInterruptedCommit
  refine along_get hv' (along_get hv' (along_get hv' (along_get hv' ?_)))
  refine along_call (point _) ?_
  intro _ t _ ht
  rw [ht, shaped.finalTask, shaped.finalJob, shaped.stagedTask, shaped.stagedJob]
  rw [recoverable_staging shaped] at hrec'
  cases S with
  | none =>
    cases P with
    | none => simp at hrec'
    | some B => exact ⟨hv', trivial⟩
  | some W =>
    simp only [Option.isNone_some, Bool.false_and, Bool.false_or] at hrec'
    cases P with
    | none =>
      simp only [Option.isSome_some, Option.isSome_none]
      refine along_get hv' (along_get hv' (along_require hv' (fun htest => ?_) (fun _ => trivial)))
      rw [Option.isNone_none, Bool.true_or, Bool.and_true, htest] at hrec'
      cases hrec'
    | some B =>
      simp only [Option.isSome_some, Option.isSome_none]
      refine along_get hv' (along_get hv' (along_get hv' (along_require hv' (fun htest => ?_)
        (fun _ => trivial))))
      rw [Option.isNone_some, Bool.false_or, htest] at hrec'
      cases hrec'

end

/-- Nothing of the task exists and nobody creates it. -/
structure Vacant (task : String) (s : State) : Prop where
  lock : s.files.createLock = none
  finalTask : s.files.task (.named task) = none
  finalJob : s.files.job (.named (planJobId task)) = none
  stagedTask : s.files.task (taskStage task) = none
  stagedJob : s.files.job (planJobStage task) = none

section
variable {task : String} {s t : State}

theorem Vacant.resting (h : Vacant task s) : Resting task s :=
  ⟨_, _, _, _, ⟨h.lock, h.finalTask, h.finalJob, h.stagedTask, h.stagedJob⟩,
    .staging (by simp) (by simp)⟩

/-- The kernel frees what an execution held. -/
theorem Stoppable.rests {p : ℕ} (h : Stoppable task p s) : Resting task (queueKernel.quit p s) := by
  obtain ⟨lock, T, J, S, P, hs, hl, hlay⟩ := h
  refine ⟨T.map fun W => { W with holder := dropHolder p W.holder },
    J.map fun B => { B with holder := dropHolder p B.holder },
    S.map fun W => { W with holder := dropHolder p W.holder },
    P.map fun B => { B with holder := dropHolder p B.holder }, ?_, ?_⟩
  · refine ⟨?_, ?_, ?_, ?_, ?_⟩
    · exact (congrArg (dropHolder p) hs.lock).trans (mine_drop hl)
    · rw [← hs.finalTask]
      rfl
    · rw [← hs.finalJob]
      rfl
    · rw [← hs.stagedTask]
      rfl
    · rw [← hs.stagedJob]
      rfl
  · cases hlay with
    | staging hS hP =>
      refine .staging ?_ ?_
      · intro W hW
        obtain ⟨W', hW', rfl⟩ := Option.map_eq_some_iff.1 hW
        exact mine_drop (hS W' hW')
      · intro B hB
        obtain ⟨B', hB', rfl⟩ := Option.map_eq_some_iff.1 hB
        exact mine_drop (hP B' hB')
    | half htok hF hc hB hst hW hP =>
      exact .half htok ⟨hF.spec, hF.log, hF.isOpen⟩ hc ⟨hB.transaction, hB.workspace, hB.spec, hB.role,
        hB.taskId, hB.log, hB.controlLock⟩ hst (mine_drop hW) (mine_drop hP)
    | full htok hF hc hB hst hW hJ =>
      exact .full htok ⟨hF.spec, hF.log, hF.isOpen⟩ hc ⟨hB.transaction, hB.workspace, hB.spec, hB.role,
        hB.taskId, hB.log, hB.controlLock⟩ hst (mine_drop hW) (mine_drop hJ)

theorem recoverable_congr {f f' : Files} (hT : f'.task (.named task) = f.task (.named task))
    (hS : f'.task (taskStage task) = f.task (taskStage task))
    (hP : f'.job (planJobStage task) = f.job (planJobStage task)) :
    f'.recoverable task = f.recoverable task := by
  unfold Files.recoverable Files.catTask Files.taskFile Files.taskIsComplete Files.plannerJobIsStaged
    Files.plannerJobHasCompleteBase Files.jobFile
  rw [hT, hS, hP]

/-- Whether leftovers can be used does not depend on the locks. -/
theorem recoverable_quit (p : ℕ) (s : State) :
    (queueKernel.quit p s).files.recoverable task = s.files.recoverable task := by
  have hT : ((queueKernel.quit p s).files.task (.named task)).isSome =
      (s.files.task (.named task)).isSome := Option.isSome_map
  have hS : ((queueKernel.quit p s).files.task (taskStage task)).isNone =
      (s.files.task (taskStage task)).isNone := Option.isNone_map
  have hP : ((queueKernel.quit p s).files.job (planJobStage task)).isNone =
      (s.files.job (planJobStage task)).isNone := Option.isNone_map
  have hcat : (queueKernel.quit p s).files.catTask (taskStage task) (·.creating) =
      s.files.catTask (taskStage task) (·.creating) := by
    change (Option.bind (Option.map _ (s.files.task (taskStage task))) _).getD "" = _
    rw [Option.bind_map]
    rfl
  have hcomplete : ∀ token, (queueKernel.quit p s).files.taskIsComplete (taskStage task) token true =
      s.files.taskIsComplete (taskStage task) token true := by
    intro token
    change Option.any _ (Option.map _ (s.files.task (taskStage task))) = _
    rw [Option.any_map]
    rfl
  have hstaged : ∀ token, (queueKernel.quit p s).files.plannerJobIsStaged task
      (planJobStage task) token = s.files.plannerJobIsStaged task (planJobStage task) token := by
    intro token
    unfold Files.plannerJobIsStaged Files.plannerJobHasCompleteBase Files.jobFile
    have hjob : (queueKernel.quit p s).files.job (planJobStage task) =
        Option.map _ (s.files.job (planJobStage task)) := rfl
    rw [hjob, Option.any_map, Option.bind_map]
    rfl
  unfold Files.recoverable
  rw [hT, hS, hP, hcat]
  dsimp only
  rw [hcomplete, hstaged]

/-- Executions leave one of the layouts. -/
theorem Execution.resting (h : Execution task s t) (hs : Resting task s) : Resting task t := by
  obtain ⟨p, specFile, spec, y, u, hr, rfl⟩ := h
  have hr' : Reaches (answering anyAnswer) p (taskCreate task specFile spec) s y u :=
    hr.mono anyAnswer_exec
  cases hrec : s.files.recoverable task with
  | true =>
    have along := taskCreate_along (A := anyAnswer) (T := False) (p := p) ⟨False.elim, False.elim⟩
      specFile spec False.elim hs hrec
    exact (along.reached hr').here.rests
  | false =>
    obtain ⟨T, J, S, P, hshape, hlay⟩ := hs
    cases hlay with
    | staging hS hP =>
      obtain ⟨lock, hu, hl⟩ := ((taskCreate_stuck (A := anyAnswer) (p := p) specFile spec hshape
        hrec).reached hr').here
      exact Stoppable.rests ⟨lock, _, _, _, _, hu, hl,
        .staging (fun W hW => Or.inl (hS W hW)) (fun B hB => Or.inl (hP B hB))⟩
    | half => simp [Files.recoverable, hshape.finalTask] at hrec
    | full => simp [Files.recoverable, hshape.finalTask] at hrec

/-- Unusable leftovers stay, and nothing is published. -/
theorem Execution.stuck (h : Execution task s t) (hs : Resting task s)
    (hrec : s.files.recoverable task = false) : t.files.recoverable task = false := by
  obtain ⟨p, specFile, spec, y, u, hr, rfl⟩ := h
  obtain ⟨T, J, S, P, hshape, hlay⟩ := hs
  rw [recoverable_quit]
  cases hlay with
  | staging hS hP =>
    obtain ⟨lock, hu, -⟩ := ((taskCreate_stuck (A := anyAnswer) (p := p) specFile spec hshape
      hrec).reached (hr.mono anyAnswer_exec)).here
    rw [← hrec]
    exact recoverable_congr (hu.finalTask.trans hshape.finalTask.symm)
      (hu.stagedTask.trans hshape.stagedTask.symm) (hu.stagedJob.trans hshape.stagedJob.symm)
  | half => simp [Files.recoverable, hshape.finalTask] at hrec
  | full => simp [Files.recoverable, hshape.finalTask] at hrec

theorem Resting.executions (hs : Resting task s) (h : Relation.ReflTransGen (Execution task) s t) :
    Resting task t := by
  induction h with
  | refl => exact hs
  | tail _ hstep ih => exact hstep.resting ih

theorem Resting.recovers (hs : Resting task s) (hname : validName task = true)
    (hrec : s.files.recoverable task = true) : Recovers task s := by
  intro p specFile spec hspec
  have calm : Calm uninterrupted True := by
    refine ⟨fun _ _ h => h, fun _ q => ?_⟩
    cases q with
    | signal => exact ⟨false, rfl⟩
    | _ => exact ⟨quiet [] _, trivial⟩
  have along := taskCreate_along (p := p) calm specFile spec (fun _ => ⟨hname, hspec⟩) hs hrec
  refine ⟨along.ends trivial, ?_⟩
  intro out t hrun
  cases out with
  | none => exact along.exited hrun trivial
  | some a => exact along.returned hrun

/-- When a later execution recovers: after any sequence of executions of `task-create` for a task,
each interrupted anywhere, an uninterrupted one completes the pair exactly when the leftovers are
usable; otherwise no execution ever publishes the task. -/
theorem task_create_recoverable (hname : validName task = true) (h₀ : Vacant task s)
    (h : Relation.ReflTransGen (Execution task) s t) :
    (Recovers task t ↔ t.files.recoverable task = true) ∧
    (t.files.recoverable task = false → ∀ u, Relation.ReflTransGen (Execution task) t u →
      u.files.recoverable task = false ∧ u.files.task (.named task) = none) := by
  have ht := h₀.resting.executions h
  have unpublished : ∀ {f : Files}, f.recoverable task = false → f.task (.named task) = none := by
    intro f hf
    cases hT : f.task (.named task) with
    | none => rfl
    | some W => simp [Files.recoverable, hT] at hf
  have stays : t.files.recoverable task = false → ∀ u, Relation.ReflTransGen (Execution task) t u →
      u.files.recoverable task = false := by
    intro hrec u hu
    induction hu with
    | refl => exact hrec
    | tail hto hstep ih => exact hstep.stuck (ht.executions hto) ih
  refine ⟨⟨fun hrecovers => ?_, ht.recovers hname⟩, fun hrec u hu => ?_⟩
  · by_contra hno
    have hrec : t.files.recoverable task = false := by simpa using hno
    obtain ⟨⟨out, v, hrun⟩, hall⟩ := hrecovers 0 "" "x" (by decide)
    obtain ⟨W, token, hW, -⟩ := hall out v hrun
    obtain ⟨y, hy⟩ := (hrun.mono answering_exec).reaches
    have stuck := stays hrec _ (.single ⟨0, "", "x", y, v, hy, rfl⟩)
    rw [recoverable_quit] at stuck
    rw [unpublished stuck] at hW
    cases hW
  · exact ⟨stays hrec u hu, unpublished (stays hrec u hu)⟩

end

theorem vacant_empty (task : String) : Vacant task { files := {} } := ⟨rfl, rfl, rfl, rfl, rfl⟩

/-- A signal arrives as soon as the planner stage exists: before the script owns it. -/
def signalAtStage (task : String) (s : State) : Answers
  | .signal => (s.files.job (planJobStage task)).isSome
  | q => quiet [] q

theorem evalOp_answering {A : (q : Query) → q.Reply → Prop} {answers : Answers}
    (allowed : ∀ q, A q (answers q)) {p : ℕ} {β : Type} (e : Op β) (s : State) (r : β) (s' : State)
    (h : evalOp answers p e s = some (r, s')) : (answering A).exec p e s r s' := by
  refine ⟨evalOp_sound answers p e s r s' h, ?_⟩
  cases e with
  | ask q =>
    cases h
    exact allowed q
  | _ => trivial

/-- The execution that the signal ends. -/
def signalled (task : String) : Option (Option Unit × State) :=
  Interp.run (fun e s => evalOp (signalAtStage task s) 0 e s) (taskCreate task "task.md" "Build it.")
    { files := {} }

theorem signalled_execution {task : String} {r : Option Unit × State} (h : signalled task = some r) :
    Execution task { files := {} } (queueKernel.quit 0 r.2) := by
  obtain ⟨y, hy⟩ := (Interp.run_sound (K := queueKernel) (p := 0)
    (fun e s r s' h => evalOp_sound (signalAtStage task s) 0 e s r s' h) h).reaches
  exact ⟨0, _, _, y, r.2, hy, rfl⟩

/-- After the signal the planner stage is left without its task, and nothing recovers. -/
theorem task_create_recoverable_signalled : ∃ t, Execution "t" { files := {} } t ∧
    ¬ Recovers "t" t ∧ ∀ u, Relation.ReflTransGen (Execution "t") t u →
      u.files.task (.named "t") = none := by
  have computed : (signalled "t").map (fun r => (queueKernel.quit 0 r.2).files.recoverable "t") =
      some false := by decide +kernel
  obtain ⟨r, hr, hrec⟩ := Option.map_eq_some_iff.1 computed
  have hexec := signalled_execution hr
  obtain ⟨hiff, hstuck⟩ := task_create_recoverable (by decide +kernel) (vacant_empty "t")
    (.single hexec)
  refine ⟨_, hexec, ?_, fun u hu => (hstuck hrec u hu).2⟩
  rw [hiff, hrec]
  exact Bool.false_ne_true

/-- A signal between the rename of the planner stage and the note that the script owns it makes every
later `task-create` fail. -/
theorem signal_strands_planner_stage : ¬ ∀ (task : String) (s t : State), validName task = true →
    Vacant task s → Relation.ReflTransGen (Execution task) s t → Recovers task t := by
  intro hall
  have computed : ((signalled "t").bind fun r =>
      (Interp.run (evalOp (quiet []) 1) (taskCreate "t" "task.md" "Build it.")
        (queueKernel.quit 0 r.2)).map fun r' => (r'.2.files.task (.named "t")).isNone) =
          some true := by
    decide +kernel
  obtain ⟨r, hr, hnext⟩ := Option.bind_eq_some_iff.1 computed
  obtain ⟨⟨out, u⟩, hrun, hnone⟩ := Option.map_eq_some_iff.1 hnext
  have hrecovers := hall "t" { files := {} } _ (by decide +kernel) (vacant_empty "t")
    (.single (signalled_execution hr))
  have allowed : ∀ q, uninterrupted q (quiet [] q) := by
    intro q
    cases q with
    | signal => rfl
    | _ => trivial
  obtain ⟨W, token, hW, -⟩ := (hrecovers 1 "task.md" "Build it." (by decide)).2 out u
    (Interp.run_sound (evalOp_answering allowed) hrun)
  rw [hW] at hnone
  cases hnone

end Cyclo.AgentWs
