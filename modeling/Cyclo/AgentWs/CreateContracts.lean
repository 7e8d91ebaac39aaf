import Cyclo.AgentWs.LibContracts
import Cyclo.AgentWs.TaskCreate

/-! `task-create` performs only actions the queue allows. Its knowledge rests on
`.task-create.lock`: while it holds that lock nobody else touches a staging directory. -/
namespace Cyclo.AgentWs
open Cyclo.Process Setting

section
variable {S : Setting} {p : ℕ} {s : State} {P : State → Prop} {task token : String}

theorem Setting.Safe.ifSet {α : Type} {flag : Bool} {x : Script Unit} {f : Unit → Script α}
    {Q : α → State → Prop} {R : State → Prop} (skip : flag = false → R s)
    (run : flag = true → S.Safe p x (fun _ t => R t) s) (next : ∀ t, R t → S.Safe p (f ()) Q t) :
    S.Safe p (AgentWs.ifSet flag x >>= f) Q s := by
  cases flag with
  | false => exact next s (skip rfl)
  | true => exact Safe.call (run rfl) fun _ => next

/-- `p` holds `.task-create.lock` and knows `L`. -/
structure Creating (p : ℕ) (L : State → Prop) (s : State) : Prop where
  creator : s.files.createLock = some p
  known : L s

theorem Creating.stable {L : State → Prop} (hL : Lasting L) : Stable p (Creating p L) :=
  fun _ _ h hi => ⟨hi.creator h.creator, hL h.known hi.grows⟩

/-- The task stage is complete and carries the token. -/
def TaskReady (p : ℕ) (task token : String) (s : State) : Prop :=
  s.files.createLock = some p ∧
    ∃ T, s.files.task (taskStage task) = some T ∧ T.creating = some token ∧ T.Whole

/-- The planner stage has not got beyond `pending`. -/
def PlanReady (p : ℕ) (task : String) (s : State) : Prop :=
  s.files.createLock = some p ∧
    ∃ J, s.files.job (planJobStage task) = some J ∧ (J.status = none ∨ J.status = some .pending)

theorem TaskReady.stable : Stable p (TaskReady p task token) := by
  rintro s t ⟨hc, T, hT, htok, whole⟩ hi
  obtain ⟨T', hT', he⟩ := (hi.stagedTask hc task).2 T hT
  simp only [Task.contents, Task.mk.injEq] at he
  obtain ⟨h₁, -, h₃, h₄, h₅, -⟩ := he
  exact ⟨hi.creator hc, T', hT', h₁.trans htok, h₃ ▸ whole.spec, h₄ ▸ whole.log, h₅ ▸ whole.state⟩

theorem PlanReady.stable : Stable p (PlanReady p task) := by
  rintro s t ⟨hc, J, hJ, hst⟩ hi
  obtain ⟨J', hJ', he, -⟩ := (hi.stagedJob hc (planJobId task)).2 J hJ
  simp only [Job.contents, Job.mk.injEq] at he
  exact ⟨hi.creator hc, J', hJ', by rw [he.1]; exact hst⟩

/-- What the exit trap may remove: stages `p` published itself. -/
structure Owns (p : ℕ) (task : String) (v : Vars) (s : State) : Prop where
  creator : s.files.createLock = some p
  ownTask : v.ownTaskStage = true → StagedTask p s (taskStage task) v.transactionId
  ownPlan : v.ownPlanStage = true → StagedJob p s (planJobStage task) v.transactionId

theorem lasting_stagedTask (p : ℕ) (t : Entry) (token : String) :
    Lasting fun s => StagedTask p s t token := by
  rintro s u ⟨build, hb, he⟩ hg
  exact ⟨build, hb, lasting_event _ he hg⟩

theorem lasting_stagedJob (p : ℕ) (j : Entry) (token : String) :
    Lasting fun s => StagedJob p s j token := by
  rintro s u ⟨build, hb, he⟩ hg
  exact ⟨build, hb, lasting_event _ he hg⟩

/-- Once `p` has begun to remove a stage nobody else makes it again. -/
theorem RemovingTask.step {id : String} {t u : State} (hc : t.files.createLock = some p)
    (h : RemovingTask p t (.staged id)) (new : List (ℕ × Event)) (hnew : u.trace = new ++ t.trace)
    (quiet : t.files.createLock = some p → ∀ e ∈ new, ¬ Stages e) : RemovingTask p u (.staged id) := by
  obtain ⟨later, earlier, token, ht, hl⟩ := h
  refine ⟨new ++ later, earlier, token, by rw [hnew, ht, List.append_assoc], fun build q hq => ?_⟩
  rcases List.mem_append.1 hq with hq | hq
  · exact quiet hc _ hq (Or.inr ⟨id, build, rfl⟩)
  · exact hl build q hq

theorem RemovingJob.step {id : String} {t u : State} (hc : t.files.createLock = some p)
    (h : RemovingJob p t (.staged id)) (new : List (ℕ × Event)) (hnew : u.trace = new ++ t.trace)
    (quiet : t.files.createLock = some p → ∀ e ∈ new, ¬ Stages e) : RemovingJob p u (.staged id) := by
  obtain ⟨later, earlier, token, ht, hl⟩ := h
  refine ⟨new ++ later, earlier, token, by rw [hnew, ht, List.append_assoc], fun build q hq => ?_⟩
  rcases List.mem_append.1 hq with hq | hq
  · exact quiet hc _ hq (Or.inl ⟨id, build, rfl⟩)
  · exact hl build q hq

theorem removingTask_stable (id : String) {L : State → Prop} (hL : Lasting L) :
    Stable p fun s => Creating p L s ∧ RemovingTask p s (.staged id) := by
  rintro s t ⟨hc, h⟩ hi
  obtain ⟨new, hnew, quiet⟩ := hi.trace
  exact ⟨Creating.stable hL hc hi, h.step hc.creator new hnew quiet⟩

theorem removingJob_stable (id : String) {L : State → Prop} (hL : Lasting L) :
    Stable p fun s => Creating p L s ∧ RemovingJob p s (.staged id) := by
  rintro s t ⟨hc, h⟩ hi
  obtain ⟨new, hnew, quiet⟩ := hi.trace
  exact ⟨Creating.stable hL hc hi, h.step hc.creator new hnew quiet⟩

/-- A change under the creation lock that is allowed leaves what is known. -/
theorem Creating.wrote {L : State → Prop} (hL : Lasting L) (h : Creating p L s) {w : Write} {f : Files}
    (hw : Allowed S.hexdigest S.cmd p s w) (hf : w.apply s.files = some f) :
    Creating p L (s.record p (.wrote w) f) where
  creator := (Write.apply_frame hf).2.2.trans h.creator
  known := hL h.known (Setting.act_grows' (S := S) (p := p) (.write hw hf))

theorem unlinkTaskFiles_safe {id : String} {L : State → Prop} (hL : Lasting L) (files : List TaskFile)
    (hs : Creating p L s ∧ RemovingTask p s (.staged id)) :
    S.Safe p (unlinkTaskFiles (.staged id) files)
      (fun _ t => Creating p L t ∧ RemovingTask p t (.staged id)) s := by
  induction files generalizing s with
  | nil => exact hs
  | cons file rest ih =>
    have may : ∀ t, Creating p L t ∧ RemovingTask p t (.staged id) →
        Allowed S.hexdigest S.cmd p t (.unlinkTask (.staged id) file) :=
      fun t ht => ⟨ht.1.creator, ⟨id, rfl⟩, ht.2⟩
    refine Safe.write (removingTask_stable _ hL) hs (fun t ht _ => may t ht)
      (fun t f' ht _ hf => ih ⟨ht.1.wrote hL (may t ht) hf, ?_⟩) fun t ht _ => ih ht
    exact ht.2.step ht.1.creator [(p, .wrote (.unlinkTask (.staged id) file))] rfl
      (by simp [Stages])

theorem unlinkJobFiles_safe {id : String} {L : State → Prop} (hL : Lasting L) (files : List JobFile)
    (hs : Creating p L s ∧ RemovingJob p s (.staged id)) :
    S.Safe p (unlinkJobFiles (.staged id) files)
      (fun _ t => Creating p L t ∧ RemovingJob p t (.staged id)) s := by
  induction files generalizing s with
  | nil => exact hs
  | cons file rest ih =>
    have may : ∀ t, Creating p L t ∧ RemovingJob p t (.staged id) →
        Allowed S.hexdigest S.cmd p t (.unlinkJob (.staged id) file) :=
      fun t ht => ⟨ht.1.creator, ⟨id, rfl⟩, ht.2⟩
    refine Safe.write (removingJob_stable _ hL) hs (fun t ht _ => may t ht)
      (fun t f' ht _ hf => ih ⟨ht.1.wrote hL (may t ht) hf, ?_⟩) fun t ht _ => ih ht
    exact ht.2.step ht.1.creator [(p, .wrote (.unlinkJob (.staged id) file))] rfl
      (by simp [Stages])

/-- `p` holds the creation lock and the task stage, which it published, carries its token. -/
def OwnTask (p : ℕ) (task token : String) (s : State) : Prop :=
  s.files.createLock = some p ∧ StagedTask p s (taskStage task) token ∧
    ∃ T, s.files.task (taskStage task) = some T ∧ T.creating = some token

def OwnPlan (p : ℕ) (task token : String) (s : State) : Prop :=
  s.files.createLock = some p ∧ StagedJob p s (planJobStage task) token ∧
    ∃ J, s.files.job (planJobStage task) = some J ∧ J.transaction = some token

theorem OwnTask.stable : Stable p (OwnTask p task token) := by
  rintro s t ⟨hc, hstage, T, hT, htok⟩ hi
  obtain ⟨T', hT', he⟩ := (hi.stagedTask hc task).2 T hT
  simp only [Task.contents, Task.mk.injEq] at he
  exact ⟨hi.creator hc, lasting_stagedTask _ _ _ hstage hi.grows, T', hT', he.1.trans htok⟩

theorem OwnPlan.stable : Stable p (OwnPlan p task token) := by
  rintro s t ⟨hc, hstage, J, hJ, htok⟩ hi
  obtain ⟨J', hJ', he, -⟩ := (hi.stagedJob hc (planJobId task)).2 J hJ
  simp only [Job.contents, Job.mk.injEq] at he
  refine ⟨hi.creator hc, lasting_stagedJob _ _ _ hstage hi.grows, J', hJ', ?_⟩
  rw [← htok]
  simp_all

theorem removeOwnedTaskStage_safe {L : State → Prop} (hL : Lasting L) (hs : Creating p L s)
    (own : StagedTask p s (taskStage task) token) :
    S.Safe p (removeOwnedTaskStage task token) (fun _ t => Creating p L t) s := by
  unfold removeOwnedTaskStage
  split
  · exact hs
  have hL' := hL.and (lasting_stagedTask p (taskStage task) token)
  refine Safe.get (Creating.stable hL') ⟨hs.creator, hs.known, own⟩ fun t ht _ => ?_
  split
  · exact ⟨ht.creator, ht.known.1⟩
  rename_i hown
  simp only [Bool.not_eq_true', decide_eq_false_iff_not, not_not] at hown
  obtain ⟨T, hT, htok⟩ := Option.bind_eq_some_iff.1 hown
  have mine : OwnTask p task token t := ⟨ht.creator, ht.known.2, T, hT, htok⟩
  have may : ∀ t, OwnTask p task token t → MaySay S.hexdigest S.cmd S.Unique p t
      (.removingTask (taskStage task) token) := fun t h => ⟨h.1, h.2.2, h.2.1⟩
  refine Safe.say (OwnTask.stable.and (Creating.stable hL)) ⟨mine, ht.creator, ht.known.1⟩
    (fun t ht _ => may t ht.1) fun t ht => ?_
  have said : Creating p L (t.record p (.said (.removingTask (taskStage task) token)) t.files) :=
    ⟨ht.1.1, hL ht.2.known (Setting.act_grows' (S := S) (p := p) (.say (may t ht.1)))⟩
  refine Safe.ask (removingTask_stable task hL) ⟨said, [], t.trace, token, rfl, by simp⟩
    fun t order ht => ?_
  refine Safe.call (unlinkTaskFiles_safe hL _ ht) fun _ t ht => ?_
  refine Safe.write (removingTask_stable _ hL) ht (fun t ht _ => ⟨ht.1.creator, ⟨task, rfl⟩, ht.2⟩)
    (fun t f' ht _ hf => ?_) fun t ht _ => ht.1
  exact ht.1.wrote (S := S) hL ⟨ht.1.creator, ⟨task, rfl⟩, ht.2⟩ hf

theorem removeOwnedPlanStage_safe {L : State → Prop} (hL : Lasting L) (hs : Creating p L s)
    (own : StagedJob p s (planJobStage task) token) :
    S.Safe p (removeOwnedPlanStage task token) (fun _ t => Creating p L t) s := by
  unfold removeOwnedPlanStage
  split
  · exact hs
  have hL' := hL.and (lasting_stagedJob p (planJobStage task) token)
  refine Safe.get (Creating.stable hL') ⟨hs.creator, hs.known, own⟩ fun t ht _ => ?_
  split
  · exact ⟨ht.creator, ht.known.1⟩
  rename_i hown
  simp only [Bool.not_eq_true', decide_eq_false_iff_not, not_not] at hown
  obtain ⟨J, hJ, htok⟩ := Option.bind_eq_some_iff.1 hown
  have mine : OwnPlan p task token t := ⟨ht.creator, ht.known.2, J, hJ, htok⟩
  have may : ∀ t, OwnPlan p task token t → MaySay S.hexdigest S.cmd S.Unique p t
      (.removingJob (planJobStage task) token) := fun t h => ⟨h.1, h.2.2, h.2.1⟩
  refine Safe.say (OwnPlan.stable.and (Creating.stable hL)) ⟨mine, ht.creator, ht.known.1⟩
    (fun t ht _ => may t ht.1) fun t ht => ?_
  have said : Creating p L (t.record p (.said (.removingJob (planJobStage task) token)) t.files) :=
    ⟨ht.1.1, hL ht.2.known (Setting.act_grows' (S := S) (p := p) (.say (may t ht.1)))⟩
  refine Safe.ask (removingJob_stable (planJobId task) hL)
    ⟨said, [], t.trace, token, rfl, by simp⟩ fun t order ht => ?_
  refine Safe.call (unlinkJobFiles_safe hL _ ht) fun _ t ht => ?_
  refine Safe.write (removingJob_stable _ hL) ht
    (fun t ht _ => ⟨ht.1.creator, ⟨planJobId task, rfl⟩, ht.2⟩) (fun t f' ht _ hf => ?_)
    fun t ht _ => ht.1
  exact ht.1.wrote (S := S) hL ⟨ht.1.creator, ⟨planJobId task, rfl⟩, ht.2⟩ hf

theorem cleanup_safe {v : Vars} (hs : Owns p task v s) :
    S.Safe p (cleanup task v) (fun _ _ => True) s := by
  have plan : Lasting fun s => v.ownPlanStage = true →
      StagedJob p s (planJobStage task) v.transactionId :=
    fun _ _ h hg hv => lasting_stagedJob _ _ _ (h hv) hg
  refine Safe.ifSet (R := Creating p fun s => v.ownPlanStage = true →
      StagedJob p s (planJobStage task) v.transactionId)
    (fun _ => ⟨hs.creator, hs.ownPlan⟩)
    (fun hv => removeOwnedTaskStage_safe plan ⟨hs.creator, hs.ownPlan⟩ (hs.ownTask hv)) ?_
  intro t ht
  refine Safe.ifSet (R := Creating p fun _ => True) (fun _ => ⟨ht.creator, trivial⟩)
    (fun hv => removeOwnedPlanStage_safe (lasting_const True) ⟨ht.creator, trivial⟩ (ht.known hv)) ?_
  intro t _
  exact Safe.unlock (f := fun _ => pure ()) ((lasting_const True).stable p) trivial fun _ _ => trivial

theorem signalPoint_safe (hP : Stable p P) (hs : P s) {v : Vars} (owns : ∀ t, P t → Owns p task v t) :
    S.Safe p (signalPoint task v) (fun _ t => P t) s := by
  refine Safe.ask hP hs fun t caught ht => ?_
  cases caught with
  | false => exact ht
  | true => exact Safe.call (cleanup_safe (owns t ht)) fun _ _ _ => trivial

theorem Setting.Safe.requireOwned {α : Type} {test : Bool} {m : String} {v : Vars}
    {f : Unit → Script α} {Q : α → State → Prop} (owns : Owns p task v s)
    (next : test = true → S.Safe p (f ()) Q s) :
    S.Safe p (AgentWs.requireOwned task v test m >>= f) Q s := by
  cases test with
  | true => exact next rfl
  | false => exact Safe.call (Safe.call (cleanup_safe owns) fun _ _ _ => (trivial : S.Safe p
      (AgentWs.die m) (fun _ _ => False) _)) fun _ _ => False.elim

/-- The task stage is there, and the exit trap may remove it when it is `p`'s own. -/
structure TaskStaged (p : ℕ) (task : String) (v : Vars) (s : State) : Prop where
  ready : TaskReady p task v.transactionId s
  own : v.ownTaskStage = true → StagedTask p s (taskStage task) v.transactionId

theorem TaskStaged.stable {v : Vars} : Stable p (TaskStaged p task v) :=
  fun _ _ h hi => ⟨TaskReady.stable h.ready hi, fun hv => lasting_stagedTask _ _ _ (h.own hv) hi.grows⟩

theorem TaskStaged.owns {v : Vars} (h : TaskStaged p task v s) (hv : v.ownPlanStage = false) :
    Owns p task v s :=
  ⟨h.ready.1, h.own, fun h' => by simp [hv] at h'⟩

theorem createTaskStage_safe {spec : String} (hspec : spec ≠ "") {v : Vars}
    (hv : v.ownTaskStage = false) (hv' : v.ownPlanStage = false) (hs : Creating p (fun _ => True) s) :
    S.Safe p (createTaskStage task spec v)
      (fun v' t => v' = { v with ownTaskStage := true } ∧ TaskStaged p task v' t) s := by
  have stable := Creating.stable (p := p) (lasting_const True)
  have owns : ∀ t, Creating p (fun _ => True) t → Owns p task v t :=
    fun t ht => ⟨ht.creator, fun h => by simp [hv] at h, fun h => by simp [hv'] at h⟩
  refine Safe.call (signalPoint_safe stable hs owns) fun _ t ht => ?_
  have may : ∀ t, Creating p (fun _ => True) t → Allowed S.hexdigest S.cmd p t
      (.publishTask (taskStage task) (taskBuild v.transactionId spec)) :=
    fun t ht => ⟨ht.creator, task, _, spec, rfl, rfl, hspec⟩
  refine Safe.write stable ht (fun t ht _ => may t ht) (fun t f' ht _ hf => ?_) fun t ht _ => ?_
  swap
  · exact Safe.requireOwned (owns t ht) (by rintro ⟨⟩)
  have hc : f'.createLock = some p := (Write.apply_frame hf).2.2.trans ht.creator
  have published : TaskReady p task v.transactionId
      (t.record p (.wrote (.publishTask (taskStage task) (taskBuild v.transactionId spec))) f') := by
    simp only [Write.apply] at hf
    split at hf <;> cases hf
    exact ⟨hc, taskBuild v.transactionId spec, by simp, rfl, ⟨spec, rfl, hspec⟩, rfl, rfl⟩
  have staged : TaskStaged p task { v with ownTaskStage := true }
      (t.record p (.wrote (.publishTask (taskStage task) (taskBuild v.transactionId spec))) f') :=
    ⟨published, fun _ => ⟨taskBuild v.transactionId spec, rfl, List.mem_cons_self⟩⟩
  refine Safe.requireOwned ⟨hc, fun h => by simp [hv] at h, fun h => by simp [hv'] at h⟩ fun _ => ?_
  refine Safe.call (signalPoint_safe TaskStaged.stable staged fun t ht => ?_) fun _ t ht => ⟨rfl, ht⟩
  exact ⟨ht.ready.1, fun h => by simp [hv] at h, fun h => by simp [hv'] at h⟩

/-- Both stages are there. -/
structure BothStaged (p : ℕ) (task : String) (v : Vars) (s : State) : Prop where
  staged : TaskStaged p task v s
  plan : PlanReady p task s
  own : v.ownPlanStage = true → StagedJob p s (planJobStage task) v.transactionId

theorem BothStaged.stable {v : Vars} : Stable p (BothStaged p task v) :=
  fun _ _ h hi => ⟨TaskStaged.stable h.staged hi, PlanReady.stable h.plan hi,
    fun hv => lasting_stagedJob _ _ _ (h.own hv) hi.grows⟩

theorem BothStaged.owns {v : Vars} (h : BothStaged p task v s) : Owns p task v s :=
  ⟨h.plan.1, h.staged.own, h.own⟩

theorem createPlannerJobStage_safe {v : Vars} (hv : v.ownPlanStage = false)
    (hs : TaskStaged p task v s) :
    S.Safe p (createPlannerJobStage task v)
      (fun v' t => v' = { v with ownPlanStage := true } ∧ BothStaged p task v' t) s := by
  have owns : ∀ t, TaskStaged p task v t → Owns p task v t := fun t ht => ht.owns hv
  refine Safe.call (signalPoint_safe TaskStaged.stable hs owns) fun _ t ht => ?_
  have may : ∀ t, TaskStaged p task v t → Allowed S.hexdigest S.cmd p t
      (.publishJob (planJobStage task) (planJobBuild task v.transactionId)) :=
    fun t ht => ⟨ht.ready.1, task, _, rfl, rfl⟩
  refine Safe.write TaskStaged.stable ht (fun t ht _ => may t ht) (fun t f' ht _ hf => ?_)
    fun t ht _ => ?_
  swap
  · exact Safe.requireOwned (owns t ht) (by rintro ⟨⟩)
  have hact : S.act p t
      (t.record p (.wrote (.publishJob (planJobStage task) (planJobBuild task v.transactionId)))
        f') := .write (may t ht) hf
  obtain ⟨hc, T, hT, htok, whole⟩ := ht.ready
  obtain ⟨-, frame, frameLock⟩ := Write.apply_frame hf
  have kept : TaskStaged p task v
      (t.record p (.wrote (.publishJob (planJobStage task) (planJobBuild task v.transactionId))) f') :=
    ⟨⟨frameLock.trans hc, T, (frame _ (by simp [Write.tasks])).trans hT, htok, whole⟩,
      fun hv => lasting_stagedTask _ _ _ (ht.own hv) (Setting.act_grows' hact)⟩
  have staged : BothStaged p task { v with ownPlanStage := true }
      (t.record p (.wrote (.publishJob (planJobStage task) (planJobBuild task v.transactionId)))
        f') := by
    refine ⟨⟨kept.ready, kept.own⟩, ⟨kept.ready.1, planJobBuild task v.transactionId, ?_, Or.inl rfl⟩,
      fun _ => ⟨planJobBuild task v.transactionId, rfl, List.mem_cons_self⟩⟩
    simp only [Write.apply] at hf
    split at hf <;> cases hf
    simp
  refine Safe.requireOwned (kept.owns hv) fun _ => ?_
  refine Safe.call (signalPoint_safe BothStaged.stable staged fun t ht => ?_) fun _ t ht => ⟨rfl, ht⟩
  exact ⟨ht.plan.1, ht.staged.own, fun h => by simp [hv] at h⟩

theorem TaskReady.complete (h : TaskReady p task token s) :
    s.files.taskIsComplete (taskStage task) token true = true := by
  obtain ⟨-, T, hT, htok, ⟨spec, hspec, hne⟩, hlog, hstate⟩ := h
  simp [Files.taskIsComplete, hT, htok, hspec, hne, hlog, hstate]

theorem Files.taskIsComplete_creating {f : Files} {t : Entry} {open_ : Bool}
    (h : f.taskIsComplete t token open_ = true) :
    ∃ T, f.task t = some T ∧ T.creating = some token := by
  obtain ⟨T, hT, hc⟩ := (Option.any_eq_true ..).1 h
  simp only [Bool.and_eq_true, decide_eq_true_eq] at hc
  exact ⟨T, hT, hc.1.1.1⟩

/-- The predicate reads nothing but the job's directory. -/
theorem Files.plannerJobIsComplete_congr {f f' : Files} {j j' : Entry} (h : f'.job j' = f.job j) :
    f'.plannerJobIsComplete task j' token = f.plannerJobIsComplete task j token := by
  simp [Files.plannerJobIsComplete, Files.plannerJobHasCompleteBase, Files.jobFile, h]

/-- The published task was staged with this token. -/
def TaskToken (task token : String) (s : State) : Prop :=
  ∃ T, s.files.task (.named task) = some T ∧ T.token = some token

theorem lasting_taskToken (task token : String) : Lasting (TaskToken task token) := by
  rintro s t ⟨T, hT, htok⟩ hg
  obtain ⟨T', hT', hgT⟩ := hg.tasks task T hT
  exact ⟨T', hT', hgT.token.trans htok⟩

/-- What `finish_commit` starts from: the stages it publishes are ready. -/
structure Committable (p : ℕ) (task token : String) (publishTask publishJob : Bool) (s : State) :
    Prop where
  taskReady : publishTask = true → TaskReady p task token s
  planReady : publishJob = true → PlanReady p task s

theorem Committable.stable {publishTask publishJob : Bool} :
    Stable p (Committable p task token publishTask publishJob) :=
  fun _ _ h hi => ⟨fun hp => TaskReady.stable (h.taskReady hp) hi,
    fun hp => PlanReady.stable (h.planReady hp) hi⟩

theorem acquireCommitJob_safe {publishTask publishJob : Bool}
    (both : publishTask = true → publishJob = true)
    (hs : Committable p task token publishTask publishJob s) :
    S.Safe p (acquireJobControlLock (commitJob task publishJob)) (fun _ t => ∃ J,
      Held p (commitJob task publishJob) J (fun _ => True) t ∧
      (publishJob = true → J.status = none ∨ J.status = some .pending) ∧
      (publishTask = true → TaskReady p task token t)) s := by
  cases publishJob with
  | false =>
    refine (acquireJobControlLock_safe (lasting_const True) trivial).weaken ?_
    rintro - t ⟨J, ht⟩
    exact ⟨J, ⟨ht.hold, trivial⟩, by rintro ⟨⟩, fun hp => by cases both hp⟩
  | true =>
    refine Safe.lock Committable.stable hs (fun t ht => (ht.planReady rfl).1) (fun t ht hfree => ?_)
      fun _ _ => trivial
    obtain ⟨hc, J, hJ, hst⟩ := ht.planReady rfl
    refine ⟨{ J with holder := some p, controlLock := true },
      ⟨⟨by simp [commitJob, Files.grant, hJ], rfl, fun _ _ => hc⟩, trivial⟩,
      fun _ => hst, fun hp => ?_⟩
    exact ht.taskReady hp

theorem publishTaskStage_safe {j : Entry} {J : Job} (hs : Held p j J (fun _ => True) s)
    (ready : TaskReady p task token s) :
    S.Safe p (publishTaskStage task) (fun _ t => Held p j J (fun _ => True) t) s := by
  have ready' : Stable p (TaskReady p task token) := TaskReady.stable
  have stable := (Held.stable (p := p) (j := j) (J := J) (lasting_const True)).and ready'
  refine Safe.write stable ⟨hs, ready⟩
    (fun t ht _ => ⟨ht.2.1, task, token, rfl, rfl, ht.2.complete⟩) (fun t f' ht _ hf => ?_)
    fun _ _ _ => trivial
  obtain ⟨frame, -, frameLock⟩ := Write.apply_frame hf
  exact ⟨⟨(frame _ (by simp [Write.jobs])).trans ht.1.hold.present, ht.1.hold.holder,
    fun id hid => frameLock.trans (ht.1.hold.creator id hid)⟩, trivial⟩

theorem publishPlanStage_safe {J : Job} {L : State → Prop} (hL : Lasting L)
    (creates : (S.cmd p).creates = some task) (valid : validName task = true)
    (hst : J.status = some .pending)
    (complete : ∀ f : Files, f.job (planJobStage task) = some J →
      f.plannerJobIsComplete task (planJobStage task) token = true)
    (token_ : ∀ t, L t → TaskToken task token t) (hs : Held p (planJobStage task) J L s) :
    S.Safe p (publishPlanStage task) (fun _ t => Held p (.named (planJobId task)) J L t) s := by
  have may : ∀ t, Held p (planJobStage task) J L t → Allowed S.hexdigest S.cmd p t
      (.renameJob (planJobStage task) (.named (planJobId task))) := by
    intro t ht
    obtain ⟨T, hT, htok⟩ := token_ t ht.known
    exact ⟨task, token, J, T, ht.hold.creator _ rfl, creates, valid, rfl, rfl, ht.hold,
      complete _ ht.hold.present, hst, hT, htok⟩
  refine Safe.write (Held.stable hL) hs (fun t ht _ => may t ht) (fun t f' ht _ hf => ?_)
    fun _ _ _ => trivial
  have hact : S.act p t (t.record p
      (.wrote (.renameJob (planJobStage task) (.named (planJobId task)))) f') := .write (may t ht) hf
  refine ⟨⟨?_, ht.hold.holder, by rintro x ⟨⟩⟩, hL ht.known (Setting.act_grows' hact)⟩
  simp only [Write.apply] at hf
  split at hf
  · obtain ⟨J₁, h₁, rfl⟩ := Option.map_eq_some_iff.1 hf
    rw [ht.hold.present] at h₁
    cases h₁
    simp [planJobStage]
  · cases hf

/-- `finish_commit` publishes the planner job after its task and removes `.creating` last, under the
planner job's control lock. -/
theorem finishCommit_safe {publishTask publishJob : Bool}
    (both : publishTask = true → publishJob = true)
    (creates : (S.cmd p).creates = some task) (valid : validName task = true)
    (hs : Committable p task token publishTask publishJob s) :
    S.Safe p (finishCommit task token publishTask publishJob) (fun _ _ => True) s := by
  refine Safe.call (acquireCommitJob_safe both hs) ?_
  rintro - t ⟨J, ht, hstatus, hready⟩
  refine Safe.ifSet (R := Held p (commitJob task publishJob) J fun _ => True) (fun _ => ht)
    (fun hp => publishTaskStage_safe ht (hready hp)) fun t ht => ?_
  refine Safe.get (Held.stable (lasting_const True)) ht fun t ht hv => Safe.require fun hcomplete => ?_
  -- the published task carries the token, whatever happens to `.creating` from now on
  obtain ⟨T, hT, hcreating⟩ := Files.taskIsComplete_creating hcomplete
  have hL : Lasting fun t => TaskToken task token t ∧ MayFinish task token t :=
    (lasting_taskToken task token).and (lasting_mayFinish task token)
  have ht : Held p (commitJob task publishJob) J
      (fun t => TaskToken task token t ∧ MayFinish task token t)
      t := ⟨ht.hold, ⟨T, hT, hv.creating hT hcreating⟩, T, hT, Or.inr hcreating⟩
  refine Safe.get (Held.stable hL) ht fun t ht _ => Safe.require fun hbase => ?_
  obtain ⟨J₀, hJ₀, base⟩ := Files.plannerJobHasCompleteBase_iff.1 hbase
  rw [ht.hold.present] at hJ₀
  obtain rfl := Option.some.inj hJ₀
  refine Safe.call (acquireTaskControlLock_safe hL ht task) fun _ t ht => ?_
  refine Safe.call (releaseTaskControlLock_safe hL ⟨ht.hold, ht.known.1⟩ task) fun _ t ht => ?_
  refine Safe.get (Held.stable hL) ⟨ht.hold, ht.known⟩ fun t ht _ => ?_
  rw [ht.hold.jobFile]
  -- a planner job without a status gets `pending`, a staged one has no other
  refine Safe.ifSet (R := fun t => ∃ J', Held p (commitJob task publishJob) J'
      (fun t => TaskToken task token t ∧ MayFinish task token t) t ∧ PlannerBase J' task token ∧
      (publishJob = true → J'.status = some .pending)) ?_ ?_ ?_
  · intro hfresh
    refine ⟨J, ht, base, fun hp => ?_⟩
    rcases hstatus hp with h | h
    · simp [h] at hfresh
    · exact h
  · intro hfresh
    refine (writeStatus_safe hL ht .pending fun t _ _ st hst => ?_).weaken fun _ t ht => ?_
    · simp [hst] at hfresh
    · exact ⟨_, ⟨ht.hold, ht.known.1⟩, ⟨base.transaction, base.workspace, base.spec, base.role,
        base.taskId, base.log, base.controlLock⟩, fun _ => rfl⟩
  rintro t ⟨J', ht, base, hpending⟩
  refine Safe.get (Held.stable hL) ht fun t ht _ => Safe.require fun hcomplete => ?_
  refine Safe.ifSet (R := Held p (.named (planJobId task)) J'
    fun t => TaskToken task token t ∧ MayFinish task token t) ?_ ?_ ?_
  · rintro rfl
    exact ht
  · rintro rfl
    refine publishPlanStage_safe hL creates valid (hpending rfl) (fun f hf => ?_) (fun t ht => ht.1) ht
    rw [← hcomplete]
    exact Files.plannerJobIsComplete_congr (hf.trans ht.hold.present.symm)
  intro t ht
  refine Safe.get (Held.stable hL) ht fun t ht _ => Safe.require fun _ => ?_
  refine Safe.write (Held.stable hL) ht (fun t ht _ => ?_) (fun t f' ht _ hf => ?_) fun _ _ _ =>
    trivial
  · obtain ⟨T, hT, hc⟩ := ht.known.2
    refine ⟨task, token, J', rfl, ht.hold, base.transaction, base.taskId, fun T' hT' => ?_⟩
    rw [hT] at hT'
    cases hT'
    exact hc
  · refine Safe.require fun _ => ?_
    exact Safe.unlock (f := fun _ => pure ()) ((lasting_const True).stable p) trivial fun _ _ =>
      trivial

theorem Files.taskIsComplete_ready (hc : s.files.createLock = some p)
    (h : s.files.taskIsComplete (taskStage task) token true = true) : TaskReady p task token s := by
  obtain ⟨T, hT, hcr, whole⟩ := Files.taskIsComplete_open h
  exact ⟨hc, T, hT, hcr, whole⟩

theorem Files.plannerJobIsStaged_ready (hc : s.files.createLock = some p)
    (h : s.files.plannerJobIsStaged task (planJobStage task) token = true) : PlanReady p task s := by
  simp only [Files.plannerJobIsStaged, Bool.and_eq_true] at h
  obtain ⟨J, hJ, -⟩ := Files.plannerJobHasCompleteBase_iff.1 h.1
  refine ⟨hc, J, hJ, ?_⟩
  have hst := h.2
  simp only [Files.jobFile, hJ, Option.bind_some] at hst
  cases hs : J.status with
  | none => exact Or.inl rfl
  | some st =>
    rw [hs] at hst
    exact Or.inr (congrArg some (of_decide_eq_true hst))

theorem Creating.owns {L : State → Prop} (h : Creating p L s) : Owns p task {} s :=
  ⟨h.creator, by rintro ⟨⟩, by rintro ⟨⟩⟩

theorem recoverInterruptedCommit_safe (creates : (S.cmd p).creates = some task)
    (valid : validName task = true) (hs : Creating p (fun _ => True) s) :
    S.Safe p (recoverInterruptedCommit task)
      (fun r t => r = false → Creating p (fun _ => True) t) s := by
  have stable := Creating.stable (p := p) (lasting_const True)
  unfold recoverInterruptedCommit
  refine Safe.get stable hs fun t ht _ => ?_
  refine Safe.get stable ht fun t ht _ => ?_
  refine Safe.get stable ht fun t ht _ => ?_
  refine Safe.get stable ht fun t ht _ => ?_
  refine Safe.call (signalPoint_safe stable ht fun t ht => ht.owns) fun _ t ht => ?_
  split
  · exact fun _ => ht
  · refine Safe.get stable ht fun t ht _ => Safe.get stable ht fun t ht _ =>
      Safe.get stable ht fun t ht _ => Safe.require fun _ => ?_
    refine Safe.call (signalPoint_safe stable ht fun t ht => ht.owns) fun _ t ht => ?_
    refine Safe.call (finishCommit_safe (by rintro ⟨⟩) creates valid ⟨by rintro ⟨⟩, by rintro ⟨⟩⟩) ?_
    exact fun _ _ _ => by rintro ⟨⟩
  · -- the task is published, its planner job still staged
    refine Safe.get stable ht fun t ht _ => Safe.get stable ht fun t ht _ =>
      Safe.get stable ht fun t ht _ => Safe.require fun hcheck => ?_
    simp only [Bool.and_eq_true] at hcheck
    have ready := Files.plannerJobIsStaged_ready ht.creator hcheck.2
    refine Safe.call (signalPoint_safe PlanReady.stable ready fun t ht => ?_) fun _ t ht => ?_
    · exact ⟨ht.1, by rintro ⟨⟩, by rintro ⟨⟩⟩
    refine Safe.call (finishCommit_safe (by rintro ⟨⟩) creates valid ⟨by rintro ⟨⟩, fun _ => ht⟩) ?_
    exact fun _ _ _ => by rintro ⟨⟩
  · -- only the task is staged: its planner stage is made anew
    refine Safe.get stable ht fun t ht _ => ?_
    generalize t.files.catTask (taskStage task) (·.creating) = token
    refine Safe.get stable ht fun t ht _ => Safe.require fun hcheck => ?_
    simp only [Bool.and_eq_true] at hcheck
    have staged : TaskStaged p task { transactionId := token } t :=
      ⟨Files.taskIsComplete_ready ht.creator hcheck.2, by rintro ⟨⟩⟩
    refine Safe.call (createPlannerJobStage_safe rfl staged) ?_
    rintro v t ⟨rfl, ht⟩
    have owns : ∀ t, BothStaged p task { transactionId := token, ownPlanStage := true } t →
        Owns p task { transactionId := token, ownPlanStage := true } t := fun t ht => ht.owns
    refine Safe.call (signalPoint_safe BothStaged.stable ht owns) fun _ t ht => ?_
    refine Safe.get BothStaged.stable ht fun t ht _ => Safe.requireOwned (owns t ht) fun _ => ?_
    refine Safe.call (signalPoint_safe BothStaged.stable ht owns) fun _ t ht => ?_
    refine Safe.call (finishCommit_safe (fun _ => rfl) creates valid
      ⟨fun _ => ht.staged.ready, fun _ => ht.plan⟩) ?_
    exact fun _ _ _ => by rintro ⟨⟩
  · -- both are staged
    refine Safe.get stable ht fun t ht _ => ?_
    generalize t.files.catTask (taskStage task) (·.creating) = token
    refine Safe.get stable ht fun t ht _ => ?_
    have hready : t.files.taskIsComplete (taskStage task) token true = true →
        TaskReady p task token t := Files.taskIsComplete_ready ht.creator
    have stable' : Stable p fun u => Creating p (fun _ => True) u ∧
        (t.files.taskIsComplete (taskStage task) token true = true → TaskReady p task token u) :=
      fun _ _ h hi => ⟨stable h.1 hi, fun hc => TaskReady.stable (h.2 hc) hi⟩
    refine Safe.get stable' ⟨ht, hready⟩ fun u hu _ => Safe.require fun hcheck => ?_
    simp only [Bool.and_eq_true] at hcheck
    have commit : Committable p task token true true u :=
      ⟨fun _ => hu.2 hcheck.1.2, fun _ => Files.plannerJobIsStaged_ready hu.1.creator hcheck.2⟩
    refine Safe.call (signalPoint_safe Committable.stable commit fun t ht => ?_) fun _ t ht => ?_
    · exact ⟨(ht.planReady rfl).1, by rintro ⟨⟩, by rintro ⟨⟩⟩
    refine Safe.call (finishCommit_safe (fun _ => rfl) creates valid ht) ?_
    exact fun _ _ _ => by rintro ⟨⟩
  · trivial

theorem createTask_safe {spec : String} (hspec : spec ≠ "") (creates : (S.cmd p).creates = some task)
    (valid : validName task = true) (hs : Creating p (fun _ => True) s) :
    S.Safe p (createTask task spec) (fun _ _ => True) s := by
  have stable := Creating.stable (p := p) (lasting_const True)
  refine Safe.ask stable hs fun t stamp ht => ?_
  generalize newTransaction task stamp = token
  refine Safe.call (createTaskStage_safe hspec rfl rfl ht) ?_
  rintro v t ⟨rfl, ht⟩
  have owns₁ : ∀ t, TaskStaged p task { transactionId := token, ownTaskStage := true } t →
      Owns p task { transactionId := token, ownTaskStage := true } t := fun t ht => ht.owns rfl
  refine Safe.call (signalPoint_safe TaskStaged.stable ht owns₁) fun _ t ht => ?_
  refine Safe.call (createPlannerJobStage_safe rfl ht) ?_
  rintro v t ⟨rfl, ht⟩
  have owns : ∀ t, BothStaged p task
      { transactionId := token, ownTaskStage := true, ownPlanStage := true } t →
      Owns p task { transactionId := token, ownTaskStage := true, ownPlanStage := true } t :=
    fun t ht => ht.owns
  refine Safe.call (signalPoint_safe BothStaged.stable ht owns) fun _ t ht => ?_
  refine Safe.get BothStaged.stable ht fun t ht _ => Safe.requireOwned (owns t ht) fun _ => ?_
  refine Safe.get BothStaged.stable ht fun t ht _ => Safe.requireOwned (owns t ht) fun _ => ?_
  refine Safe.call (signalPoint_safe BothStaged.stable ht owns) fun _ t ht => ?_
  exact finishCommit_safe (fun _ => rfl) creates valid ⟨fun _ => ht.staged.ready, fun _ => ht.plan⟩

theorem taskCreate_safe (specFile spec : String) (creates : (S.cmd p).creates = some task) :
    S.Safe p (taskCreate task specFile spec) (fun _ _ => True) s := by
  have nothing : Stable p fun _ => True := (lasting_const True).stable p
  refine Safe.require fun _ => Safe.require fun hspec => Safe.require fun valid => ?_
  refine Safe.lock nothing trivial (fun _ _ => trivial) (fun t _ hfree => ?_) fun _ _ => trivial
  have held : Creating p (fun _ => True) (t.record p (.locked .create) (t.files.grant p .create)) :=
    ⟨rfl, trivial⟩
  refine Safe.require fun _ => ?_
  refine Safe.call (signalPoint_safe (Creating.stable (lasting_const True)) held fun t ht =>
    ht.owns) ?_
  intro _ t ht
  refine Safe.call (recoverInterruptedCommit_safe creates valid ht) fun recovered t ht => ?_
  cases recovered with
  | true =>
    exact Safe.say nothing trivial (fun _ _ _ => trivial) fun _ _ =>
      Safe.say (f := fun _ => pure ()) nothing trivial (fun _ _ _ => trivial) fun _ _ => trivial
  | false =>
    refine Safe.call (createTask_safe (by simpa using hspec) creates valid (ht rfl)) fun _ t _ => ?_
    exact Safe.say (f := fun _ => pure ()) nothing trivial (fun _ _ _ => trivial) fun _ _ => trivial

end

end Cyclo.AgentWs
