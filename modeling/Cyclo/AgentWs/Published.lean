import Cyclo.AgentWs.Ownership

/-! What the published directories contain: every published job is complete, is published once, and
a planner job's task was staged with the same token. -/
namespace Cyclo.AgentWs
open Cyclo.Process

theorem validName_append {a b : String} (ha : validName a = true)
    (hb : b.toList.all fun d => d.isAlphanum || d = '.' || d = '_' || d = '-') :
    validName (a ++ b) = true := by
  unfold validName at ha ⊢
  rw [String.toList_append]
  cases hl : a.toList with
  | nil => simp [hl] at ha
  | cons c cs =>
    rw [hl] at ha
    simp only [List.cons_append, List.all_append, Bool.and_eq_true] at ha ⊢
    exact ⟨ha.1, ha.2, hb⟩

theorem validName_planJobId {task : String} (h : validName task = true) :
    validName (planJobId task) = true :=
  validName_append h (by decide)

/-- The published job `id` has all its files. -/
structure Job.Whole (id : String) (J : Job) : Prop where
  id : validName id = true
  role : ∃ role, J.role = some role ∧ validName role = true
  taskId : ∃ task, J.taskId = some task ∧ validName task = true
  spec : ∃ spec, J.spec = some spec ∧ spec ≠ ""
  log : J.log.isSome
  workspace : J.workspace = true
  controlLock : J.controlLock = true
  status : J.status.isSome

theorem Job.Whole.grows {id : String} {J J' : Job} (h : J.Whole id) (hg : JobGrows J J') :
    J'.Whole id where
  id := h.id
  role := hg.role ▸ h.role
  taskId := hg.taskId ▸ h.taskId
  spec := hg.spec ▸ h.spec
  log := hg.log h.log
  workspace := hg.workspace.trans h.workspace
  controlLock := hg.controlLock h.controlLock
  status := hg.status h.status

theorem JobCreateArgs.Valid.whole {a : JobCreateArgs} (h : a.Valid) : a.build.Whole a.jobId where
  id := h.jobId
  role := ⟨a.role, rfl, h.role⟩
  taskId := ⟨a.taskId, rfl, h.taskId⟩
  spec := ⟨a.spec, rfl, h.spec⟩
  log := rfl
  workspace := rfl
  controlLock := rfl
  status := rfl

/-- The files of an initial planner job that are never replaced. -/
structure PlannerBase (J : Job) (task token : String) : Prop where
  transaction : J.transaction = some token
  workspace : J.workspace = true
  spec : ∃ spec, J.spec = some spec ∧ spec ≠ ""
  role : J.role = some "planner"
  taskId : J.taskId = some task
  log : J.log.isSome
  controlLock : J.controlLock = true

theorem Files.plannerJobHasCompleteBase_iff {f : Files} {task token : String} {j : Entry} :
    f.plannerJobHasCompleteBase task j token = true ↔
      ∃ J, f.job j = some J ∧ PlannerBase J task token := by
  unfold Files.plannerJobHasCompleteBase
  cases f.job j with
  | none => simp
  | some J =>
    simp only [Option.any_some, Bool.and_eq_true, decide_eq_true_eq, Option.any_eq_true,
      Option.some.injEq, exists_eq_left']
    exact ⟨fun ⟨⟨⟨⟨⟨⟨h₁, h₂⟩, h₃⟩, h₄⟩, h₅⟩, h₆⟩, h₇⟩ => ⟨h₁, h₂, h₃, h₄, h₅, h₆, h₇⟩,
      fun ⟨h₁, h₂, h₃, h₄, h₅, h₆, h₇⟩ => ⟨⟨⟨⟨⟨⟨h₁, h₂⟩, h₃⟩, h₄⟩, h₅⟩, h₆⟩, h₇⟩⟩

theorem PublishesPlan.base {cmd : ℕ → Command} {p : ℕ} {f : Files} {src dst : Entry}
    {task token : String} {J : Job} {T : Task} (h : PublishesPlan cmd p f src dst task token J T) :
    PlannerBase J task token := by
  have hc := h.complete
  simp only [Files.plannerJobIsComplete, Bool.and_eq_true] at hc
  obtain ⟨J', hJ', hb⟩ := Files.plannerJobHasCompleteBase_iff.1 hc.1
  rw [h.hold.present] at hJ'
  cases hJ'
  exact hb

theorem JobPublication.whole {hexdigest : String → String} {cmd : ℕ → Command} {p : ℕ} {f : Files}
    {id : String} {w : Write} {J : Job} (h : JobPublication hexdigest cmd p f id w J) :
    J.Whole id := by
  cases h with
  | create valid hid _ => exact hid ▸ valid.whole
  | @plan src task token _ T h =>
    have base := h.base
    have hid : id = planJobId task := by simpa using h.named
    exact { id := hid ▸ validName_planJobId h.valid
            role := ⟨"planner", base.role, by decide⟩
            taskId := ⟨task, base.taskId, h.valid⟩
            spec := base.spec
            log := base.log
            workspace := base.workspace
            controlLock := base.controlLock
            status := by simp [h.status] }

section
variable {S : Setting} {s : State}

theorem Setting.Visited.whole (h : S.Visited s) {id : String} {J : Job}
    (hJ : s.files.job (.named id) = some J) : J.Whole id := by
  suffices hall : ∀ J, s.files.job (.named id) = some J → J.Whole id from hall J hJ
  refine Visits.invariant (I := fun s => ∀ J, s.files.job (.named id) = some J → J.Whole id) h ?_ ?_
  · intro J hJ
    obtain ⟨a, valid, rfl, -, rfl⟩ := S.fresh.job id J hJ
    exact valid.whole
  · intro p s t _ ih ha J hJ
    cases h₀ : s.files.job (.named id) with
    | some J₀ =>
      obtain ⟨J', hJ', hg⟩ := (Setting.act_grows ha).jobs id J₀ h₀
      rw [hJ] at hJ'
      cases hJ'
      exact (ih J₀ h₀).grows hg
    | none =>
      cases Setting.namedStep ha id with
      | kept hdata _ => simp [hJ, h₀] at hdata
      | changed hold => exact absurd hold.present (by simp [h₀])
      | published _ hp hJ' _ =>
        rw [hJ] at hJ'
        cases hJ'
        exact hp.whole

/-- Only a claim takes a job away from `pending`: the claim of a notice waits for its source, that
of an initial planner job for the creation of its task. -/
theorem NamedStep.unclaimed {p : ℕ} {s t : State} {id : String} {J J' : Job}
    (h : NamedStep S p s t id) (hJ : s.files.job (.named id) = some J)
    (hJ' : t.files.job (.named id) = some J') (hst : J'.status ≠ some .pending) :
    J.status ≠ some .pending ∨ NoticeReady s.files J ∧ TaskCreated s.files (.named id) J := by
  cases h with
  | kept hdata _ =>
    rw [hJ, hJ', Option.map_some, Option.map_some, Option.some.injEq] at hdata
    simp only [Job.data, Job.mk.injEq] at hdata
    exact Or.inl (hdata.1 ▸ hst)
  | changed hold hc h₁ _ =>
    rw [hold.present] at hJ
    rw [hJ'] at h₁
    cases hJ
    cases h₁
    cases hc with
    | @status st may =>
      cases st with
      | claimed => exact Or.inr may.2.2.2
      | running =>
        left
        rw [show J.status = some .claimed from may]
        simp
      | done | failed =>
        obtain ⟨⟨st, hst₀, hact⟩, -⟩ := may
        left
        rintro hp
        rw [hst₀] at hp
        cases hp
        cases hact
      | pending => exact absurd rfl hst
      | other => exact may.elim
    | agentId | noAgentId | lock | unlock | log => exact Or.inl hst
  | published hn => simp [hn] at hJ

/-- What is published is there, and no later change publishes it again. -/
structure Once (present : Files → Prop) (publishes : Write → Prop) (s : State) : Prop where
  present : ∀ p w, (p, .wrote w) ∈ s.trace → publishes w → present s.files
  once : ∀ later earlier p w, s.trace = later ++ (p, .wrote w) :: earlier → publishes w →
    ∀ q w', (q, .wrote w') ∈ later → ¬ publishes w'

/-- Something that stays once it is there, and is published only where it is not, is published at
most once. -/
theorem Setting.Visited.once {present : Files → Prop} {publishes : Write → Prop} (h : S.Visited s)
    (stays : ∀ {p s t}, S.act p s t → present s.files → present t.files)
    (adds : ∀ {p s w f}, Allowed S.hexdigest S.cmd p s w → w.apply s.files = some f →
      publishes w → ¬ present s.files ∧ present f) : Once present publishes s := by
  refine Visits.invariant (I := Once present publishes) h ⟨?_, ?_⟩ ?_
  · simp [S.fresh.trace]
  · simp [S.fresh.trace]
  · intro p s t _ ih ha
    have add : ∀ e, t.trace = (p, e) :: s.trace →
        (∀ w, e = .wrote w → publishes w → ¬ present s.files ∧ present t.files) →
        Once present publishes t := by
      intro e ht he
      refine ⟨fun q w hw hp => ?_, fun later earlier q w hw hp q' w' hw' hp' => ?_⟩
      · rw [ht] at hw
        rcases List.mem_cons.1 hw with hw | hw
        · cases hw
          exact (he w rfl hp).2
        · exact stays ha (ih.present q w hw hp)
      · rw [ht] at hw
        cases later with
        | nil => cases hw'
        | cons a later =>
          obtain ⟨rfl, hs⟩ := List.cons.inj hw
          rcases List.mem_cons.1 hw' with hw' | hw'
          · cases hw'
            exact (he w' rfl hp').1 (ih.present q w (by simp [hs]) hp)
          · exact ih.once later earlier q w hs hp q' w' hw' hp'
    cases ha with
    | idle => exact ih
    | write hw hf => exact add _ rfl (by rintro w ⟨⟩ hp; exact adds hw hf hp)
    | lock hl may => exact add _ rfl (by rintro w ⟨⟩)
    | free l => exact ⟨fun q w hw hp => stays (.free l) (ih.present q w hw hp), ih.once⟩
    | say _ => exact add _ rfl (by rintro w ⟨⟩)
    | quit => exact ⟨fun q w hw hp => stays .quit (ih.present q w hw hp), ih.once⟩

/-- The change publishes the job directory `id`. -/
def Write.PublishesJob (id : String) (w : Write) : Prop :=
  (∃ build, w = .publishJob (.named id) build) ∨ ∃ src, w = .renameJob src (.named id)

/-- The change publishes the task directory `id`. -/
def Write.PublishesTask (id : String) (w : Write) : Prop :=
  ∃ src, w = .renameTask src (.named id)

theorem Setting.Visited.jobOnce (h : S.Visited s) (id : String) :
    Once (fun f => f.job (.named id) ≠ none) (Write.PublishesJob id) s := by
  refine h.once ?_ ?_
  · intro p s t ha hs
    obtain ⟨J, hJ⟩ := Option.ne_none_iff_exists'.1 hs
    obtain ⟨J', hJ', -⟩ := (Setting.act_grows ha).jobs id J hJ
    simp [hJ']
  · intro p s w f hw hf hp
    have hk : .named id ∈ w.jobs := by
      rcases hp with ⟨build, rfl⟩ | ⟨src, rfl⟩ <;> simp [Write.jobs]
    rcases hw.named_cases hf hk with ⟨J, J', -, hc, -⟩ | ⟨hn, J, -, hJ⟩
    · rcases hp with ⟨build, rfl⟩ | ⟨src, rfl⟩ <;> cases hc
    · exact ⟨fun hs => hs hn, by simp [hJ]⟩

theorem Setting.Visited.taskOnce (h : S.Visited s) (id : String) :
    Once (fun f => f.task (.named id) ≠ none) (Write.PublishesTask id) s := by
  refine h.once ?_ ?_
  · intro p s t ha hs
    obtain ⟨T, hT⟩ := Option.ne_none_iff_exists'.1 hs
    obtain ⟨T', hT', -⟩ := (Setting.act_grows ha).tasks id T hT
    simp [hT']
  · rintro p s w f hw hf ⟨src, rfl⟩
    obtain ⟨-, task, token, rfl, hdst, -⟩ := hw
    simp only [Write.apply] at hf
    split at hf
    · obtain ⟨T, _, rfl⟩ := Option.map_eq_some_iff.1 hf
      exact ⟨fun hs => hs ‹_›, by simp [taskStage]⟩
    · cases hf

/-- The files of a task directory, the two sides of its lock aside. -/
def Task.data (T : Task) : Task := { T with holder := none, controlLock := false }

/-- A task directory that was staged is complete. -/
structure Task.Whole (T : Task) : Prop where
  spec : ∃ spec, T.spec = some spec ∧ spec ≠ ""
  log : T.log.isSome
  state : T.state = some "open"

/-- Where a task directory comes from: it was there, it was moved, or it has just been staged. -/
inductive TaskOrigin (s : State) (k : Entry) (T' : Task) : Prop
  | same {T : Task} : s.files.task k = some T → T'.token = T.token →
      (T'.creating = T.creating ∨ T'.creating = none) → TaskOrigin s k T'
  | moved {task token : String} : k = .named task → s.files.task (taskStage task) = some T' →
      T'.creating = some token → T'.Whole → TaskOrigin s k T'
  | staged {task token spec : String} : k = taskStage task → T' = taskBuild token spec →
      TaskOrigin s k T'

theorem Files.taskIsComplete_open {f : Files} {t : Entry} {token : String}
    (h : f.taskIsComplete t token true = true) :
    ∃ T, f.task t = some T ∧ T.creating = some token ∧ T.Whole := by
  unfold Files.taskIsComplete at h
  obtain ⟨T, hT, hc⟩ := (Option.any_eq_true ..).1 h
  simp only [Bool.and_eq_true, decide_eq_true_eq, Option.any_eq_true, if_true] at hc
  obtain ⟨⟨⟨h₁, h₂⟩, h₃⟩, h₄⟩ := hc
  exact ⟨T, hT, h₁, h₂, h₃, h₄⟩

theorem SameFiles.taskData {q : ℕ} {f f' : Files} (h : SameFiles q f f') (k : Entry) :
    (f'.task k).map Task.data = (f.task k).map Task.data := by
  cases hk : f.task k with
  | none => rw [h.noTask k hk]
  | some T =>
    obtain ⟨T', h', hc⟩ := h.task k T hk
    rw [h']
    simp only [Task.contents, Task.mk.injEq] at hc
    simp [Task.data, hc]

theorem Files.grant_taskData (f : Files) (p : ℕ) (l : LockName) (k : Entry) :
    ((f.grant p l).task k).map Task.data = (f.task k).map Task.data := by
  cases l with
  | task t =>
    by_cases hk : k = t
    · subst hk
      cases h : f.task k <;> simp [Files.grant, h, Task.data]
    · simp [Files.grant, hk]
  | job j | create => rfl

theorem TaskOrigin.of_data {s : State} {k : Entry} {T' : Task} {f : Files}
    (hd : (f.task k).map Task.data = (s.files.task k).map Task.data) (h : f.task k = some T') :
    TaskOrigin s k T' := by
  rw [h] at hd
  obtain ⟨T, hT, he⟩ := Option.map_eq_some_iff.1 hd.symm
  simp only [Task.data, Task.mk.injEq] at he
  exact .same hT he.2.1.symm (Or.inl he.1.symm)

theorem Allowed.taskOrigin {hexdigest : String → String} {cmd : ℕ → Command} {p : ℕ} {w : Write}
    {f : Files} {k : Entry} {T' : Task} (h : Allowed hexdigest cmd p s w)
    (hf : w.apply s.files = some f) (hT' : f.task k = some T') : TaskOrigin s k T' := by
  by_cases hk : k ∈ w.tasks
  swap
  · exact .of_data (by rw [(Write.apply_frame hf).2.1 k hk]) hT'
  cases w with
  | publishTask t build =>
    obtain rfl := List.mem_singleton.1 hk
    obtain ⟨-, task, token, spec, rfl, rfl, -⟩ := h
    simp only [Write.apply] at hf
    split at hf <;> cases hf
    exact .staged rfl (by simpa using hT'.symm)
  | renameTask src dst =>
    obtain ⟨-, task, token, rfl, rfl, complete⟩ := h
    simp only [Write.apply] at hf
    split at hf
    · obtain ⟨T, hT, rfl⟩ := Option.map_eq_some_iff.1 hf
      by_cases hs : k = taskStage task
      · subst hs
        simp at hT'
      · obtain rfl : k = .named task := by simpa [Write.tasks, hs] using hk
        obtain rfl : T = T' := by simpa [taskStage] using hT'
        obtain ⟨T₁, h₁, hc, whole⟩ := Files.taskIsComplete_open complete
        rw [hT] at h₁
        cases h₁
        exact .moved rfl hT hc whole
    · cases hf
  | removeCreating t =>
    obtain rfl := List.mem_singleton.1 hk
    obtain ⟨T, T₁, hT, h₁, rfl⟩ := Files.onTask_eq_some.1 hf
    obtain rfl : T₁ = T' := by simpa using hT'
    cases h₁
    exact .same hT rfl (Or.inr rfl)
  | unlinkTask t file =>
    obtain rfl := List.mem_singleton.1 hk
    obtain ⟨T, T₁, hT, h₁, rfl⟩ := Files.onTask_eq_some.1 hf
    obtain rfl : T₁ = T' := by simpa using hT'
    cases h₁
    cases file
    case creating => exact .same hT rfl (Or.inr rfl)
    all_goals exact .same hT rfl (Or.inl rfl)
  | removeTask t =>
    obtain rfl := List.mem_singleton.1 hk
    obtain ⟨T, _, rfl⟩ := Option.map_eq_some_iff.1 hf
    simp at hT'
  | setStatus _ _ | setAgentId _ _ | removeAgentId _ | makeLock _ | removeLock _ | appendLog _ _
  | publishJob _ _ | renameJob _ _ | unlinkJob _ _ | removeJob _ => cases hk

theorem Setting.taskOrigin {p : ℕ} {t : State} {k : Entry} {T' : Task} (ha : S.act p s t)
    (hT' : t.files.task k = some T') : TaskOrigin s k T' := by
  cases ha with
  | idle => exact .of_data rfl hT'
  | write hw hf => exact hw.taskOrigin hf hT'
  | lock hl may => exact .of_data (s.files.grant_taskData p _ k) hT'
  | free l => exact .of_data ((s.files.free_same p l).taskData k) hT'
  | say _ => exact .of_data rfl hT'
  | quit => exact .of_data ((s.files.freeAll_same p).taskData k) hT'

/-- `.creating` holds the token the directory was staged with. -/
theorem Setting.Visited.creating (h : S.Visited s) {k : Entry} {T : Task} {x : String}
    (hT : s.files.task k = some T) (hx : T.creating = some x) : T.token = some x := by
  suffices hall : ∀ k T x, s.files.task k = some T → T.creating = some x → T.token = some x from
    hall k T x hT hx
  refine Visits.invariant (I := fun s => ∀ k T x, s.files.task k = some T → T.creating = some x →
    T.token = some x) h ?_ ?_
  · intro k T x hT hx
    cases k with
    | named id => simp [(S.fresh.task id T hT).1] at hx
    | staged id => simp [S.fresh.stagedTask] at hT
  · intro p s t _ ih ha k T' x hT' hx
    cases Setting.taskOrigin ha hT' with
    | same hT htok hc =>
      rcases hc with hc | hc
      · exact htok.trans (ih k _ x hT (hc ▸ hx))
      · simp [hc] at hx
    | moved _ hT _ _ => exact ih _ T' x hT hx
    | staged _ hb =>
      subst hb
      exact hx

/-- A published task that was staged is complete. -/
theorem Setting.Visited.taskWhole (h : S.Visited s) {id : String} {T : Task}
    (hT : s.files.task (.named id) = some T) (htok : T.token ≠ none) : T.Whole := by
  suffices hall : ∀ T, s.files.task (.named id) = some T → T.token ≠ none → T.Whole from
    hall T hT htok
  refine Visits.invariant (I := fun s => ∀ T, s.files.task (.named id) = some T → T.token ≠ none →
    T.Whole) h ?_ ?_
  · intro T hT htok
    exact absurd (S.fresh.task id T hT).2 htok
  · intro p s t _ ih ha T' hT' htok
    cases hs : s.files.task (.named id) with
    | some T =>
      obtain ⟨T₁, h₁, hg⟩ := (Setting.act_grows ha).tasks id T hs
      rw [hT'] at h₁
      cases h₁
      have whole := ih T hs (by rwa [← hg.token])
      exact ⟨hg.spec ▸ whole.spec, hg.log ▸ whole.log, hg.state ▸ whole.state⟩
    | none =>
      cases Setting.taskOrigin ha hT' with
      | same hT _ _ => simp [hs] at hT
      | moved _ _ _ whole => exact whole
      | staged hk _ => cases hk

end

end Cyclo.AgentWs
