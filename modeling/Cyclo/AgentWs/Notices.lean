import Cyclo.AgentWs.Published

/-! The terminal notices of the queue: whose they are, when they can be claimed, and that a
terminal source has one. -/
namespace Cyclo.AgentWs
open Cyclo.Process

section
variable {S : Setting} {s : State}

theorem Allowed.stagedSource {hexdigest : String → String} {cmd : ℕ → Command} {p : ℕ} {w : Write}
    {f : Files} {id : String} {J' : Job} (h : Allowed hexdigest cmd p s w)
    (hf : w.apply s.files = some f) (hJ' : f.job (.staged id) = some J') :
    J'.noticeSource = none ∨
      ∃ J, s.files.job (.staged id) = some J ∧ J'.noticeSource = J.noticeSource := by
  by_cases hk : .staged id ∈ w.jobs
  swap
  · exact Or.inr ⟨J', by rw [← (Write.apply_frame hf).1 _ hk, hJ'], rfl⟩
  have change : ∀ (g : Job → Option Job), s.files.onJob (.staged id) g = some f →
      (∀ J₀ J₁, g J₀ = some J₁ → J₁.noticeSource = J₀.noticeSource) →
      ∃ J, s.files.job (.staged id) = some J ∧ J'.noticeSource = J.noticeSource := by
    intro g hg same
    obtain ⟨J, J₁, hJ, h₁, rfl⟩ := Files.onJob_eq_some.1 hg
    obtain rfl : J₁ = J' := by simpa using hJ'
    exact ⟨J, hJ, same J J₁ h₁⟩
  cases w with
  | setStatus j _ | setAgentId j _ | removeAgentId j | appendLog j _ =>
    obtain rfl := List.mem_singleton.1 hk
    exact Or.inr (change _ hf (by rintro J₀ J₁ ⟨⟩; rfl))
  | makeLock j | removeLock j =>
    obtain rfl := List.mem_singleton.1 hk
    exact Or.inr (change _ hf (by intro J₀ J₁ h; split at h <;> cases h; rfl))
  | unlinkJob j file =>
    obtain rfl := List.mem_singleton.1 hk
    exact Or.inr (change _ hf (by rintro J₀ J₁ ⟨⟩; cases file <;> rfl))
  | removeJob j =>
    obtain rfl := List.mem_singleton.1 hk
    obtain ⟨J, _, rfl⟩ := Option.map_eq_some_iff.1 hf
    simp at hJ'
  | publishJob j build =>
    obtain rfl := List.mem_singleton.1 hk
    obtain ⟨-, task, token, rfl, rfl⟩ := h
    simp only [Write.apply] at hf
    split at hf <;> cases hf
    obtain rfl : planJobBuild task token = J' := by simpa using hJ'
    exact Or.inl rfl
  | renameJob src dst =>
    obtain ⟨task, token, J, T, h⟩ := h
    obtain ⟨rfl, rfl⟩ := And.intro h.staged h.named
    obtain rfl : id = planJobId task := by simpa [Write.jobs, planJobStage] using hk
    simp only [Write.apply] at hf
    split at hf
    · obtain ⟨J₁, _, rfl⟩ := Option.map_eq_some_iff.1 hf
      simp [planJobStage] at hJ'
    · cases hf
  | publishTask _ _ | renameTask _ _ | removeCreating _ | unlinkTask _ _ | removeTask _ => cases hk

theorem Setting.Visited.stagedSource (h : S.Visited s) {id : String} {J : Job}
    (hJ : s.files.job (.staged id) = some J) : J.noticeSource = none := by
  suffices hall : ∀ J, s.files.job (.staged id) = some J → J.noticeSource = none from hall J hJ
  refine Visits.invariant (I := fun s => ∀ J, s.files.job (.staged id) = some J →
    J.noticeSource = none) h ?_ ?_
  · intro J hJ
    simp [S.fresh.stagedJob] at hJ
  · intro p s t _ ih ha J' hJ'
    have of_data : (t.files.job (.staged id)).map Job.data = (s.files.job (.staged id)).map Job.data →
        J'.noticeSource = none := by
      intro hd
      rw [hJ'] at hd
      obtain ⟨J, hJ, he⟩ := Option.map_eq_some_iff.1 hd.symm
      simp only [Job.data, Job.mk.injEq] at he
      rw [← ih J hJ]
      simp_all
    cases ha with
    | idle => exact ih J' hJ'
    | write hw hf =>
      rcases hw.stagedSource hf hJ' with hn | ⟨J, hJ, he⟩
      · exact hn
      · exact he.trans (ih J hJ)
    | lock hl may => exact of_data (s.files.grant_data p _ _)
    | free l => exact of_data ((s.files.free_same p l).data _)
    | say _ => exact ih J' hJ'
    | quit => exact of_data ((s.files.freeAll_same p).data _)

/-- Every job that is no planner's is in use from the start or created by a command. -/
theorem Setting.Visited.inUse (h : S.Visited s) {id role : String} {J : Job}
    (hJ : s.files.job (.named id) = some J) (hr : J.role = some role) (hne : role ≠ "planner") :
    ∃ task, J.taskId = some task ∧ InUse S.cmd S.start task id := by
  suffices hall : ∀ J, s.files.job (.named id) = some J → J.role = some role →
      ∃ task, J.taskId = some task ∧ InUse S.cmd S.start task id from hall J hJ hr
  refine Visits.invariant (I := fun s => ∀ J, s.files.job (.named id) = some J →
    J.role = some role → ∃ task, J.taskId = some task ∧ InUse S.cmd S.start task id) h ?_ ?_
  · intro J hJ hr
    obtain ⟨a, -, rfl, -, rfl⟩ := S.fresh.job id J hJ
    cases hr
    exact ⟨a.taskId, rfl, a, rfl, rfl, hne, Or.inr hJ⟩
  · intro p s t _ ih ha J' hJ' hr
    cases hs : s.files.job (.named id) with
    | some J =>
      obtain ⟨J₁, h₁, hg⟩ := (Setting.act_grows ha).jobs id J hs
      rw [hJ'] at h₁
      cases h₁
      rw [hg.taskId]
      exact ih J hs (hg.role ▸ hr)
    | none =>
      cases Setting.namedStep ha id with
      | kept hdata _ => simp [hJ', hs] at hdata
      | changed hold => exact absurd hold.present (by simp [hs])
      | published _ hp h₁ _ =>
        rw [hJ'] at h₁
        cases h₁
        cases hp with
        | @create a valid hid may =>
          cases hr
          rcases may with hcmd | ⟨job, r, task, X, -, rfl, -⟩
          · exact ⟨a.taskId, rfl, a, hid, rfl, hne, Or.inl ⟨p, hcmd⟩⟩
          · exact absurd rfl hne
        | plan hp =>
          rw [hp.base.role] at hr
          cases hr
          exact absurd rfl hne

/-- The job `id` is the terminal notice of `src`, published as one, and `src` is terminal when the
notice has been claimed. -/
structure IsNotice (hexdigest : String → String) (s : State) (id : String) (N : Job)
    (src task role : String) (X : Job) : Prop where
  named : id = plannerNotificationId hexdigest task src
  notice : NoticeFor N task src role
  worker : role ≠ "planner"
  source : s.files.job (.named src) = some X
  sourceRole : X.role = some role
  sourceTask : X.taskId = some task
  published : ∃ q, (q, .wrote (.publishJob (.named id) (noticeArgs hexdigest task src role).build)) ∈
    s.trace
  claimed : N.status ≠ some .pending → ∃ st, X.status = some st ∧ st.terminal = true

theorem NoticeFor.grows {N N' : Job} {task job role : String} (h : NoticeFor N task job role)
    (hg : JobGrows N N') : NoticeFor N' task job role where
  role := hg.role.trans h.role
  taskId := hg.taskId.trans h.taskId
  source := hg.noticeSource.trans h.source
  spec := hg.spec.trans h.spec
  workspace := hg.workspace.trans h.workspace
  log := hg.log h.log
  controlLock := hg.controlLock h.controlLock

theorem noticeArgs_noticeFor (hexdigest : String → String) (task job role : String) :
    NoticeFor (noticeArgs hexdigest task job role).build task job role := by
  constructor <;> rfl

/-- Nothing is forgotten. -/
theorem Setting.act_trace {p : ℕ} {s t : State} (h : S.act p s t) {e : ℕ × Event}
    (he : e ∈ s.trace) : e ∈ t.trace := by
  obtain ⟨new, ht, -⟩ := (Setting.act_grows h).trace
  rw [ht]
  exact List.mem_append_right _ he

/-- Every marker names the source of a notice. -/
theorem Setting.Visited.isNotice (unique : S.Unique) (h : S.Visited s) {id src : String} {N : Job}
    (hN : s.files.job (.named id) = some N) (hsrc : N.noticeSource = some src) :
    ∃ task role X, IsNotice S.hexdigest s id N src task role X := by
  suffices hall : ∀ N, s.files.job (.named id) = some N → N.noticeSource = some src →
      ∃ task role X, IsNotice S.hexdigest s id N src task role X from hall N hN hsrc
  refine Visits.invariant (I := fun s => ∀ N, s.files.job (.named id) = some N →
    N.noticeSource = some src → ∃ task role X, IsNotice S.hexdigest s id N src task role X) h ?_ ?_
  · intro N hN hsrc
    obtain ⟨a, -, rfl, ha, rfl⟩ := S.fresh.job id N hN
    exact absurd (ha.symm.trans hsrc) (by simp)
  · intro p s t hv ih ha N' hN' hsrc
    have grows := Setting.act_grows ha
    cases hs : s.files.job (.named id) with
    | some N =>
      obtain ⟨N₁, h₁, hg⟩ := grows.jobs id N hs
      rw [hN'] at h₁
      cases h₁
      have hsrc₀ : N.noticeSource = some src := hg.noticeSource ▸ hsrc
      obtain ⟨task, role, X, hi⟩ := ih N hs hsrc₀
      obtain ⟨X', hX', hgX⟩ := grows.jobs src X hi.source
      refine ⟨task, role, X', hi.named, hi.notice.grows hg, hi.worker, hX',
        hgX.role.trans hi.sourceRole, hgX.taskId.trans hi.sourceTask, ?_, fun hst => ?_⟩
      · obtain ⟨q, hq⟩ := hi.published
        exact ⟨q, Setting.act_trace ha hq⟩
      · obtain ⟨st, hX, hterm⟩ : ∃ st, X.status = some st ∧ st.terminal = true := by
          rcases (Setting.namedStep ha id).unclaimed hs hN' hst with hne | ⟨ready, -⟩
          · exact hi.claimed hne
          · obtain ⟨X₀, st, hX₀, hst₀, hterm⟩ := ready src hsrc₀
            rw [hi.source] at hX₀
            cases hX₀
            exact ⟨st, hst₀, hterm⟩
        exact ⟨st, hgX.terminal st hX hterm, hterm⟩
    | none =>
      cases Setting.namedStep ha id with
      | kept hdata _ => simp [hN', hs] at hdata
      | changed hold => exact absurd hold.present (by simp [hs])
      | published _ hp h₁ ht =>
        rw [hN'] at h₁
        cases h₁
        cases hp with
        | @create a valid hid may =>
          rcases may with hcmd | ⟨job, role, task, X, -, rfl, hne, hX, hrole, htask⟩
          · exact absurd ((unique.ordinary hcmd).symm.trans hsrc) (by simp)
          · obtain rfl : job = src := Option.some.inj hsrc
            obtain ⟨X', hX', hgX⟩ := grows.jobs job X hX
            exact ⟨task, role, X', hid.symm, noticeArgs_noticeFor _ _ _ _, hne, hX',
              hgX.role.trans hrole, hgX.taskId.trans htask, ⟨p, by rw [ht]; exact List.mem_cons_self⟩,
              fun hst => absurd rfl hst⟩
        | plan hp =>
          have hst := hp.hold.present
          rw [hp.staged] at hst
          exact absurd ((Setting.Visited.stagedSource hv hst).symm.trans hsrc) (by simp)

/-- The notices of one source are one job. -/
theorem Setting.Visited.notice_unique (unique : S.Unique) (h : S.Visited s) {id id' src : String}
    {N N' : Job} (hN : s.files.job (.named id) = some N) (hN' : s.files.job (.named id') = some N')
    (hsrc : N.noticeSource = some src) (hsrc' : N'.noticeSource = some src) : id = id' := by
  obtain ⟨task, role, X, hi⟩ := h.isNotice unique hN hsrc
  obtain ⟨task', role', X', hi'⟩ := h.isNotice unique hN' hsrc'
  have hX := hi.source
  rw [hi'.source] at hX
  cases hX
  have htask := hi.sourceTask
  rw [hi'.sourceTask] at htask
  cases htask
  exact hi.named.trans hi'.named.symm

/-- Only its notice is published under the notice id of a job in use. -/
theorem Setting.Visited.source_of_id (unique : S.Unique) (h : S.Visited s) {task job : String}
    (used : InUse S.cmd S.start task job) {N : Job}
    (hN : s.files.job (.named (plannerNotificationId S.hexdigest task job)) = some N) :
    N.noticeSource = some job := by
  suffices hall : ∀ N, s.files.job (.named (plannerNotificationId S.hexdigest task job)) = some N →
      N.noticeSource = some job from hall N hN
  refine Visits.invariant (I := fun s => ∀ N,
    s.files.job (.named (plannerNotificationId S.hexdigest task job)) = some N →
    N.noticeSource = some job) h ?_ ?_
  · intro N hN
    exact absurd rfl (unique.initial (by simp [hN]) used)
  · intro p s t hv ih ha N' hN'
    cases hs : s.files.job (.named (plannerNotificationId S.hexdigest task job)) with
    | some N =>
      obtain ⟨N₁, h₁, hg⟩ := (Setting.act_grows ha).jobs _ N hs
      rw [hN'] at h₁
      cases h₁
      exact hg.noticeSource.trans (ih N hs)
    | none =>
      cases Setting.namedStep ha (plannerNotificationId S.hexdigest task job) with
      | kept hdata _ => simp [hN', hs] at hdata
      | changed hold => exact absurd hold.present (by simp [hs])
      | published _ hp h₁ _ =>
        rw [hN'] at h₁
        cases h₁
        cases hp with
        | @create a valid hid may =>
          rcases may with hcmd | ⟨job', role, task', X, -, rfl, hne, hX, hrole, htask⟩
          · exact absurd hid (unique.created hcmd used)
          · obtain ⟨task₁, h₁, used'⟩ := Setting.Visited.inUse hv hX hrole hne
            rw [htask] at h₁
            cases h₁
            exact congrArg some (unique.notices used' used hid)
        | plan hp =>
          exact absurd (by simpa using hp.named.symm) (unique.planned hp.creates used)

theorem Setting.Visited.notice_of_id (unique : S.Unique) (h : S.Visited s) {job task role : String}
    {N X : Job} (hX : s.files.job (.named job) = some X) (hrole : X.role = some role)
    (hne : role ≠ "planner") (htask : X.taskId = some task)
    (hN : s.files.job (.named (plannerNotificationId S.hexdigest task job)) = some N) :
    IsNotice S.hexdigest s (plannerNotificationId S.hexdigest task job) N job task role X := by
  obtain ⟨task₁, h₁, used⟩ := h.inUse hX hrole hne
  rw [htask] at h₁
  cases h₁
  obtain ⟨task', role', X', hi⟩ := h.isNotice unique hN (h.source_of_id unique used hN)
  have hX' := hi.source
  rw [hX] at hX'
  cases hX'
  obtain rfl := Option.some.inj (htask.symm.trans hi.sourceTask)
  obtain rfl := Option.some.inj (hrole.symm.trans hi.sourceRole)
  exact hi

/-- Before the terminal status `st` of the job `id` was written its notice had been published. -/
def NoticeFirst (hexdigest : String → String) (trace : List (ℕ × Event)) (id : String) (st : Status)
    (task role : String) : Prop :=
  ∃ later earlier p q, trace = later ++ (p, .wrote (.setStatus (.named id) st)) :: earlier ∧
    (q, .wrote (.publishJob (.named (plannerNotificationId hexdigest task id))
      (noticeArgs hexdigest task id role).build)) ∈ earlier

/-- A terminal job that is no planner's has its notice, and had it first. -/
def Announced (hexdigest : String → String) (s : State) (id : String) (J : Job) (st : Status) : Prop :=
  J.role = some "planner" ∨ ∃ task role N, J.role = some role ∧ J.taskId = some task ∧
    s.files.job (.named (plannerNotificationId hexdigest task id)) = some N ∧
    NoticeFor N task id role ∧ NoticeFirst hexdigest s.trace id st task role

theorem Announced.grows {p : ℕ} {s t : State} {id : String} {J J' : Job} {st : Status}
    (h : Announced S.hexdigest s id J st) (ha : S.act p s t) (hg : JobGrows J J') :
    Announced S.hexdigest t id J' st := by
  rcases h with hp | ⟨task, role, N, hr, ht, hN, hn, later, earlier, q, r, htrace, hq⟩
  · exact Or.inl (hg.role.trans hp)
  · obtain ⟨N', hN', hgN⟩ := (Setting.act_grows ha).jobs _ N hN
    obtain ⟨new, hnew, -⟩ := (Setting.act_grows ha).trace
    refine Or.inr ⟨task, role, N', hg.role.trans hr, hg.taskId.trans ht, hN', hn.grows hgN,
      new ++ later, earlier, q, r, ?_, hq⟩
    rw [hnew, htrace, List.append_assoc]

theorem Setting.Visited.announced (unique : S.Unique) (h : S.Visited s) {id : String} {J : Job}
    {st : Status} (hJ : s.files.job (.named id) = some J) (hst : J.status = some st)
    (hterm : st.terminal = true) : Announced S.hexdigest s id J st := by
  suffices hall : ∀ J st, s.files.job (.named id) = some J → J.status = some st →
      st.terminal = true → Announced S.hexdigest s id J st from hall J st hJ hst hterm
  refine Visits.invariant (I := fun s => ∀ J st, s.files.job (.named id) = some J →
    J.status = some st → st.terminal = true → Announced S.hexdigest s id J st) h ?_ ?_
  · intro J st hJ hst hterm
    obtain ⟨a, -, -, -, rfl⟩ := S.fresh.job id J hJ
    cases hst
    cases hterm
  · intro p s t hv ih ha J' st hJ' hst hterm
    have kept : ∀ J, s.files.job (.named id) = some J → J.status = some st →
        Announced S.hexdigest t id J' st := by
      intro J hJ hs
      obtain ⟨J₁, h₁, hg⟩ := (Setting.act_grows ha).jobs id J hJ
      rw [hJ'] at h₁
      cases h₁
      exact (ih J st hJ hs hterm).grows ha hg
    -- the write of a terminal status, guarded by the notice
    have settled : ∀ {J : Job}, s.files.job (.named id) = some J →
        (∃ job, Entry.named id = .named job ∧ Noticed S.hexdigest s.files job J) →
        J' = { J with status := some st } →
        t.trace = (p, .wrote (.setStatus (.named id) st)) :: s.trace →
        Announced S.hexdigest t id J' st := by
      rintro J hJ ⟨job, hjob, hn⟩ rfl ht
      cases hjob
      rcases hn with hp | ⟨role, task, N, hr, htask, hN, hn⟩
      · exact Or.inl hp
      · by_cases hne : role = "planner"
        · exact Or.inl (hne ▸ hr)
        · obtain ⟨q, hq⟩ := (Setting.Visited.notice_of_id unique hv hJ hr hne htask hN).published
          obtain ⟨N', hN', hgN⟩ := (Setting.act_grows ha).jobs _ N hN
          exact Or.inr ⟨task, role, N', hr, htask, hN', hn.grows hgN, [], s.trace, p, q, ht, hq⟩
    cases Setting.namedStep ha id with
    | kept hdata _ =>
      rw [hJ'] at hdata
      obtain ⟨J, hJ, hd⟩ := Option.map_eq_some_iff.1 hdata.symm
      simp only [Job.data, Job.mk.injEq] at hd
      exact kept J hJ (hd.1 ▸ hst)
    | changed hold hc h₁ ht =>
      rw [hJ'] at h₁
      cases h₁
      cases hc with
      | @status st' may =>
        cases hst
        cases st with
        | done | failed => exact settled hold.present may.2 rfl ht
        | pending | claimed | running => cases hterm
        | other => exact may.elim
      | agentId | noAgentId | lock | unlock | log => exact kept _ hold.present hst
    | published _ hp h₁ _ =>
      rw [hJ'] at h₁
      cases h₁
      have pending : J'.status = some .pending := by
        cases hp with
        | create => rfl
        | plan hp => exact hp.status
      rw [hst] at pending
      cases pending
      cases hterm

/-- A settlement that reports a notice error had found no notice when it took the lock. -/
theorem Setting.Visited.noticeError (unique : S.Unique) (h : S.Visited s)
    {later earlier : List (ℕ × Event)} {p : ℕ} {job : String} {e : NoticeError}
    (ht : s.trace = later ++ (p, .said (.noticeError job e)) :: earlier)
    (hp : (S.cmd p).settles = some job) :
    ∃ X task, s.files.job (.named job) = some X ∧ X.taskId = some task ∧
      NoticeUnpublishedAtLock p job (plannerNotificationId S.hexdigest task job) earlier := by
  suffices hall : ∀ later, s.trace = later ++ (p, .said (.noticeError job e)) :: earlier →
      ∃ X task, s.files.job (.named job) = some X ∧ X.taskId = some task ∧
      NoticeUnpublishedAtLock p job (plannerNotificationId S.hexdigest task job) earlier from
    hall later ht
  refine Visits.invariant (I := fun s => ∀ later,
    s.trace = later ++ (p, .said (.noticeError job e)) :: earlier →
    ∃ X task, s.files.job (.named job) = some X ∧ X.taskId = some task ∧
      NoticeUnpublishedAtLock p job (plannerNotificationId S.hexdigest task job) earlier) h ?_ ?_
  · intro later ht
    simp [S.fresh.trace] at ht
  · intro q s t hv ih ha later ht
    have grow : (∃ X task, s.files.job (.named job) = some X ∧ X.taskId = some task ∧
        NoticeUnpublishedAtLock p job (plannerNotificationId S.hexdigest task job) earlier) →
        ∃ X task, t.files.job (.named job) = some X ∧ X.taskId = some task ∧
        NoticeUnpublishedAtLock p job (plannerNotificationId S.hexdigest task job) earlier := by
      rintro ⟨X, task, hX, htask, hn⟩
      obtain ⟨X', hX', hg⟩ := (Setting.act_grows ha).jobs job X hX
      exact ⟨X', task, hX', hg.taskId.trans htask, hn⟩
    -- the error is the event of this step, or an older one
    have cases_of : ∀ e', t.trace = e' :: s.trace →
        (e' = (p, .said (.noticeError job e)) → earlier = s.trace →
          ∃ X task, s.files.job (.named job) = some X ∧ X.taskId = some task ∧
          NoticeUnpublishedAtLock p job (plannerNotificationId S.hexdigest task job) earlier) →
        ∃ X task, t.files.job (.named job) = some X ∧ X.taskId = some task ∧
        NoticeUnpublishedAtLock p job (plannerNotificationId S.hexdigest task job) earlier := by
      intro e' he' now
      rw [ht] at he'
      cases later with
      | nil =>
        obtain ⟨h₁, h₂⟩ := List.cons.inj he'
        exact grow (now h₁.symm h₂)
      | cons a later => exact grow (ih later (List.cons.inj he').2.symm)
    cases ha with
    | idle => exact ih later ht
    | write _ _ => exact cases_of _ rfl (by simp)
    | lock _ _ => exact cases_of _ rfl (by simp)
    | free l => exact grow (ih later ht)
    | @say o may =>
      refine cases_of _ rfl fun he hearlier => ?_
      cases he
      rw [hearlier]
      exact may unique hp
    | quit => exact grow (ih later ht)

end

end Cyclo.AgentWs
