import Cyclo.AgentWs.Sequential
import Cyclo.AgentWs.Replay

/-! What a failing queue transition leaves behind: when the status, the owner and the lock of the
job are what they were before the command. -/
namespace Cyclo.AgentWs
open Cyclo.Process

/-- What a transition of a job changes: its `status`, `agent-id` and `lock/`. -/
def Job.owner (J : Job) : Option Status × Option String × Option (List String) :=
  (J.status, J.agentId, J.lock)

/-- Status, agent-id and `lock/` of the job are the same in both states. -/
def SameOwner (job : String) (s t : State) : Prop :=
  (t.files.job (.named job)).map Job.owner = (s.files.job (.named job)).map Job.owner

theorem SameOwner.of {job : String} {s t : State} {J J' : Job}
    (hJ : s.files.job (.named job) = some J) (hJ' : t.files.job (.named job) = some J')
    (h : J'.owner = J.owner) : SameOwner job s t := by
  unfold SameOwner
  rw [hJ, hJ', Option.map_some, Option.map_some, h]

/-- Whenever the command exits with an error, the job is as it was. -/
def FailsClean (x : Script Unit) (p : ℕ) (job : String) (s : State) : Prop :=
  ∀ t, Runs queueKernel p x s none t → SameOwner job s t

/-- What `_notification_matches` tests of a notice. -/
def Job.matchesNotice (N : Job) (taskId jobId spec : String) : Bool :=
  N.workspace && (N.role = some "planner" && N.taskId = some taskId && N.status = some .pending &&
    N.noticeSource = some jobId && N.spec = some spec && N.log.isSome && N.controlLock)

section Notice
variable (hexdigest : String → String)

/-- The terminal notice of the job can be had: it needs none, there is a matching one, or one can be
created. -/
def Files.noticeObtainable (f : Files) (job : String) : Bool :=
  let role := f.catJob (.named job) (·.role)
  let task := f.catJob (.named job) (·.taskId)
  let notice := plannerNotificationId hexdigest task job
  validName role && validName task && (role = "planner" ||
    match f.job (.named notice) with
    | some N => N.matchesNotice task job (plannerNotificationSpec task job role)
    | none => validName notice && (f.task (.named task)).isSome)

/-- The answer of `_notification_matches` is a function of the files it reads. -/
theorem notificationMatches_along {A : (q : Query) → q.Reply → Prop} {T : Prop} {R X : State → Prop}
    {p : ℕ} {s : State} {n : Entry} {task job spec : String} (hR : R s) :
    Along (answering A) p T R X (notificationMatches n task job spec)
      (fun r t => r = (s.files.job n).any (·.matchesNotice task job spec) ∧ t = s) s := by
  unfold notificationMatches
  refine along_get hR ?_
  cases hn : s.files.job n with
  | none => exact along_pure hR ⟨rfl, rfl⟩
  | some N =>
    simp only [Option.isSome_some, Bool.not_true, Bool.false_eq_true, if_false, Option.any_some]
    refine along_get hR ?_
    cases hw : N.workspace with
    | false => simpa [hn, hw, Job.matchesNotice] using along_pure hR ⟨rfl, rfl⟩
    | true =>
      simp only [hn, hw, Option.any_some, Bool.not_true, Bool.false_eq_true, if_false]
      iterate 7 refine along_get hR ?_
      refine along_pure hR ⟨?_, rfl⟩
      simp [hn, hw, Job.matchesNotice, Files.jobFile]

/-- A worker's job whose terminal notice is to be published, under its control lock. -/
structure Source (f : Files) (job role task : String) (J : Job) : Prop where
  jobName : validName job = true
  present : f.job (.named job) = some J
  roleFile : J.role = some role
  taskFile : J.taskId = some task
  status : ∃ st, J.status = some st ∧ st.active = true
  controlLock : J.controlLock = true
  roleName : validName role = true
  taskName : validName task = true
  worker : role ≠ "planner"

theorem plannerNotificationSpec_ne (taskId jobId sourceRole : String) :
    plannerNotificationSpec taskId jobId sourceRole ≠ "" := by
  unfold plannerNotificationSpec
  rw [Ne, String.append_eq_empty_iff]
  rintro ⟨-, h⟩
  exact absurd h (by decide)

theorem validName_planner : validName "planner" = true := by decide +kernel

section
variable {A : (q : Query) → q.Reply → Prop} {T : Prop} {R X : State → Prop} {p : ℕ} {s : State}
  {job role task : String} {J : Job} (hs : Source s.files job role task J)
include hs

theorem checkNoticeSource_along (hR : R s) :
    Along (answering A) p T R X (checkNoticeSource (noticeArgs hexdigest task job role) job)
      (fun _ t => t = s) s := by
  obtain ⟨st, hst, hactive⟩ := hs.status
  unfold checkNoticeSource validateJobId validateRole validateTaskId validateName
  refine along_pass hs.jobName ?_
  refine along_pass (by rfl) ?_
  refine along_get hR (along_pass ?_ ?_)
  · simp [hs.present]
  refine along_get hR (along_pass ?_ ?_)
  · simp [Files.jobFile, hs.present, hs.roleFile]
  refine along_get hR (along_pass ?_ ?_)
  · simp [Files.jobFile, hs.present, hs.taskFile]
  refine along_get hR (along_pass ?_ ?_)
  · simp [Files.jobFile, hs.present, hst]
  refine along_get hR (along_pass ?_ ?_)
  · simp [hs.present, hs.controlLock]
  refine along_get hR (along_get hR (along_get hR ?_))
  have hrole : s.files.catJob (.named job) (·.role) = role := by
    simp [Files.catJob, Files.jobFile, hs.present, hs.roleFile]
  have htask : s.files.catJob (.named job) (·.taskId) = task := by
    simp [Files.catJob, Files.jobFile, hs.present, hs.taskFile]
  have hstatus : s.files.readStatus (.named job) = st := by
    simp [Files.readStatus, Files.jobFile, hs.present, hst]
  rw [hrole, htask, hstatus]
  refine along_pass hs.roleName (along_pass hs.taskName ?_)
  refine along_pass (by simp [hs.worker]) ?_
  refine along_pass (by simp [noticeArgs]) ?_
  rw [hactive]
  exact ⟨hR, rfl⟩

attribute [local irreducible] plannerNotificationSpec plannerNotificationId in
/-- A notice that does not exist yet can be created when its id is a name and the task exists. -/
theorem noticeCreate_along
    (hn : s.files.job (.named (plannerNotificationId hexdigest task job)) = none) :
    let notice := plannerNotificationId hexdigest task job
    let good := validName notice && (s.files.task (.named task)).isSome
    Along (answering A) p T
      (fun t => t.files.job (.named job) = some J ∧
        (t.files.job (.named notice) = none ∨ good = true))
      (fun _ => good = false) (jobCreate (noticeArgs hexdigest task job role))
      (fun _ t => t.files.job (.named notice) = some (noticeArgs hexdigest task job role).build)
        s := by
  intro notice good
  have hR : s.files.job (.named job) = some J ∧ (s.files.job (.named notice) = none ∨ good = true) :=
    ⟨hs.present, Or.inl hn⟩
  unfold jobCreate validateJobId validateRole validateTaskId validateName
  refine along_require hR (fun _ => ?_) (fun h => ?_)
  · refine along_pass (by rfl) ?_
    refine along_pass (decide_eq_true (validName_ne hs.taskName)) ?_
    refine along_pass (decide_eq_true (plannerNotificationSpec_ne task job role)) ?_
    refine along_require hR (fun hid => ?_) (fun hid => ?_)
    · refine along_pass validName_planner (along_pass hs.taskName ?_)
      refine along_call (checkNoticeSource_along hexdigest hs hR) ?_
      intro _ t _ ht
      subst ht
      refine along_get hR (along_require hR (fun htask => ?_) (fun htask => ?_))
      · have hgood : good = true := by
          simp only [good, Bool.and_eq_true]
          exact ⟨hid, htask⟩
        refine along_get hR (along_pass ?_ ?_)
        · simpa [noticeArgs] using hn
        refine along_wrote (if_pos hn) hR ?_
        have hne : Entry.named job ≠ .named notice := by
          intro he
          rw [← he, hs.present] at hn
          cases hn
        refine along_pass rfl (along_said ?_ ?_ ?_)
        · exact ⟨(if_neg hne).trans hs.present, Or.inr hgood⟩
        · exact ⟨(if_neg hne).trans hs.present, Or.inr hgood⟩
        · exact if_pos rfl
      · simp only [good, Bool.and_eq_false_iff]
        exact Or.inr htask
    · simp only [good, Bool.and_eq_false_iff]
      exact Or.inl hid
  · have hempty : notice = "" := of_not_not (of_decide_eq_false h)
    simp only [good, Bool.and_eq_false_iff, hempty]
    exact Or.inl rfl

end

theorem build_matchesNotice (task job role : String) :
    (noticeArgs hexdigest task job role).build.matchesNotice task job
      (plannerNotificationSpec task job role) = true := by
  simp [noticeArgs, JobCreateArgs.build, Job.matchesNotice]

theorem catJob_name {f : Files} {j : Entry} {J : Job} {read : Job → Option String}
    (hJ : f.job j = some J) (h : validName (f.catJob j read) = true) :
    read J = some (f.catJob j read) := by
  have hcat : f.catJob j read = (read J).getD "" := by simp [Files.catJob, Files.jobFile, hJ]
  cases hr : read J with
  | none =>
    rw [hcat, hr] at h
    exact absurd h (by decide)
  | some v => rw [hcat, hr, Option.getD_some]

attribute [local irreducible] jobCreate plannerNotificationSpec plannerNotificationId in
/-- The publisher succeeds when the notice can be had, unless it is killed. -/
theorem ensurePlannerNotification_along {A : (q : Query) → q.Reply → Prop} {T : Prop} {p : ℕ}
    {s : State} {job : String} {J : Job} (hname : validName job = true)
    (hJ : s.files.job (.named job) = some J) (hcontrol : J.controlLock = true)
    (hactive : ∃ st, J.status = some st ∧ st.active = true) (answer : T → ∃ fate, A .child fate) :
    Along (answering A) p T (fun t => t.files.job (.named job) = some J) (fun _ => False)
      (ensurePlannerNotification hexdigest job)
      (fun r _ => ((∃ notice, r = .ok notice) → s.files.noticeObtainable hexdigest job = true) ∧
        ((∀ fate, A .child fate → fate = .alive) → s.files.noticeObtainable hexdigest job = true →
          ∃ notice, r = .ok notice)) s := by
  obtain ⟨st, hst, hst'⟩ := hactive
  have hstatus : s.files.readStatus (.named job) = st := by
    simp [Files.readStatus, Files.jobFile, hJ, hst]
  unfold ensurePlannerNotification Files.noticeObtainable
  simp only [hname, Bool.not_true, Bool.false_eq_true, if_false]
  refine along_get hJ ?_
  simp only [hJ, Option.isSome_some, Bool.not_true, Bool.false_eq_true, if_false]
  refine along_get hJ (along_get hJ (along_get hJ ?_))
  rw [hstatus, hst']
  generalize hrole : s.files.catJob (.named job) (·.role) = role
  generalize htask : s.files.catJob (.named job) (·.taskId) = task
  by_cases hnames : (validName role && validName task) = true
  swap
  · have bad : (!validName role || !validName task) = true := by
      simpa [Bool.and_eq_true, Bool.or_eq_true, or_iff_not_imp_left] using hnames
    rw [if_pos bad]
    refine along_pure hJ ⟨by rintro ⟨_, ⟨⟩⟩, fun _ hok => ?_⟩
    exact absurd (Bool.and_eq_true_iff.1 hok).1 hnames
  obtain ⟨hr, ht⟩ := Bool.and_eq_true_iff.1 hnames
  by_cases hp : role = "planner"
  · subst hp
    simp only [hr, ht, Bool.not_true, Bool.or_self, Bool.false_eq_true, if_false, if_true]
    exact along_pure hJ ⟨fun _ => by simp, fun _ _ => ⟨none, rfl⟩⟩
  simp only [hr, ht, hp, Bool.not_true, Bool.or_self, Bool.false_eq_true, if_false, Bool.true_and,
    decide_false, Bool.false_or]
  have hs : Source s.files job role task J := by
    refine ⟨hname, hJ, ?_, ?_, ⟨st, hst, hst'⟩, hcontrol, hr, ht, hp⟩
    · rw [← hrole]
      exact catJob_name hJ (by rw [hrole]; exact hr)
    · rw [← htask]
      exact catJob_name hJ (by rw [htask]; exact ht)
  refine along_get hJ ?_
  cases hn : s.files.job (.named (plannerNotificationId hexdigest task job)) with
  | some N =>
    simp only [Option.isSome_some, if_true]
    refine along_call (notificationMatches_along hJ) ?_
    intro b t ht' hb
    obtain ⟨rfl, -⟩ := hb
    rw [hn, Option.any_some]
    cases hm : N.matchesNotice task job (plannerNotificationSpec task job role) with
    | true => exact along_pure ht' ⟨fun _ => rfl, fun _ _ => ⟨_, rfl⟩⟩
    | false => exact along_pure ht' ⟨by rintro ⟨_, ⟨⟩⟩, by rintro _ ⟨⟩⟩
  | none =>
    simp only [Option.isSome_none, Bool.false_eq_true, if_false]
    generalize hgood : (validName (plannerNotificationId hexdigest task job) &&
      (s.files.task (.named task)).isSome) = good
    have created := along_child (Y := fun _ => False) (jobCreate_adds _) answer
      (noticeCreate_along hexdigest (A := A) (T := T) (p := p) hs hn)
    rw [hgood] at created
    refine along_call (created.weaken (fun _ h => h.1) (fun _ _ h => h) (fun _ _ _ h => h)) ?_
    intro fate t ht' ended
    -- what is published is the notice that was asked for
    have published (hm : (t.files.job (.named (plannerNotificationId hexdigest task job))).any
        (·.matchesNotice task job (plannerNotificationSpec task job role)) = true) : good = true := by
      rcases ended.here.2 with h | h
      · rw [h] at hm
        cases hm
      · exact h
    cases fate with
    | timedOut =>
      refine along_pure ht' ⟨by rintro ⟨_, ⟨⟩⟩, fun calm _ => ?_⟩
      cases calm _ ended.2
    | killed =>
      refine along_call (notificationMatches_along ht') ?_
      intro b t' _ hb
      obtain ⟨rfl, rfl⟩ := hb
      split
      · rename_i hm
        exact along_pure ht' ⟨fun _ => published hm, fun _ _ => ⟨_, rfl⟩⟩
      · refine along_pure ht' ⟨by rintro ⟨_, ⟨⟩⟩, fun calm _ => ?_⟩
        cases calm _ ended.2
    | exited code m =>
      refine along_call (notificationMatches_along ht') ?_
      intro b t' _ hb
      obtain ⟨rfl, rfl⟩ := hb
      split
      · rename_i hm
        exact along_pure ht' ⟨fun _ => published hm, fun _ _ => ⟨_, rfl⟩⟩
      · rename_i hm
        refine along_pure ht' ⟨by rintro ⟨_, ⟨⟩⟩, fun _ hok => ?_⟩
        obtain ⟨-, ⟨-, -, hpub⟩ | ⟨-, hbad⟩⟩ := ended
        · rw [hpub, Option.any_some, build_matchesNotice hexdigest] at hm
          exact absurd rfl hm
        · rw [hbad] at hok
          cases hok

/-- A settlement's child reports success only when the notice could be had, and does when nothing
kills it. -/
theorem notifyChild_along {A : (q : Query) → q.Reply → Prop} {T : Prop} {X : State → Prop} {p : ℕ}
    {s : State} {job : String} {J : Job} (hname : validName job = true)
    (hJ : s.files.job (.named job) = some J) (hcontrol : J.controlLock = true)
    (hactive : ∃ st, J.status = some st ∧ st.active = true) (answer : T → ∃ fate, A .child fate) :
    Along (answering A) p T (fun t => t.files.job (.named job) = some J) X
      (child (jobNotifyPlanner hexdigest job))
      (fun r _ => (r = .exited 0 "" → s.files.noticeObtainable hexdigest job = true) ∧
        ((∀ fate, A .child fate → fate = .alive) → s.files.noticeObtainable hexdigest job = true →
          r = .exited 0 "")) s := by
  have notify : Along (answering A) p T (fun t => t.files.job (.named job) = some J)
      (fun _ => (∀ fate, A .child fate → fate = .alive) →
        s.files.noticeObtainable hexdigest job ≠ true)
      (jobNotifyPlanner hexdigest job) (fun _ _ => s.files.noticeObtainable hexdigest job = true)
        s := by
    unfold jobNotifyPlanner
    have called := ensurePlannerNotification_along hexdigest (A := A) (T := T) (p := p)
      hname hJ hcontrol hactive answer
    refine Along.bind (called.weaken (fun _ h => h) (fun _ _ h => h.elim) ?_)
    intro r t ht hr
    cases r with
    | ok notice => exact along_pure ht (hr.1 ⟨notice, rfl⟩)
    | error e =>
      refine along_say ht ⟨ht, fun calm hok => ?_⟩
      obtain ⟨notice, ⟨⟩⟩ := hr.2 calm hok
  refine (along_child (jobNotifyPlanner_adds hexdigest job) answer notify).weaken (fun _ h => h)
    (fun _ _ h => h) ?_
  intro r t ht ended
  refine ⟨?_, fun calm hok => ?_⟩
  · rintro rfl
    exact ended.success
  · cases r with
    | timedOut => cases calm _ ended.2
    | killed => cases calm _ ended.2
    | exited code m =>
      obtain ⟨-, ⟨rfl, rfl, -⟩ | ⟨-, hbad⟩⟩ := ended
      · rfl
      · exact absurd hok (hbad calm)

end Notice

/-- The tests `job-done`, `job-fail` and `job-release` begin with; the status they read. -/
def ownerGuard (action : String) (expected : Status → Bool) (badStatus : Status → String)
    (noLock job agent message : String) : Script Status := do
  require (message ≠ "") "-m <message> is required"
  validateJobId job
  validateAgentId agent
  let j := Entry.named job
  require (← get fun f => (f.job j).isSome) s!"job '{job}' does not exist"
  acquireJobControlLock j
  let status ← readStatus j
  require (expected status) (badStatus status)
  require (← get (·.hasLock j)) noLock
  requireAgentOwner action j agent
  pure status

/-- What `settle` does once its tests have passed. -/
def settleOwned (hexdigest : String → String) (action : String) (final : Status)
    (summary job message : String) (status : Status) : Script Unit := do
  let j := Entry.named job
  let notified ← child (jobNotifyPlanner hexdigest job)
  require (notified = .exited 0 "")
    s!"cannot {action} job '{job}': planner notification was not published"
  appendLog j summary message
  writeStatus j final
  require (← write (.removeLock j)) s!"cannot {action} job '{job}': lock directory is not empty"
  releaseJobControlLock j
  say (.line s!"{job}: {status.text} -> {final.text}")

def releaseOwned (job message : String) (status : Status) : Script Unit := do
  let j := Entry.named job
  appendLog j "Released back to pending" message
  writeStatus j .pending
  let _ ← write (.removeAgentId j)
  require (← write (.removeLock j)) s!"cannot release job '{job}': lock directory is not empty"
  releaseJobControlLock j
  say (.line s!"{job}: {status.text} -> pending")

theorem settle_eq (hexdigest : String → String) (action : String) (expected : Status → Bool)
    (expectedText : String) (final : Status) (summary job agent message : String) :
    settle hexdigest action expected expectedText final summary job agent message =
      ownerGuard action expected (fun status =>
          s!"cannot {action} job '{job}' from status '{status.text}' (expected: {expectedText})")
        s!"cannot {action} job '{job}': missing lock directory" job agent message >>=
        settleOwned hexdigest action final summary job message := by
  simp only [settle, ownerGuard, Prog.bind_assoc, Prog.pure_bind']
  rfl

theorem jobRelease_eq (job agent message : String) : jobRelease job agent message =
    ownerGuard "release" Status.active (fun status =>
        s!"cannot release job '{job}' from status '{status.text}' (expected: claimed or running)")
      s!"cannot release job '{job}': missing lock directory" job agent message >>=
      releaseOwned job message := by
  simp only [jobRelease, ownerGuard, Prog.bind_assoc, Prog.pure_bind']
  rfl

/-- A job whose owner's transition passes every test. -/
structure Accepted (expected : Status → Bool) (job agent message : String) (s : State) (J : Job) :
    Prop where
  message : message ≠ ""
  jobName : validName job = true
  agentName : validName agent = true
  present : s.files.job (.named job) = some J
  free : J.holder = none
  status : ∃ st, J.status = some st ∧ expected st = true
  locked : J.lock.isSome = true
  owner : J.agentId = some agent

section
variable {A : (q : Query) → q.Reply → Prop} {T : Prop} {p : ℕ} {s : State}
  {expected : Status → Bool} {job agent message : String}

theorem Accepted.same {J J' : Job} (h : Accepted expected job agent message s J)
    (hJ' : s.files.job (.named job) = some J') : J' = J := by
  have hJ := h.present
  rw [hJ'] at hJ
  exact Option.some.inj hJ

theorem SameOwner.locked {J : Job} (hJ : s.files.job (.named job) = some J) :
    SameOwner job s (s.locked p (.named job) J) :=
  .of hJ (if_pos rfl) rfl

/-- The tests refuse a job that is not accepted, and have only locked one that is. -/
theorem ownerGuard_along (text : ∀ t, expected (.other t) = false) (action noLock : String)
    (badStatus : Status → String) (hT : T → ∃ J, Accepted expected job agent message s J) :
    Along (answering A) p T (SameOwner job s)
      (fun t => SameOwner job s t ∧ ¬ ∃ J, Accepted expected job agent message s J)
      (ownerGuard action expected badStatus noLock job agent message)
      (fun st t => ∃ J, Accepted expected job agent message s J ∧ J.status = some st ∧
        t = s.locked p (.named job) J) s := by
  have hR : SameOwner job s s := rfl
  unfold ownerGuard validateJobId requireAgentOwner validateAgentId validateName
  simp only [Prog.bind_assoc]
  refine along_require hR (fun hm => ?_) (fun hm => ?_)
  swap
  · refine ⟨rfl, ?_⟩
    rintro ⟨J, hJ⟩
    exact of_decide_eq_false hm hJ.message
  refine along_require hR (fun hname => ?_) (fun hname => ?_)
  swap
  · refine ⟨rfl, ?_⟩
    rintro ⟨J, hJ⟩
    exact absurd hJ.jobName (by simp [hname])
  refine along_require hR (fun hagent => ?_) (fun hagent => ?_)
  swap
  · refine ⟨rfl, ?_⟩
    rintro ⟨J, hJ⟩
    exact absurd hJ.agentName (by simp [hagent])
  refine along_get hR ?_
  cases hJ : s.files.job (.named job) with
  | none =>
    refine ⟨hR, rfl, ?_⟩
    rintro ⟨J, hJ'⟩
    rw [hJ'.present] at hJ
    cases hJ
  | some J =>
    have refuses : (∀ J', Accepted expected job agent message s J' → False) →
        SameOwner job s (s.locked p (.named job) J) ∧
          ¬ ∃ J, Accepted expected job agent message s J :=
      fun h => ⟨.locked hJ, fun ⟨J', h'⟩ => h J' h'⟩
    refine along_pass rfl (along_acquire hJ hR ?_ ?_)
    · intro t
      obtain ⟨J', hJ'⟩ := hT t
      rw [hJ'.same hJ]
      exact hJ'.free
    intro hfree
    have hlocked : SameOwner job s (s.locked p (.named job) J) := .locked hJ
    have hL : (s.locked p (.named job) J).files.job (.named job) =
        some { J with holder := some p, controlLock := true } := if_pos rfl
    refine along_get hlocked ?_
    have hstatus : (s.locked p (.named job) J).files.readStatus (.named job) =
        J.status.getD (.other "unknown") := by simp [Files.readStatus, Files.jobFile]
    rw [hstatus]
    refine along_require hlocked (fun hst => ?_) (fun hst => refuses fun J' h => ?_)
    swap
    · obtain rfl := h.same hJ
      obtain ⟨st, h₁, h₂⟩ := h.status
      rw [h₁, Option.getD_some, h₂] at hst
      cases hst
    refine along_get hlocked ?_
    have hlock : (s.locked p (.named job) J).files.hasLock (.named job) = J.lock.isSome := by
      simp [Files.hasLock, Files.jobFile]
    rw [hlock]
    refine along_require hlocked (fun hl => ?_) (fun hl => refuses fun J' h => ?_)
    swap
    · obtain rfl := h.same hJ
      rw [h.locked] at hl
      cases hl
    refine along_pass hagent (along_get hlocked ?_)
    have hagentId : (s.locked p (.named job) J).files.jobFile (.named job) (·.agentId) =
        J.agentId := by
      simp [Files.jobFile]
    rw [hagentId]
    refine along_require hlocked (fun ha => ?_) (fun ha => refuses fun J' h => ?_)
    swap
    · obtain rfl := h.same hJ
      rw [h.owner] at ha
      cases ha
    refine along_get hlocked ?_
    have hcat : (s.locked p (.named job) J).files.catJob (.named job) (·.agentId) =
        J.agentId.getD "" := by
      simp [Files.catJob, Files.jobFile]
    rw [hcat]
    refine along_require hlocked (fun ho => ?_) (fun ho => refuses fun J' h => ?_)
    swap
    · obtain rfl := h.same hJ
      rw [h.owner, Option.getD_some] at ho
      exact of_decide_eq_false ho rfl
    obtain ⟨a, ha⟩ := Option.isSome_iff_exists.1 ha
    rw [ha, Option.getD_some] at ho
    obtain rfl := of_decide_eq_true ho
    cases hJs : J.status with
    | none =>
      rw [hJs, Option.getD_none, text] at hst
      cases hst
    | some st =>
      rw [hJs, Option.getD_some] at hst
      exact along_pure hlocked ⟨J, ⟨of_decide_eq_true hm, hname, hagent, hJ, hfree,
        ⟨st, hJs, hst⟩, hl, ha⟩, hJs, rfl⟩

/-- Taking the control lock of an owned job does not change whether its notice can be had. -/
theorem noticeObtainable_locked (hexdigest : String → String) {J : Job}
    (hJ : s.files.job (.named job) = some J) (hactive : ∃ st, J.status = some st ∧ st.active = true) :
    (s.locked p (.named job) J).files.noticeObtainable hexdigest job =
      s.files.noticeObtainable hexdigest job := by
  obtain ⟨st, hst, hst'⟩ := hactive
  have hrole : (s.locked p (.named job) J).files.catJob (.named job) (·.role) =
      s.files.catJob (.named job) (·.role) := by simp [Files.catJob, Files.jobFile, hJ]
  have htask : (s.locked p (.named job) J).files.catJob (.named job) (·.taskId) =
      s.files.catJob (.named job) (·.taskId) := by simp [Files.catJob, Files.jobFile, hJ]
  unfold Files.noticeObtainable
  rw [hrole, htask]
  generalize s.files.catJob (.named job) (·.role) = role
  generalize s.files.catJob (.named job) (·.taskId) = task
  by_cases hn : plannerNotificationId hexdigest task job = job
  · -- the job is its own notice: it is not pending, so it matches in neither state
    have hne : st ≠ .pending := by
      rintro rfl
      cases hst'
    simp [hn, hJ, Job.matchesNotice, hst, hne]
  · simp [hn]

theorem settleOwned_along (hexdigest : String → String) {J : Job} (hname : validName job = true)
    (hJ : s.files.job (.named job) = some J) (hcontrol : J.controlLock = true)
    (hactive : ∃ st, J.status = some st ∧ st.active = true) (answer : T → ∃ fate, A .child fate)
    (action summary : String) (final status : Status) :
    Along (answering A) p T (fun _ => True)
      (fun t => SameOwner job s t ∧ ((∀ fate, A .child fate → fate = .alive) →
          s.files.noticeObtainable hexdigest job ≠ true) ∨
        s.files.noticeObtainable hexdigest job = true ∧ J.lock ≠ some [] ∧
          t.files.readStatus (.named job) = final)
      (settleOwned hexdigest action final summary job message status)
      (fun _ _ => J.lock = some []) s := by
  unfold settleOwned
  have notified := notifyChild_along hexdigest (A := A) (T := T) (p := p)
    (X := fun _ => False) hname hJ hcontrol hactive answer
  refine Along.bind (notified.weaken (fun _ _ => trivial) (fun _ _ h => h.elim) ?_)
  intro r t ht hr
  refine along_require trivial (fun hok => ?_) (fun hbad => Or.inl ⟨.of hJ ht rfl, fun calm hok => ?_⟩)
  swap
  · exact of_decide_eq_false hbad (hr.2 calm hok)
  have hobtain := hr.1 (of_decide_eq_true hok)
  refine along_appendLog ht trivial (along_writeStatus (if_pos rfl) trivial ?_)
  refine along_removeLock (if_pos rfl) trivial (fun hl => ?_) (fun hl => ?_)
  · refine along_pass rfl (along_release (if_pos rfl) trivial ?_)
    exact along_said trivial trivial hl
  · refine ⟨trivial, Or.inr ⟨hobtain, hl, ?_⟩⟩
    simp [Files.readStatus, Files.jobFile]

theorem releaseOwned_along {J : Job} (hJ : s.files.job (.named job) = some J) (status : Status) :
    Along (answering A) p T (fun _ => True)
      (fun t => J.lock ≠ some [] ∧ t.files.readStatus (.named job) = .pending)
      (releaseOwned job message status) (fun _ _ => J.lock = some []) s := by
  unfold releaseOwned
  refine along_appendLog hJ trivial (along_writeStatus (if_pos rfl) trivial ?_)
  refine along_removeAgentId (if_pos rfl) trivial ?_
  refine along_removeLock (if_pos rfl) trivial (fun hl => ?_) (fun hl => ?_)
  · refine along_pass rfl (along_release (if_pos rfl) trivial ?_)
    exact along_said trivial trivial hl
  · refine ⟨trivial, hl, ?_⟩
    simp [Files.readStatus, Files.jobFile]

theorem SameOwner.trans {t u : State} (h : SameOwner job s t) (h' : SameOwner job t u) :
    SameOwner job s u :=
  Eq.trans h' h

theorem SameOwner.readStatus {t : State} (h : SameOwner job s t) :
    t.files.readStatus (.named job) = s.files.readStatus (.named job) := by
  have hst : (t.files.job (.named job)).bind (·.status) = (s.files.job (.named job)).bind
      (·.status) := by
    have hmap := congrArg (fun o => o.bind Prod.fst) h
    simpa [Option.bind_map, Function.comp_def, Job.owner] using hmap
  simp only [Files.readStatus, Files.jobFile, hst]

variable (job agent message) in
theorem settle_along (hexdigest : String → String)
    (active : ∀ st, expected st = true → st.active = true)
    (action expectedText summary : String) (final : Status)
    (hT : T → ∃ J, Accepted expected job agent message s J) (answer : T → ∃ fate, A .child fate) :
    Along (answering A) p T (fun _ => True)
      (fun t => SameOwner job s t ∧ ((∀ fate, A .child fate → fate = .alive) →
          ¬ ((∃ J, Accepted expected job agent message s J) ∧
            s.files.noticeObtainable hexdigest job = true)) ∨
        ∃ J, Accepted expected job agent message s J ∧
          s.files.noticeObtainable hexdigest job = true ∧ J.lock ≠ some [] ∧
          t.files.readStatus (.named job) = final)
      (settle hexdigest action expected expectedText final summary job agent message)
      (fun _ _ => ∃ J, Accepted expected job agent message s J ∧ J.lock = some []) s := by
  rw [settle_eq]
  have text : ∀ t, expected (.other t) = false := by
    intro t
    cases h : expected (.other t) with
    | false => rfl
    | true => exact absurd (active _ h) (by simp [Status.active])
  refine Along.bind ((ownerGuard_along text action _ _ hT).weaken (fun _ _ => trivial) ?_ ?_)
  · intro t _ ht
    exact Or.inl ⟨ht.1, fun _ h => ht.2 h.1⟩
  · intro st t _ hr
    obtain ⟨J, hJ, hst, rfl⟩ := hr
    have hactive : ∃ st, J.status = some st ∧ st.active = true := by
      obtain ⟨st, h₁, h₂⟩ := hJ.status
      exact ⟨st, h₁, active st h₂⟩
    refine (settleOwned_along hexdigest (J := { J with holder := some p, controlLock := true })
      hJ.jobName (if_pos rfl) rfl hactive answer action summary final st).weaken (fun _ h => h) ?_ ?_
    · intro t _ ht
      rw [noticeObtainable_locked hexdigest hJ.present hactive] at ht
      refine ht.imp ?_ ?_
      · rintro ⟨hsame, hno⟩
        exact ⟨(SameOwner.locked hJ.present).trans hsame, fun calm h => hno calm h.2⟩
      · rintro ⟨hok, hl, hfinal⟩
        exact ⟨J, hJ, hok, hl, hfinal⟩
    · intro _ t _ hl
      exact ⟨J, hJ, hl⟩

variable (job agent message) in
theorem jobRelease_along (hT : T → ∃ J, Accepted Status.active job agent message s J) :
    Along (answering A) p T (fun _ => True)
      (fun t => (SameOwner job s t ∧ ¬ ∃ J, Accepted Status.active job agent message s J) ∨
        ∃ J, Accepted Status.active job agent message s J ∧ J.lock ≠ some [] ∧
          t.files.readStatus (.named job) = .pending)
      (jobRelease job agent message)
      (fun _ _ => ∃ J, Accepted Status.active job agent message s J ∧ J.lock = some []) s := by
  rw [jobRelease_eq]
  refine Along.bind ((ownerGuard_along (fun _ => rfl) "release" _ _ hT).weaken
    (fun _ _ => trivial) ?_ ?_)
  · intro t _ ht
    exact Or.inl ht
  · intro st t _ hr
    obtain ⟨J, hJ, hst, rfl⟩ := hr
    refine (releaseOwned_along (if_pos rfl) st).weaken (fun _ h => h) ?_ ?_
    · rintro t - ⟨hl, hpending⟩
      exact Or.inr ⟨J, hJ, hl, hpending⟩
    · intro _ t _ hl
      exact ⟨J, hJ, hl⟩

end

/-- What the surroundings answer when nothing happens: no child is killed. -/
def calmly (jobs : List String) (q : Query) (r : q.Reply) : Prop := r = quiet jobs q

theorem Runs.any {α : Type} {p : ℕ} {x : Script α} {s t : State} {out : Option α}
    (h : Runs queueKernel p x s out t) : Runs (answering anyAnswer) p x s out t :=
  h.mono anyAnswer_exec

/-- A settlement that fails leaves the job as it was, unless everything before the removal of a
non-empty `lock/` succeeds. -/
theorem settle_failsClean_iff {expected : Status → Bool} {final : Status} (hexdigest : String → String)
    (active : ∀ st, expected st = true → st.active = true) (terminal : final.active = false)
    (action expectedText summary job agent message : String) (p : ℕ) (s : State) :
    FailsClean (settle hexdigest action expected expectedText final summary job agent message)
      p job s ↔ ¬ ∃ J, Accepted expected job agent message s J ∧
        s.files.noticeObtainable hexdigest job = true ∧ J.lock ≠ some [] := by
  constructor
  · rintro hclean ⟨J, hJ, hok, hl⟩
    have along := settle_along job agent message hexdigest (A := calmly [])
      (T := True) (p := p) (s := s) active action expectedText summary final (fun _ => ⟨J, hJ⟩)
      (fun _ => ⟨.alive, rfl⟩)
    obtain ⟨out, t, hr⟩ := along.ends trivial
    cases out with
    | some a =>
      obtain ⟨J', hJ', hl'⟩ := along.returned hr
      rw [hJ'.same hJ.present] at hl
      exact hl hl'
    | none =>
      have same := (hclean t (hr.mono answering_exec)).readStatus
      rcases along.exited hr with ⟨-, hno⟩ | ⟨-, -, -, -, hfinal⟩
      · exact hno (fun _ h => h) ⟨⟨J, hJ⟩, hok⟩
      · obtain ⟨st, hst, hexp⟩ := hJ.status
        have hs : s.files.readStatus (.named job) = st := by
          simp [Files.readStatus, Files.jobFile, hJ.present, hst]
        rw [hfinal, hs] at same
        rw [same, active st hexp] at terminal
        cases terminal
  · intro hfree t hr
    have along := settle_along job agent message hexdigest (A := anyAnswer)
      (T := False) (p := p) (s := s) active action expectedText summary final False.elim False.elim
    rcases along.exited (Runs.any hr) with ⟨hsame, -⟩ | ⟨J, hJ, hok, hl, -⟩
    · exact hsame
    · exact absurd ⟨J, hJ, hok, hl⟩ hfree

theorem jobRelease_failsClean_iff (job agent message : String) (p : ℕ) (s : State) :
    FailsClean (jobRelease job agent message) p job s ↔
      ¬ ∃ J, Accepted Status.active job agent message s J ∧ J.lock ≠ some [] := by
  constructor
  · rintro hclean ⟨J, hJ, hl⟩
    have along := jobRelease_along job agent message (A := calmly []) (T := True) (p := p)
      (s := s) (fun _ => ⟨J, hJ⟩)
    obtain ⟨out, t, hr⟩ := along.ends trivial
    cases out with
    | some a =>
      obtain ⟨J', hJ', hl'⟩ := along.returned hr
      rw [hJ'.same hJ.present] at hl
      exact hl hl'
    | none =>
      have same := (hclean t (hr.mono answering_exec)).readStatus
      rcases along.exited hr with ⟨-, hno⟩ | ⟨-, -, -, hpending⟩
      · exact hno ⟨J, hJ⟩
      · obtain ⟨st, hst, hexp⟩ := hJ.status
        have hs : s.files.readStatus (.named job) = st := by
          simp [Files.readStatus, Files.jobFile, hJ.present, hst]
        rw [hpending, hs] at same
        rw [← same] at hexp
        cases hexp
  · intro hfree t hr
    have along := jobRelease_along job agent message (A := anyAnswer) (T := False) (p := p) (s := s)
      False.elim
    rcases along.exited (Runs.any hr) with ⟨hsame, -⟩ | ⟨J, hJ, hl, -⟩
    · exact hsame
    · exact absurd ⟨J, hJ, hl⟩ hfree

end Cyclo.AgentWs
