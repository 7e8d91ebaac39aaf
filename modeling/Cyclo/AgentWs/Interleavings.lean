import Cyclo.AgentWs.Replay

/-! What holds of the queue in every interleaving of its commands. -/
namespace Cyclo.AgentWs
open Cyclo.Process

/-- Two reports of one job are two claims with a return to `pending` between them. -/
theorem Owned.reports_alternate {cmd : ℕ → Command} {s : State} {id : String} (h : Owned cmd s id)
    {p q : ℕ} (hpq : p ≠ q) (hp : claimEvent p id ∈ s.trace) (hq : claimEvent q id ∈ s.trace) :
    ∃ later mid earlier a b r, (a = p ∧ b = q ∨ a = q ∧ b = p) ∧
      s.trace = later ++ claimEvent a id :: (mid ++ claimEvent b id :: earlier) ∧
      pendingEvent r id ∈ mid := by
  obtain ⟨l, e, ht⟩ := List.append_of_mem hp
  rw [ht] at hq
  have hne : claimEvent q id ≠ claimEvent p id := by
    simp [claimEvent, Ne.symm hpq]
  rcases List.mem_append.1 hq with hq | hq
  · obtain ⟨l₁, m, rfl⟩ := List.append_of_mem hq
    have ht' : s.trace = l₁ ++ claimEvent q id :: (m ++ claimEvent p id :: e) := by
      rw [ht, List.append_assoc]
      rfl
    obtain ⟨r, hr⟩ := h.alternates l₁ m e q p ht'
    exact ⟨l₁, m, e, q, p, r, Or.inr ⟨rfl, rfl⟩, ht', hr⟩
  · obtain ⟨m, e', rfl⟩ := List.append_of_mem ((List.mem_cons.1 hq).resolve_left hne)
    obtain ⟨r, hr⟩ := h.alternates l m e' p q ht
    exact ⟨l, m, e', p, q, r, Or.inl ⟨rfl, rfl⟩, ht, hr⟩

/-- A reported claim was written by the process that reports it. -/
theorem Setting.Visited.reported {S : Setting} {s : State} (h : S.Visited s) {p : ℕ} {id : String}
    (hs : (p, .said (.claimed id)) ∈ s.trace) : claimEvent p id ∈ s.trace := by
  suffices hall : (p, .said (.claimed id)) ∈ s.trace → claimEvent p id ∈ s.trace from hall hs
  refine Visits.invariant (I := fun s => (p, .said (.claimed id)) ∈ s.trace →
    claimEvent p id ∈ s.trace) h ?_ ?_
  · simp [S.fresh.trace]
  · intro q s t _ ih ha hs
    have old : (p, .said (.claimed id)) ∈ s.trace → claimEvent p id ∈ t.trace :=
      fun h => Setting.act_trace ha (ih h)
    cases ha with
    | idle | free | quit => exact old hs
    | write | lock => exact old (by simpa using hs)
    | @say o may =>
      rcases List.mem_cons.1 hs with he | hs
      · cases he
        exact List.mem_cons_of_mem _ may
      · exact old hs

/-- Queue ownership. -/
theorem queue_ownership (S : Setting) {c : Config Op State} (h : S.Reachable c) (id : String) :
    (∀ J st, c.shared.files.job (.named id) = some J → J.status = some st → st.active = true →
      J.lock = some [] ∧ ∃ p agent, LastClaim id c.shared.trace p ∧
        (S.cmd p).claimant = some agent ∧ J.agentId = some agent) ∧
    (∀ p q, p ≠ q → (p, .said (.claimed id)) ∈ c.shared.trace →
      (q, .said (.claimed id)) ∈ c.shared.trace → ∃ later mid earlier a b r,
        (a = p ∧ b = q ∨ a = q ∧ b = p) ∧ pendingEvent r id ∈ mid ∧
        c.shared.trace = later ++ claimEvent a id :: (mid ++ claimEvent b id :: earlier)) ∧
    ∀ d, Relation.ReflTransGen (Step queueKernel) c d → ∀ J st,
      c.shared.files.job (.named id) = some J → J.status = some st → st.terminal = true →
      ∃ J', d.shared.files.job (.named id) = some J' ∧ J'.status = some st := by
  have hv := h.visited
  refine ⟨(hv.owned id).active, fun p q hpq hp hq => ?_, fun d hrun J st hJ hst hterm => ?_⟩
  · obtain ⟨later, mid, earlier, a, b, r, hab, ht, hr⟩ :=
      (hv.owned id).reports_alternate hpq (hv.reported hp) (hv.reported hq)
    exact ⟨later, mid, earlier, a, b, r, hab, hr, ht⟩
  · refine Visits.invariant (I := fun s => ∃ J', s.files.job (.named id) = some J' ∧
      J'.status = some st) (h.later hrun) ⟨J, hJ, hst⟩ ?_
    rintro p s t _ ⟨J₁, h₁, hst₁⟩ ha
    obtain ⟨J₂, h₂, hg⟩ := (Setting.act_grows ha).jobs id J₁ h₁
    exact ⟨J₂, h₂, hg.terminal st hst₁ hterm⟩

/-- While the worker's job runs, it is locked for the agent that claimed it. -/
theorem queue_ownership_demo : ∃ c, demo.Reachable c ∧
    c.shared.files.readStatus (.named "w") = .running ∧
    ∃ J p agent, c.shared.files.job (.named "w") = some J ∧ J.lock = some [] ∧
      LastClaim "w" c.shared.trace p ∧ (demo.cmd p).claimant = some agent ∧
      J.agentId = some agent := by
  obtain ⟨c, hc, hst⟩ := demo_reaches [0, 1, 2, 3] (by decide)
    (fun s => s.files.readStatus (.named "w")) (b := .running) (by decide +kernel)
  obtain ⟨J, hJ, hrunning⟩ := Files.readStatus_eq hst (by decide)
  obtain ⟨hlock, p, agent, hp⟩ := (queue_ownership demo hc "w").1 J .running hJ hrunning rfl
  exact ⟨c, hc, hst, J, p, agent, hJ, hlock, hp⟩

/-- The terminal-notice protocol: a terminal job that is no planner's had its notice first, a notice
leaves `pending` only when its source is terminal, a source has one notice, published once, and a
settlement that fails on its notice had found none. -/
theorem terminal_notices (S : Setting) (unique : S.Unique) {c : Config Op State}
    (h : S.Reachable c) :
    (∀ id J st, c.shared.files.job (.named id) = some J → J.status = some st → st.terminal = true →
      Announced S.hexdigest c.shared id J st) ∧
    (∀ id N src, c.shared.files.job (.named id) = some N → N.noticeSource = some src →
      N.status ≠ some .pending → ∃ X st, c.shared.files.job (.named src) = some X ∧
        X.status = some st ∧ st.terminal = true) ∧
    (∀ id id' N N' src, c.shared.files.job (.named id) = some N →
      c.shared.files.job (.named id') = some N' → N.noticeSource = some src →
      N'.noticeSource = some src → id = id') ∧
    (∀ id later earlier p w, c.shared.trace = later ++ (p, .wrote w) :: earlier →
      w.PublishesJob id → ∀ q w', (q, .wrote w') ∈ later → ¬ w'.PublishesJob id) ∧
    ∀ later earlier p job e, c.shared.trace = later ++ (p, .said (.noticeError job e)) :: earlier →
      (S.cmd p).settles = some job → ∃ X task, c.shared.files.job (.named job) = some X ∧
        X.taskId = some task ∧
        NoticeUnpublishedAtLock p job (plannerNotificationId S.hexdigest task job) earlier := by
  have hv := h.visited
  refine ⟨fun id J st hJ hst hterm => hv.announced unique hJ hst hterm, ?_, ?_, ?_, ?_⟩
  · intro id N src hN hsrc hst
    obtain ⟨task, role, X, hi⟩ := hv.isNotice unique hN hsrc
    obtain ⟨st, hX, hterm⟩ := hi.claimed hst
    exact ⟨X, st, hi.source, hX, hterm⟩
  · intro id id' N N' src hN hN' hsrc hsrc'
    exact hv.notice_unique unique hN hN' hsrc hsrc'
  · intro id
    exact (hv.jobOnce id).once
  · intro later earlier p job e ht hp
    exact hv.noticeError unique ht hp

theorem terminal_notices_demo : ∃ c, demo.Reachable c ∧
    c.shared.files.readStatus (.named "w") = .done ∧
    ∃ J, c.shared.files.job (.named "w") = some J ∧
      Announced demo.hexdigest c.shared "w" J .done := by
  obtain ⟨c, hc, hst⟩ := demo_reaches [0, 1, 2, 3, 4] (by decide)
    (fun s => s.files.readStatus (.named "w")) (b := .done) (by decide +kernel)
  obtain ⟨J, hJ, hdone⟩ := Files.readStatus_eq hst (by decide)
  exact ⟨c, hc, hst, J, hJ, (terminal_notices demo demo_unique hc).1 "w" J .done hJ hdone rfl⟩

/-- What holds of the task of an initial planner job that has left `pending`. -/
structure CreatedWith (s : State) (id token : String) (J : Job) (task : String) (T : Task) : Prop where
  taskId : J.taskId = some task
  named : id = planJobId task
  present : s.files.task (.named task) = some T
  whole : T.Whole
  token : T.token = some token
  creating : T.creating = none

/-- Task creation is safe: a claimed initial planner job has its complete task, staged with its
token and created to the end; tasks and jobs are published once; and every step leaves alone the
directories of other invocations. -/
theorem task_creation_safe (S : Setting) {c : Config Op State} (h : S.Reachable c) :
    (∀ id J token, c.shared.files.job (.named id) = some J → J.transaction = some token →
      J.status ≠ some .pending → ∃ task T, CreatedWith c.shared id token J task T) ∧
    (∀ id later earlier p w, c.shared.trace = later ++ (p, .wrote w) :: earlier →
      (w.PublishesTask id → ∀ q w', (q, .wrote w') ∈ later → ¬ w'.PublishesTask id) ∧
      (w.PublishesJob id → ∀ q w', (q, .wrote w') ∈ later → ¬ w'.PublishesJob id)) ∧
    ∀ d, Step queueKernel c d → ∃ p, Harmless p c.shared d.shared := by
  have hv := h.visited
  refine ⟨?_, ?_, ?_⟩
  · intro id J token hJ htok hst
    obtain ⟨task, T, hi⟩ := hv.plansTask hJ htok
    exact ⟨task, T, hi.taskId, hi.named, hi.present, hv.taskWhole hi.present (by simp [hi.token]),
      hi.token, hi.claimed hst⟩
  · intro id later earlier p w ht
    exact ⟨(hv.taskOnce id).once later earlier p w ht, (hv.jobOnce id).once later earlier p w ht⟩
  · intro d hd
    obtain ⟨p, ha⟩ := h.step hd
    exact ⟨p, Setting.act_harmless ha⟩

/-- The initial planner job of a fresh task is claimed. -/
theorem demo_planned : ∃ c, demo.Reachable c ∧ ∃ J token, c.shared.files.job
    (.named "t-plan") = some J ∧ J.transaction = some token ∧ J.status = some .claimed := by
  obtain ⟨c, hc, h⟩ := demo_reaches [0, 5] (by decide)
    (fun s => (s.files.job (.named "t-plan")).map fun J => (J.transaction, J.status))
    (b := some (some "task-t-1-2", some .claimed)) (by decide +kernel)
  obtain ⟨J, hJ, he⟩ := Option.map_eq_some_iff.1 h
  exact ⟨c, hc, J, _, hJ, (Prod.mk.inj he).1, (Prod.mk.inj he).2⟩

theorem task_creation_safe_demo : ∃ c, demo.Reachable c ∧ ∃ J token task T,
    c.shared.files.job (.named "t-plan") = some J ∧ J.status = some .claimed ∧
    CreatedWith c.shared "t-plan" token J task T := by
  obtain ⟨c, hc, J, token, hJ, htok, hst⟩ := demo_planned
  obtain ⟨task, T, hi⟩ := (task_creation_safe demo hc).1 "t-plan" J token hJ htok (by simp [hst])
  exact ⟨c, hc, J, token, task, T, hJ, hst, hi⟩

/-- A claimed planner job's task does not carry the token any more: it was in `.creating`. -/
theorem claimed_task_carries_no_token : ¬ ∀ (S : Setting) (c : Config Op State), S.Reachable c →
    ∀ id J token, c.shared.files.job (.named id) = some J → J.transaction = some token →
      J.status = some .claimed → ∃ task T, J.taskId = some task ∧
        c.shared.files.task (.named task) = some T ∧ T.creating = some token := by
  intro hall
  obtain ⟨c, hc, J, token, hJ, htok, hst⟩ := demo_planned
  obtain ⟨task, T, htask, hT, hcr⟩ := hall demo c hc "t-plan" J token hJ htok hst
  obtain ⟨task', T', hi⟩ := hc.visited.plansTask hJ htok
  obtain rfl := Option.some.inj (htask.symm.trans hi.taskId)
  obtain rfl := Option.some.inj (hT.symm.trans hi.present)
  have hnone := hi.claimed (by simp [hst])
  rw [hcr] at hnone
  cases hnone

end Cyclo.AgentWs
