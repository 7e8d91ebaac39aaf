import Cyclo.AgentWs.Transitions
import Cyclo.AgentWs.Worker

/-! That a worker gives up the job it settles or stops, and touches no job it does not own. -/
namespace Cyclo.AgentWs
open Cyclo.Process

/-- `job_owned_by`, as a function of the files it reads. -/
def Files.ownedBy (f : Files) (job agent : String) : Bool :=
  (f.readStatus (.named job)).active && f.catJob (.named job) (·.agentId) = agent &&
    f.hasLock (.named job)

variable {A : (q : Query) → q.Reply → Prop} {p : ℕ} {T : Prop} {R X Y : State → Prop} {s t u : State}
  {job agent message : String}

theorem SameOwner.jobFile {β : Type} (h : SameOwner job s t)
    (read : Option Status × Option String × Option (List String) → Option β) :
    t.files.jobFile (.named job) (fun J => read J.owner) =
      s.files.jobFile (.named job) fun J => read J.owner := by
  have hread := congrArg (fun o => o.bind read) h
  unfold Files.jobFile
  simpa only [Option.bind_map, Function.comp_def] using hread

theorem SameOwner.ownedBy (h : SameOwner job s t) :
    t.files.ownedBy job agent = s.files.ownedBy job agent := by
  have howner := h.jobFile fun o => o.2.1
  have hlock := h.jobFile fun o => o.2.2
  unfold Job.owner at howner hlock
  unfold Files.ownedBy Files.catJob Files.hasLock
  rw [h.readStatus, howner, hlock]

theorem SameOwner.free (s : State) (p : ℕ) :
    SameOwner job s ⟨s.files.free p (.job (.named job)), s.trace⟩ := by
  unfold SameOwner Files.free
  cases hJ : s.files.job (.named job) <;> simp [hJ, Job.owner]

theorem Accepted.ownedBy {J : Job} (h : Accepted Status.active job agent message s J) :
    s.files.ownedBy job agent = true := by
  obtain ⟨st, hst, hactive⟩ := h.status
  simp [Files.ownedBy, Files.readStatus, Files.catJob, Files.hasLock, Files.jobFile, h.present, hst,
    hactive, h.owner, h.locked]

theorem not_ownedBy_of_inactive (h : (s.files.readStatus (.named job)).active = false) :
    s.files.ownedBy job agent = false := by
  unfold Files.ownedBy
  rw [h, Bool.false_and, Bool.false_and]

/-- The script reports success only by returning. -/
def Fails {α : Type} : Script α → Prop
  | .ret _ => True
  | .exit code _ => code ≠ 0
  | .op _ next => ∀ r, Fails (next r)

theorem Fails.bind {α β : Type} {x : Script β} {f : β → Script α} (hx : Fails x)
    (hf : ∀ b, Fails (f b)) : Fails (x >>= f) := by
  induction x with
  | ret b => exact hf b
  | exit code m => exact hx
  | op e next ih => exact fun r => ih r (hx r)

theorem fails_perform {β : Type} (e : Op β) : Fails (Prog.perform e) := fun _ => trivial

theorem fails_require (test : Bool) (m : String) : Fails (require test m) := by
  cases test with
  | false => exact Nat.one_ne_zero
  | true => trivial

theorem fails_child (x : Script Unit) : Fails (child x) := by
  induction x with
  | ret a => trivial
  | exit code m => trivial
  | op e next ih =>
    rw [child_op]
    intro r
    cases r with
    | alive => exact ih
    | killed => trivial
    | timedOut => trivial

theorem fails_ownerGuard (action : String) (expected : Status → Bool) (badStatus : Status → String)
    (noLock job agent message : String) :
    Fails (ownerGuard action expected badStatus noLock job agent message) := by
  unfold ownerGuard validateJobId requireAgentOwner validateAgentId validateName
    acquireJobControlLock
  repeat' first
    | exact fails_require _ _
    | exact fails_perform _
    | trivial
    | refine Fails.bind ?_ fun _ => ?_

theorem fails_settleOwned (hexdigest : String → String) (action : String) (final : Status)
    (summary job message : String) (status : Status) :
    Fails (settleOwned hexdigest action final summary job message status) := by
  unfold settleOwned appendLog writeStatus releaseJobControlLock
  repeat' first
    | exact fails_require _ _
    | exact fails_child _
    | exact fails_perform _
    | trivial
    | refine Fails.bind ?_ fun _ => ?_

theorem fails_releaseOwned (job message : String) (status : Status) :
    Fails (releaseOwned job message status) := by
  unfold releaseOwned appendLog writeStatus releaseJobControlLock
  repeat' first
    | exact fails_require _ _
    | exact fails_perform _
    | trivial
    | refine Fails.bind ?_ fun _ => ?_

theorem Transition.fails (hexdigest : String → String) (c : Transition) :
    Fails (c.script hexdigest job agent message) := by
  cases c with
  | fail =>
    unfold Transition.script jobFail
    rw [settle_eq]
    exact (fails_ownerGuard _ _ _ _ _ _ _).bind (fails_settleOwned _ _ _ _ _ _)
  | release =>
    unfold Transition.script
    rw [jobRelease_eq]
    exact (fails_ownerGuard _ _ _ _ _ _ _).bind (fails_releaseOwned _ _)

/-- A child that exits with status 0 has returned; what holds all along holds however it ends. -/
theorem child_along {x : Script Unit} {Q : Unit → State → Prop} (fails : Fails x)
    (h : Along (answering A) p False R X x Q s) :
    Along (answering A) p False R Y (child x)
      (fun r t => R t ∧ ∀ m, r = .exited 0 m → Q () t) s := by
  induction x generalizing s with
  | ret a => exact ⟨h.1, h.1, fun _ _ => h.2⟩
  | exit code m =>
    refine ⟨h.1, h.1, ?_⟩
    intro m' he
    cases he
    exact absurd rfl fails
  | op e next ih =>
    rw [child_op]
    have hR := h.1
    refine ⟨hR, False.elim, ?_⟩
    intro r s' hx
    obtain ⟨hs, -⟩ := hx
    obtain rfl : s' = s := hs
    cases r with
    | alive => exact ⟨hR, False.elim, fun r s' hx => ih r (fails r) (h.2.2 r s' hx)⟩
    | killed => exact ⟨hR, hR, nofun⟩
    | timedOut => exact ⟨hR, hR, nofun⟩

/-- The job is as it was, unless the agent owned it. -/
def Spared (job agent : String) (s t : State) : Prop :=
  s.files.ownedBy job agent = true ∨ SameOwner job s t

theorem Spared.refl (job agent : String) (s : State) : Spared job agent s s := .inr rfl

theorem Spared.trans (h : Spared job agent s t) (h' : Spared job agent t u) :
    Spared job agent s u := by
  rcases h with h | h
  · exact .inl h
  · rcases h' with h' | h'
    · rw [h.ownedBy] at h'
      exact .inl h'
    · exact .inr (h.trans h')

/-- A settlement that returns has written its final status. -/
theorem settleOwned_final (hexdigest : String → String) {J : Job} (hname : validName job = true)
    (hJ : s.files.job (.named job) = some J) (hcontrol : J.controlLock = true)
    (hactive : ∃ st, J.status = some st ∧ st.active = true) (action summary : String)
    (final status : Status) :
    Along (answering A) p False (fun _ => True) (fun _ => True)
      (settleOwned hexdigest action final summary job message status)
      (fun _ t => t.files.readStatus (.named job) = final) s := by
  unfold settleOwned
  have notified := notifyChild_along hexdigest (A := A) (T := False) (p := p)
    (X := fun _ => True) hname hJ hcontrol hactive False.elim
  refine Along.bind (notified.weaken (fun _ _ => trivial) (fun _ _ h => h) ?_)
  intro r t ht _
  refine along_require trivial (fun _ => ?_) fun _ => trivial
  refine along_appendLog ht trivial (along_writeStatus (if_pos rfl) trivial ?_)
  refine along_removeLock (if_pos rfl) trivial (fun _ => ?_) fun _ => ⟨trivial, trivial⟩
  refine along_pass rfl (along_release (if_pos rfl) trivial (along_said trivial trivial ?_))
  simp [Files.readStatus, Files.jobFile]

theorem releaseOwned_final {J : Job} (hJ : s.files.job (.named job) = some J) (status : Status) :
    Along (answering A) p False (fun _ => True) (fun _ => True) (releaseOwned job message status)
      (fun _ t => t.files.readStatus (.named job) = .pending) s := by
  unfold releaseOwned
  refine along_appendLog hJ trivial (along_writeStatus (if_pos rfl) trivial ?_)
  refine along_removeAgentId (if_pos rfl) trivial ?_
  refine along_removeLock (if_pos rfl) trivial (fun _ => ?_) fun _ => ⟨trivial, trivial⟩
  refine along_pass rfl (along_release (if_pos rfl) trivial (along_said trivial trivial ?_))
  simp [Files.readStatus, Files.jobFile]

theorem Transition.along (hexdigest : String → String) (c : Transition) :
    Along (answering A) p False (Spared job agent s) (fun _ => True)
      (c.script hexdigest job agent message)
      (fun _ t => (t.files.readStatus (.named job)).active = false) s := by
  cases c with
  | fail =>
    unfold Transition.script jobFail
    rw [settle_eq]
    refine Along.bind ((ownerGuard_along (fun _ => rfl) "fail" _ _ False.elim).weaken
      (fun _ h => .inr h) (fun _ _ _ => trivial) ?_)
    rintro st t - ⟨J, hJ, -, rfl⟩
    have howned := hJ.ownedBy
    refine (settleOwned_final hexdigest (J := { J with holder := some p, controlLock := true })
      hJ.jobName (if_pos rfl) rfl hJ.status "fail" "Failed" .failed st).weaken
      (fun _ _ => .inl howned) (fun _ _ h => h) ?_
    intro _ t _ hfinal
    rw [hfinal]
    rfl
  | release =>
    unfold Transition.script
    rw [jobRelease_eq]
    refine Along.bind ((ownerGuard_along (fun _ => rfl) "release" _ _ False.elim).weaken
      (fun _ h => .inr h) (fun _ _ _ => trivial) ?_)
    rintro st t - ⟨J, hJ, -, rfl⟩
    have howned := hJ.ownedBy
    refine (releaseOwned_final (if_pos rfl) st).weaken (fun _ _ => .inl howned) (fun _ _ h => h) ?_
    intro _ t _ hfinal
    rw [hfinal]
    rfl

/-- A transition that counts as successful has taken the job from its owner. -/
theorem runJobTransition_along (hexdigest : String → String) (c : Transition) :
    Along (answering A) p False (Spared job agent s) (fun _ => True)
      (runJobTransition hexdigest c job agent message)
      (fun r t => r = true → (t.files.readStatus (.named job)).active = false) s := by
  unfold runJobTransition
  have htransition : Along (answering A) p False (Spared job agent s) (fun _ => True)
      (c.script hexdigest job agent message)
      (fun _ t => (t.files.readStatus (.named job)).active = false) s := c.along hexdigest
  have hchild := child_along (Y := fun _ => True) (c.fails hexdigest) htransition
  refine along_call hchild ?_
  rintro ended t ht ⟨-, hended⟩
  have hfree : SameOwner job t ⟨t.files.free p (.job (.named job)), t.trace⟩ := .free t p
  have htfree := ht.trans (.inr hfree)
  have warned : ∀ detail, Along (answering A) p False (Spared job agent s) (fun _ => True)
      (warnTransition c job detail)
      (fun r t => r = true → (t.files.readStatus (.named job)).active = false)
      ⟨t.files.free p (.job (.named job)), t.trace⟩ := by
    intro detail
    unfold warnTransition
    exact along_say htfree (along_pure (htfree.trans (.inr rfl)) nofun)
  refine along_unlock ht ?_
  split
  · rename_i m
    have hinactive := hended m rfl
    rw [← hfree.readStatus] at hinactive
    exact along_pure htfree fun _ => hinactive
  · exact warned _
  · exact warned _
  · exact warned _

theorem jobOwnedBy_along (hR : R s) :
    Along (answering A) p T R X (jobOwnedBy (.named job) agent)
      (fun r t => r = s.files.ownedBy job agent ∧ t = s) s := by
  unfold jobOwnedBy Files.ownedBy
  refine along_get hR ?_
  cases hactive : (s.files.readStatus (.named job)).active with
  | false => exact along_pure hR ⟨rfl, rfl⟩
  | true =>
    refine along_get hR ?_
    by_cases howner : s.files.catJob (.named job) (·.agentId) = agent
    · simp only [howner, ne_eq, not_true_eq_false, if_false, decide_true, Bool.and_self,
        Bool.true_and]
      exact along_get (f := .ret) hR (along_pure hR ⟨rfl, rfl⟩)
    · simp only [howner, ne_eq, not_false_eq_true, if_true, decide_false, Bool.and_false,
        Bool.false_and]
      exact along_pure hR ⟨rfl, rfl⟩

/-- Everything holds along a program that holds everywhere. -/
theorem along_always {α : Type} {Q : α → State → Prop} (hR : ∀ t, R t) (hX : ∀ t, X t)
    (hQ : ∀ a t, Q a t) (x : Script α) (s : State) : Along (answering A) p False R X x Q s := by
  induction x generalizing s with
  | ret a => exact ⟨hR s, hQ a s⟩
  | exit c m => exact ⟨hR s, hX s⟩
  | op e next ih => exact ⟨hR s, False.elim, fun r s' _ => ih r s'⟩

theorem SameOwner.grant (s : State) (p : ℕ) :
    SameOwner job s
      (s.record p (.locked (.job (.named job))) (s.files.grant p (.job (.named job)))) := by
  unfold SameOwner Files.grant
  cases hJ : s.files.job (.named job) <;> simp [hJ, Job.owner]

/-- The fallback leaves a job alone that its caller does not own. -/
theorem forceFailOwnedJob_along (hexdigest : String → String) :
    Along (answering A) p False (Spared job agent s) (fun _ => True)
      (forceFailOwnedJob hexdigest job agent message) (fun _ _ => True) s := by
  cases howned : s.files.ownedBy job agent with
  | true =>
    exact along_always (fun _ => .inl howned) (fun _ => trivial) (fun _ _ => trivial) _ s
  | false =>
    have hself := Spared.refl job agent s
    unfold forceFailOwnedJob
    refine along_lock hself False.elim (fun _ => ?_) fun _ => ?_
    · have hgrant : SameOwner job s _ := .grant s p
      have htaken := hself.trans (.inr hgrant)
      refine along_call (jobOwnedBy_along htaken) ?_
      rintro r t ht ⟨rfl, rfl⟩
      rw [hgrant.ownedBy, howned]
      refine along_say ht (along_unlock (ht.trans (.inr rfl)) (along_pure ?_ trivial))
      exact (ht.trans (.inr rfl)).trans (.inr (.free _ p))
    · exact along_say hself (along_pure (hself.trans (.inr rfl)) trivial)

theorem transitionOrFailClosed_along (hexdigest : String → String) (c : Transition) :
    Along (answering A) p False (Spared job agent s) (fun _ => True)
      (transitionOrFailClosed hexdigest c job agent message)
      (fun r t => r.1 = true → r.2 = false → (t.files.readStatus (.named job)).active = false)
      s := by
  unfold transitionOrFailClosed
  refine along_call (runJobTransition_along hexdigest c) ?_
  intro r t ht hr
  cases r with
  | true => exact along_pure ht fun _ _ => hr rfl
  | false =>
    refine along_call ((forceFailOwnedJob_along hexdigest).weaken
      (fun _ hu => ht.trans hu) (fun _ _ h => h) (fun _ _ _ h => h)) ?_
    intro settled u hu _
    exact along_pure hu nofun

section
variable {α β : Type} {w : WorkerState} {Q : α → WorkerState → Prop} {P : State → Prop}

theorem along_onQueue {x : Script β} {f : β → Worker α} {G : β → State → Prop}
    (h : Along (answering anyAnswer) p False P (fun _ => True) x G w.queue)
    (hf : ∀ b v, P v.queue → G b v.queue →
      Along workerKernel p False (fun v => P v.queue) (fun _ => True) (f b) Q v) :
    Along workerKernel p False (fun v => P v.queue) (fun _ => True) (onQueue x >>= f) Q w := by
  have hembed := Along.embed (L := workerKernel) (I := fun _ => True) WorkerOp.queue
    WorkerState.queue (fun _ _ _ _ _ hx => ⟨anyAnswer_exec _ _ _ _ hx.1, trivial⟩) h trivial
  refine Along.bind (hembed.weaken (fun _ h => h) (fun _ _ h => h) ?_)
  intro b v hv hb
  exact hf b v hv hb.2

/-- Changes of the attempt counter leave the queue alone. -/
theorem along_attempts {e : WorkerOp Bool} {f : Bool → Worker α} (hP : P w.queue)
    (hexec : ∀ r v, workerExec p e w r v → v.queue = w.queue)
    (hf : ∀ r v, v.queue = w.queue →
      Along workerKernel p False (fun v => P v.queue) (fun _ => True) (f r) Q v) :
    Along workerKernel p False (fun v => P v.queue) (fun _ => True) (.perform e >>= f) Q w :=
  ⟨hP, False.elim, fun r v hx => hf r v (hexec r v hx)⟩

theorem along_restoreJobAttempt {previous : ℤ} {f : Bool → Worker α} (hP : P w.queue)
    (hf : ∀ r v, v.queue = w.queue →
      Along workerKernel p False (fun v => P v.queue) (fun _ => True) (f r) Q v) :
    Along workerKernel p False (fun v => P v.queue) (fun _ => True)
      (restoreJobAttempt previous >>= f) Q w := by
  unfold restoreJobAttempt
  split_ifs
  · exact along_attempts hP (fun _ _ hx => hx.1) hf
  · exact along_attempts hP (fun _ _ hx => hx.1) hf

end

/-- A return value that lets the supervisor go on is given only when the job is not owned. -/
def GivenUp (job agent : String) (r : ℤ) (v : WorkerState) : Prop :=
  r ≠ fatalAgentExit → v.queue.files.ownedBy job agent = false

section
variable {hexdigest : String → String} {c : Transition} {w v : WorkerState} {status : ℤ}

/-- How every settlement by a transition ends. -/
theorem transition_ends (hw : Spared job agent s w.queue) :
    Along workerKernel p False (fun v => Spared job agent s v.queue) (fun _ => True)
      (onQueue (transitionOrFailClosed hexdigest c job agent message) >>= fun r =>
        if !r.1 || r.2 then pure fatalAgentExit else pure status)
      (GivenUp job agent) w := by
  refine along_onQueue ((transitionOrFailClosed_along hexdigest c).weaken (fun _ hu => hw.trans hu)
    (fun _ _ h => h) fun _ _ _ h => h) ?_
  rintro ⟨settled, usedFallback⟩ v hv hsettled
  have hgiven : settled = true → usedFallback = false → GivenUp job agent status v :=
    fun hs hu _ => not_ownedBy_of_inactive (hsettled hs hu)
  cases settled with
  | false => exact ⟨hv, fun hne => absurd rfl hne⟩
  | true =>
    cases usedFallback with
    | true => exact ⟨hv, fun hne => absurd rfl hne⟩
    | false => exact ⟨hv, hgiven rfl rfl⟩

theorem settleStoredRetryBudgetExhaustion_along (maximum : ℤ) :
    Along workerKernel p False (fun v => Spared job agent w.queue v.queue) (fun _ => True)
      (settleStoredRetryBudgetExhaustion hexdigest job agent maximum) (GivenUp job agent) w :=
  transition_ends (.refl job agent w.queue)

theorem settleJobAfterProcess_along (processStatus previousAttempts attempt maximum : ℤ)
    (interrupted : Bool) (label : String) :
    Along workerKernel p False (fun v => Spared job agent w.queue v.queue) (fun _ => True)
      (settleJobAfterProcess hexdigest job agent processStatus previousAttempts attempt maximum
        interrupted label) (GivenUp job agent) w := by
  have hself := Spared.refl job agent w.queue
  unfold settleJobAfterProcess
  refine along_onQueue (along_get (f := .ret) hself (along_pure (Q := fun r t =>
    r = w.queue.files.jobFile (.named job) (·.status) ∧ t = w.queue) hself ⟨rfl, rfl⟩)) ?_
  rintro status v hv ⟨rfl, hvw⟩
  have hgiven : ∀ st, w.queue.files.jobFile (.named job) (·.status) = some st → st.active = false →
      ∀ (r : ℤ) (u : WorkerState), u.queue = v.queue → GivenUp job agent r u := by
    intro st hst hinactive r u hu _
    have hread : u.queue.files.readStatus (.named job) = st := by
      rw [hu, hvw]
      unfold Files.readStatus
      rw [hst, Option.getD_some]
    exact not_ownedBy_of_inactive (by rw [hread]; exact hinactive)
  by_cases hterminal : (w.queue.files.jobFile (.named job) (·.status)).any Status.terminal = true
  · rw [if_pos hterminal]
    obtain ⟨st, hst, hst'⟩ := (Option.any_eq_true _ _).mp hterminal
    have hinactive : st.active = false := by cases st <;> first | rfl | cases hst'
    unfold clearJobAttempts
    refine along_attempts (P := Spared job agent w.queue) hv (fun _ _ hx => hx.1) ?_
    intro r u hu
    have hu' : Spared job agent w.queue u.queue := by rw [hu]; exact hv
    cases r with
    | true => exact ⟨hu', hgiven st hst hinactive 0 u hu⟩
    | false => exact ⟨hu', trivial⟩
  rw [if_neg hterminal]
  cases interrupted with
  | true =>
    rw [if_pos rfl]
    refine along_onQueue (jobOwnedBy_along hv) ?_
    rintro owned u hu ⟨rfl, huv⟩
    by_cases howned : v.queue.files.ownedBy job agent = true
    · rw [if_pos howned]
      refine along_restoreJobAttempt (P := Spared job agent w.queue) hu ?_
      intro restored x hx
      have hx' : Spared job agent w.queue x.queue := by rw [hx]; exact hu
      refine along_onQueue (G := fun _ _ => True) ?_ fun _ y hy _ => transition_ends hy
      cases restored with
      | true => exact along_pure hx' trivial
      | false => exact along_said hx' (hx'.trans (.inr rfl)) trivial
    · rw [if_neg howned]
      refine ⟨hu, fun _ => ?_⟩
      rw [huv]
      exact Bool.eq_false_iff.mpr howned
  | false =>
    rw [if_neg Bool.false_ne_true]
    refine along_onQueue (jobOwnedBy_along hv) ?_
    rintro owned u hu ⟨rfl, huv⟩
    by_cases howned : v.queue.files.ownedBy job agent = true
    · rw [if_pos howned]
      dsimp only
      split_ifs
      · exact transition_ends hu
      · exact transition_ends hu
    rw [if_neg howned]
    have hnot : ∀ (r : ℤ) (x : WorkerState), x.queue = u.queue → GivenUp job agent r x := by
      intro r x hx _
      rw [hx, huv]
      exact Bool.eq_false_iff.mpr howned
    by_cases hpending : w.queue.files.jobFile (.named job) (·.status) = some .pending
    · rw [if_pos hpending]
      exact ⟨hu, hnot _ u rfl⟩
    · rw [if_neg hpending]
      refine along_onQueue (along_get (f := .ret) hu (along_pure (Q := fun _ t => t = u.queue) hu
        rfl)) ?_
      intro owner x hx hxu
      split_ifs
      · exact ⟨hx, hnot 0 x hxu⟩
      · refine along_onQueue (G := fun _ _ => True) (along_said hx (hx.trans (.inr rfl)) trivial) ?_
        intro _ y hy _
        exact ⟨hy, fun hne => absurd rfl hne⟩

theorem WorkerSettling.along (x : WorkerSettling) :
    Along workerKernel p False (fun v => Spared job agent w.queue v.queue) (fun _ => True)
      (x.program hexdigest job agent) (GivenUp job agent) w := by
  cases x with
  | storedRetryBudgetExhaustion maximum => exact settleStoredRetryBudgetExhaustion_along maximum
  | afterProcess processStatus previousAttempts attempt maximum interrupted label =>
    exact settleJobAfterProcess_along _ _ _ _ _ _

end

/-- Nobody else changing the job, a settlement that does not stop the worker leaves it without the
job; and a job that is terminal or another agent's keeps its status, owner and lock at every point. -/
theorem settling_gives_up (hexdigest : String → String) (job agent : String)
    (x : WorkerSettling) (p : ℕ) (w : WorkerState) :
    (∀ r v, Runs workerKernel p (x.program hexdigest job agent) w (some r) v →
      r ≠ fatalAgentExit → v.queue.files.ownedBy job agent = false) ∧
    ((w.queue.files.readStatus (.named job)).terminal = true ∨
        (∃ other, other ≠ agent ∧ w.queue.files.ownedBy job other = true) →
      ∀ y v, Reaches workerKernel p (x.program hexdigest job agent) w y v →
        SameOwner job w.queue v.queue) := by
  constructor
  · intro r v hruns hr
    exact x.along.returned hruns hr
  · intro hforeign y v hreach
    have hnot : w.queue.files.ownedBy job agent = false := by
      rcases hforeign with hterminal | ⟨other, hne, hother⟩
      · apply not_ownedBy_of_inactive
        exact Status.inactive_of_terminal hterminal
      · unfold Files.ownedBy at hother ⊢
        simp only [Bool.and_eq_true, decide_eq_true_eq] at hother
        rw [hother.1.2, decide_eq_false hne, Bool.and_false, Bool.false_and]
    rcases (x.along.reached hreach).here with howned | hsame
    · rw [hnot] at howned
      cases howned
    · exact hsame

def evalWorker (answers : Answers) (p : ℕ) : Interp WorkerOp WorkerState
  | _, .queue e, w => (evalOp answers p e w.queue).map fun (r, q) => (r, { w with queue := q })
  | _, .unlinkAttempts, w => some (true, { w with attempts := none })
  | _, .writeAttempts value, w => some (true, { w with attempts := some value })

theorem evalWorker_sound (answers : Answers) (p : ℕ) {β : Type} (e : WorkerOp β) (w : WorkerState)
    (r : β) (w' : WorkerState) (h : evalWorker answers p e w = some (r, w')) :
    workerKernel.exec p e w r w' := by
  cases e with
  | queue e =>
    obtain ⟨⟨r', q⟩, hq, he⟩ := Option.map_eq_some_iff.mp h
    cases he
    exact ⟨evalOp_sound answers p e w.queue r q hq, rfl⟩
  | unlinkAttempts =>
    cases h
    exact ⟨rfl, rfl⟩
  | writeAttempts value =>
    cases h
    exact ⟨rfl, rfl⟩

/-- A planner's job that the agent has been running. -/
def runningJob (agent : String) : WorkerState where
  queue := { files := Files.setJob {} (.named "w") (some
    { status := some .running, role := some "planner", taskId := some "t", log := some [],
      controlLock := true, agentId := some agent, lock := some [] }) }
  attempts := some 1

def firstAttempt : WorkerSettling := .afterProcess 1 0 1 3 false "Agent"

theorem firstAttempt_gives_up :
    (∃ v, Runs workerKernel 0 (firstAttempt.program id "w" "ann") (runningJob "ann") (some 75) v ∧
      v.queue.files.ownedBy "w" "ann" = false) ∧
    ∀ y v, Reaches workerKernel 0 (firstAttempt.program id "w" "ann") (runningJob "bob") y v →
      SameOwner "w" (runningJob "bob").queue v.queue := by
  have hends : (Interp.run (evalWorker (quiet []) 0) (firstAttempt.program id "w" "ann")
      (runningJob "ann")).map Prod.fst = some (some 75) := by decide +kernel
  obtain ⟨⟨out, v⟩, hrun, rfl⟩ := Option.map_eq_some_iff.mp hends
  have hruns := Interp.run_sound (evalWorker_sound (quiet []) 0) hrun
  have howned : (runningJob "bob").queue.files.ownedBy "w" "bob" = true := by decide +kernel
  constructor
  · exact ⟨v, hruns, (settling_gives_up id "w" "ann" firstAttempt 0 _).1 75 v hruns (by decide)⟩
  · exact (settling_gives_up id "w" "ann" firstAttempt 0 _).2
      (.inr ⟨"bob", by decide, howned⟩)

end Cyclo.AgentWs
