import Cyclo.AgentWs.NoticeContracts

/-! The job commands perform only actions the queue allows. -/
namespace Cyclo.AgentWs
open Cyclo.Process Setting

section
variable {S : Setting} {p : ℕ} {s : State}

/-- A process that knows nothing in particular. -/
abbrev Nothing : State → Prop := fun _ => True

theorem lasting_nothing : Lasting Nothing := lasting_const True

theorem releaseJob {α : Type} {id : String} {Q : α → State → Prop} {f : Unit → Script α}
    (next : ∀ t, S.Safe p (f ()) Q t) : S.Safe p (releaseJobControlLock (.named id) >>= f) Q s :=
  Safe.call (releaseJobControlLock_safe lasting_nothing trivial) fun _ t _ => next t

theorem sayLine {α : Type} {text : String} {Q : α → State → Prop} {f : Unit → Script α}
    (next : ∀ t, S.Safe p (f ()) Q t) : S.Safe p (say (.line text) >>= f) Q s :=
  Safe.say (lasting_nothing.stable p) trivial (fun _ _ _ => trivial) fun _ _ => next _

theorem sayHeld {α : Type} {id text : String} {J : Job} {Q : α → State → Prop} {f : Unit → Script α}
    (hs : Held p (.named id) J Nothing s)
    (next : ∀ t, Held p (.named id) J Nothing t → S.Safe p (f ()) Q t) :
    S.Safe p (say (.line text) >>= f) Q s :=
  Safe.say (Held.stable lasting_nothing) hs (fun _ _ _ => trivial) fun _ ht =>
    next _ ⟨ht.hold, trivial⟩

theorem sayJobError {α : Type} {job message : String} {Q : α → State → Prop} {f : Unit → Script α}
    (next : ∀ t, S.Safe p (f ()) Q t) : S.Safe p (say (.jobError job message) >>= f) Q s :=
  Safe.say (lasting_nothing.stable p) trivial (fun _ _ _ => trivial) fun _ _ => next _

/-- A read whose answer the proof does not use. -/
theorem look {α β : Type} {read : Files → β} {Q : α → State → Prop} {f : β → Script α}
    (next : ∀ b t, S.Safe p (f b) Q t) : S.Safe p (get read >>= f) Q s :=
  Safe.get (lasting_nothing.stable p) trivial fun t _ _ => next _ t

theorem query {α : Type} {q : Query} {Q : α → State → Prop} {f : q.Reply → Script α}
    (next : ∀ b t, S.Safe p (f b) Q t) : S.Safe p (ask q >>= f) Q s :=
  Safe.ask (lasting_nothing.stable p) trivial fun t r _ => next r t

/-- A process that takes a control lock knows the directory it locked. -/
theorem acquireJob {α : Type} {id : String} {Q : α → State → Prop} {f : Unit → Script α}
    (next : ∀ J t, Held p (.named id) J (fun t => (p, .locked (.job (.named id))) ∈ t.trace) t →
      S.Safe p (f ()) Q t) : S.Safe p (acquireJobControlLock (.named id) >>= f) Q s := by
  refine Safe.call (acquireJobControlLock_safe lasting_nothing trivial) ?_
  rintro - t ⟨J, ht⟩
  exact next J t ⟨ht.hold, ht.known.2⟩

theorem releaseAndRefuse_safe {id : String} (src : Option String) :
    S.Safe p (releaseAndRefuse (.named id) src) (fun _ _ => True) s :=
  releaseJob fun _ => trivial

/-- `claim_job`: the status becomes `claimed` only under the control lock, of a pending job whose
gates are open, with the lock and the agent of the claimant in place. -/
theorem claimJob_safe (jobRole : Option String) {agent : String} (job : String)
    (claims : (S.cmd p).claimant = some agent) :
    S.Safe p (claimJob jobRole agent job) (fun _ _ => True) s := by
  unfold claimJob
  refine look fun b t => ?_
  split
  · trivial
  refine look fun b t => ?_
  split
  · trivial
  refine look fun b t => ?_
  split
  · trivial
  refine acquireJob fun J t ht => ?_
  have hL : Lasting fun t : State => (p, .locked (.job (.named job))) ∈ t.trace := lasting_event _
  refine Safe.get (Held.stable hL) ht fun t ht _ => ?_
  split
  · exact releaseAndRefuse_safe none
  rename_i hst
  have pending : J.status = some .pending := ht.hold.status (not_not.1 hst) (by simp)
  refine Safe.get (Held.stable hL) ht fun t ht _ => ?_
  split
  · exact releaseAndRefuse_safe none
  split
  · exact releaseAndRefuse_safe none
  refine Safe.call (terminalNoticeReadyLocked_safe hL ht) ?_
  rintro gate t ⟨ht, ready⟩
  cases gate with
  | waiting source => exact releaseAndRefuse_safe (some source)
  | ready =>
    have hL₁ := hL.and (lasting_noticeReady J)
    refine Safe.call (finalizePendingTaskCreationLocked_safe hL₁ (ht.and (ready rfl))) ?_
    rintro - t ⟨J₁, same, ht, created⟩
    have hL₂ := hL₁.and (lasting_taskCreated (.named job) J₁)
    refine Safe.call (repairPendingOwnershipLocked_safe hL₂ (ht.and (created pending))) ?_
    rintro repaired t ⟨J₂, ht, -, -, htask, hsource, htoken, hrep⟩
    cases repaired with
    | false => exact releaseAndRefuse_safe none
    | true =>
      obtain ⟨hst₂, hlock₂⟩ := hrep rfl
      refine Safe.writeJob hL₂ ht
        (g := fun J => if J.lock = none then some { J with lock := some [] } else none)
        (fun _ => rfl) ?_ (fun t ht _ => ⟨J₂, ht.hold, hst₂⟩) ?_ ?_
      · intro J' h
        rw [if_pos hlock₂] at h
        cases h
        rfl
      · intro t J₃ h₃ _ ht
        rw [if_pos hlock₂] at h₃
        cases h₃
        refine Safe.call (writeAgentId_safe hL₂ ht agent hst₂) fun _ t ht => ?_
        refine Safe.call (writeStatus_safe hL₂ ht .claimed ?_) fun _ t ht => ?_
        · intro t ht _
          obtain ⟨⟨-, hready⟩, hcreated⟩ := ht.known
          exact ⟨hst₂, rfl, ⟨agent, rfl, claims⟩, hready.same (hsource.trans same.noticeSource),
            hcreated.same htoken htask⟩
        · have hL₃ := hL₂.and (lasting_event (p, .wrote (.setStatus (.named job) .claimed)))
          refine Safe.call (releaseJobControlLock_safe hL₃ ht.known) fun _ t ht => ?_
          exact Safe.say (hL₃.stable p) ht (fun t ht _ => ht.2) fun _ _ => trivial
      · intro t _ _
        exact releaseAndRefuse_safe none

theorem claimFirst_safe (jobRole : Option String) {agent : String} (jobs : List String)
    (claims : (S.cmd p).claimant = some agent) :
    S.Safe p (claimFirst jobRole agent jobs) (fun _ _ => True) s := by
  induction jobs generalizing s with
  | nil => exact Safe.say (lasting_nothing.stable p) trivial (fun _ _ _ => trivial) fun _ _ => trivial
  | cons job rest ih =>
    refine Safe.require fun _ => Safe.call (claimJob_safe jobRole job claims) fun r t _ => ?_
    cases r with
    | claimed => trivial
    | refused => exact ih

theorem jobClaim_safe (jobId jobRole : Option String) {agent : String}
    (claims : (S.cmd p).claimant = some agent) :
    S.Safe p (jobClaim jobId jobRole agent) (fun _ _ => True) s := by
  unfold jobClaim
  rcases jobRole with _ | role
  on_goal 2 => refine Safe.require fun _ => ?_
  all_goals
    refine Safe.require fun _ => Safe.require fun _ => ?_
    cases jobId with
    | none => exact query fun jobs t => claimFirst_safe _ jobs claims
    | some job =>
      refine Safe.require fun _ => look fun b t => Safe.require fun _ => ?_
      refine Safe.call (claimJob_safe _ job claims) fun r t _ => ?_
      cases r with
      | claimed => trivial
      | refused source =>
        refine look fun status t => Safe.require fun _ => ?_
        cases source with
        | some source => trivial
        | none => exact look fun b t => Safe.require fun _ => trivial

theorem jobStart_safe (job agent : String) : S.Safe p (jobStart job agent) (fun _ _ => True) s := by
  refine Safe.require fun _ => Safe.require fun _ => look fun b t => Safe.require fun _ => ?_
  refine acquireJob fun J t ht => ?_
  have hL : Lasting fun t : State => (p, .locked (.job (.named job))) ∈ t.trace := lasting_event _
  refine Safe.get (Held.stable hL) ht fun t ht _ => Safe.require fun hst => ?_
  have claimed : J.status = some .claimed := ht.hold.status (of_decide_eq_true hst) (by simp)
  refine Safe.get (Held.stable hL) ht fun t ht _ => Safe.require fun _ => ?_
  refine Safe.call (requireAgentOwner_safe hL ht _ agent) fun _ t ht => ?_
  refine Safe.call (appendLog_safe hL ht _ _) fun _ t ⟨l, ht⟩ => ?_
  refine Safe.call (writeStatus_safe hL ht .running fun _ _ _ => claimed) fun _ t _ => ?_
  exact releaseJob fun _ => sayLine fun _ => trivial

/-- A settled job has its notice, so its terminal status may be written. -/
theorem NoticedNow.maySettle {job : String} {J : Job} {L : State → Prop} {t : State} {final : Status}
    (hn : NoticedNow S job t) (ht : Held p (.named job) J L t)
    (hst : ∃ st, J.status = some st ∧ st.active = true) (hfinal : final.terminal = true) :
    MaySetStatus S.hexdigest S.cmd p t.files (.named job) J final := by
  obtain ⟨X, hX, hn⟩ := hn
  rw [ht.hold.present] at hX
  cases hX
  cases final with
  | done | failed => exact ⟨hst, job, rfl, hn⟩
  | pending | claimed | running | other => cases hfinal

theorem Status.inactive_of_terminal {st : Status} (h : st.terminal = true) : st.active = false := by
  cases st <;> simp_all [Status.terminal, Status.active]

theorem settle_safe {job : String} (action : String) {expected : Status → Bool} (text : String)
    {final : Status} (summary agent message : String)
    (hexpected : ∀ st, expected st = true → st.active = true) (hfinal : final.terminal = true)
    (notifies : (S.cmd p).notifies = some job) :
    S.Safe p (settle S.hexdigest action expected text final summary job agent message)
      (fun _ _ => True) s := by
  refine Safe.require fun _ => Safe.require fun hvalid => Safe.require fun _ => ?_
  refine look fun b t => Safe.require fun _ => acquireJob fun J t ht => ?_
  have hL : Lasting fun t : State => (p, .locked (.job (.named job))) ∈ t.trace := lasting_event _
  refine Safe.get (Held.stable hL) ht fun t ht _ => Safe.require fun hst => ?_
  have active : ∃ st, J.status = some st ∧ st.active = true := by
    have hact := hexpected _ hst
    refine ⟨_, ht.hold.status rfl ?_, hact⟩
    intro hu
    rw [hu] at hact
    cases hact
  refine Safe.get (Held.stable hL) ht fun t ht _ => Safe.require fun _ => ?_
  refine Safe.call (requireAgentOwner_safe hL ht _ agent) fun _ t ht => ?_
  have carried : Carried S p (Held p (.named job) J _) := Held.carried hL
  have settling : Settling S p job (Held p (.named job) J fun t =>
      (p, .locked (.job (.named job))) ∈ t.trace) := by
    intro _ t ht
    obtain ⟨st, hJ, hact⟩ := active
    exact ⟨J, st, ht.hold, hJ, hact, ht.known⟩
  have published := jobNotifyPlanner_safe carried ht notifies (fun _ => hvalid) settling
  refine Safe.call (Safe.child carried ht (jobNotifyPlanner_adds _ _) published) ?_
  rintro r t ⟨-, hr⟩
  refine Safe.require fun hok => ?_
  obtain ⟨ht, noticed⟩ := hr (of_decide_eq_true hok)
  have hL₁ := hL.and (lasting_noticedNow (S := S) job)
  refine Safe.call (appendLog_safe hL₁ (ht.and noticed) _ _) fun _ t ⟨l, ht⟩ => ?_
  refine Safe.call (writeStatus_safe hL₁ ht final fun t ht _ =>
    ht.known.2.maySettle ht active hfinal) ?_
  intro _ t ht
  refine removeLock_safe (lasting_nothing) ⟨ht.hold, trivial⟩ ?_ (fun t _ => ?_) fun _ _ => trivial
  · rintro st ⟨⟩
    exact Status.inactive_of_terminal hfinal
  · exact Safe.require fun _ => releaseJob fun _ => sayLine fun _ => trivial

theorem jobRelease_safe (job agent message : String) :
    S.Safe p (jobRelease job agent message) (fun _ _ => True) s := by
  refine Safe.require fun _ => Safe.require fun _ => Safe.require fun _ => ?_
  refine look fun b t => Safe.require fun _ => acquireJob fun J t ht => ?_
  have hL : Lasting fun t : State => (p, .locked (.job (.named job))) ∈ t.trace := lasting_event _
  refine Safe.get (Held.stable hL) ht fun t ht _ => Safe.require fun hact => ?_
  have open_ : ∀ st, J.status = some st → st.terminal = false := by
    intro st hst
    rw [ht.hold.readStatus, hst] at hact
    cases st <;> simp_all [Status.terminal, Status.active]
  refine Safe.get (Held.stable hL) ht fun t ht _ => Safe.require fun _ => ?_
  refine Safe.call (requireAgentOwner_safe hL ht _ agent) fun _ t ht => ?_
  refine Safe.call (appendLog_safe hL ht _ _) fun _ t ht => ?_
  obtain ⟨l, ht⟩ := ht
  refine Safe.call (writeStatus_safe hL ht .pending fun _ _ _ => open_) fun _ t ht => ?_
  refine removeAgentId_safe lasting_nothing ⟨ht.hold, trivial⟩ rfl fun t ht => ?_
  refine removeLock_safe lasting_nothing ht (by rintro st ⟨⟩; rfl) (fun t _ => ?_) fun _ _ => trivial
  exact Safe.require fun _ => releaseJob fun _ => sayLine fun _ => trivial

theorem jobOwnedBy_safe {id : String} {J : Job} {L : State → Prop} (hL : Lasting L)
    (hs : Held p (.named id) J L s) (agent : String) :
    S.Safe p (jobOwnedBy (.named id) agent) (fun r t => Held p (.named id) J L t ∧ (r = true →
      validName id = true ∧ ∃ st, J.status = some st ∧ st.active = true)) s := by
  unfold jobOwnedBy
  refine Safe.get (Held.stable hL) hs fun t ht hv => ?_
  have valid := (hv.whole ht.hold.present).id
  split
  · exact ⟨ht, by rintro ⟨⟩⟩
  rename_i hact
  simp only [Bool.not_eq_true', Bool.not_eq_false] at hact
  have active : ∃ st, J.status = some st ∧ st.active = true := by
    refine ⟨_, ht.hold.status rfl ?_, hact⟩
    intro hu
    rw [hu] at hact
    cases hact
  refine Safe.get (Held.stable hL) ht fun t ht _ => ?_
  split
  · exact ⟨ht, by rintro ⟨⟩⟩
  · intro t₁ ho _ r t₂ hx
    obtain ⟨rfl, rfl⟩ := hx
    exact ⟨.idle, Held.stable hL ht (Others.interference ho), fun _ => ⟨valid, active⟩⟩

/-- The safety fallback of the agent settles like `job-fail`. -/
theorem forceFailOwnedJob_safe {job : String} (agent message : String)
    (notifies : (S.cmd p).notifies = some job) :
    S.Safe p (forceFailOwnedJob S.hexdigest job agent message) (fun _ _ => True) s := by
  have quit : ∀ {s} (b : Bool), S.Safe p (do releaseJobControlLock (.named job); pure b)
      (fun _ _ => True) s := fun b => releaseJob fun _ => trivial
  refine Safe.lock (lasting_nothing.stable p) trivial (fun _ _ => trivial) (fun t _ hfree => ?_) ?_
  swap
  · exact fun t _ => sayLine fun _ => trivial
  obtain ⟨J, hJ, -⟩ := Option.map_eq_some_iff.1 hfree
  have hL : Lasting fun t : State => (p, .locked (.job (.named job))) ∈ t.trace := lasting_event _
  have ht : Held p (.named job) { J with holder := some p, controlLock := true }
      (fun t => (p, .locked (.job (.named job))) ∈ t.trace)
      (t.record p (.locked (.job (.named job))) (t.files.grant p (.job (.named job)))) :=
    ⟨⟨by simp [Files.grant, hJ], rfl, by rintro x ⟨⟩⟩, List.mem_cons_self⟩
  refine Safe.call (jobOwnedBy_safe hL ht agent) ?_
  rintro owned t ⟨ht, howned⟩
  cases owned with
  | false => exact sayLine fun _ => quit false
  | true =>
    obtain ⟨valid, active⟩ := howned rfl
    have carried : Carried S p (Held p (.named job) { J with holder := some p, controlLock := true }
      fun t => (p, .locked (.job (.named job))) ∈ t.trace) := Held.carried hL
    refine Safe.call (ensurePlannerNotification_safe carried ht notifies (fun _ => valid) ?_) ?_
    · intro _ t ht
      obtain ⟨st, hst, hact⟩ := active
      exact ⟨_, st, ht.hold, hst, hact, ht.known⟩
    rintro r t ⟨ht, hok, herr⟩
    cases r with
    | error e =>
      refine Safe.say ((lasting_excused (S := S) (p := p) job).stable p) (herr e rfl)
        (fun t ht _ => ht) fun _ _ => quit false
    | ok o =>
      have hL₁ := hL.and (lasting_noticedNow (S := S) job)
      refine Safe.call (appendLog_safe hL₁ (ht.and (hok o rfl)) _ _) fun _ t ht => ?_
      obtain ⟨l, ht⟩ := ht
      refine Safe.replace hL₁ ht (g := fun J => { J with status := some .failed }) (fun _ => rfl) rfl
        (fun t ht _ => ⟨_, ht.hold, ht.known.2.maySettle ht active rfl⟩) fun t _ ht => ?_
      refine removeLock_safe lasting_nothing ⟨ht.hold, trivial⟩ (by rintro st ⟨⟩; rfl)
        (fun t _ => quit true) fun t _ => ?_
      exact sayLine fun _ => quit true

/-- The plan resets no terminal job, and unlocks only a terminal one. -/
theorem reapPlan_safe {id : String} {J : Job} {L : State → Prop} (hL : Lasting L)
    (hs : Held p (.named id) J L s) (force : Bool) {status : Status}
    (hst : J.status.getD (.other "unknown") = status) :
    S.Safe p (reapPlan force (.named id) id status) (fun r t => Held p (.named id) J L t ∧ match r with
      | .skip _ => True
      | .unlock => ∀ st, J.status = some st → st.active = false
      | .reset _ => ∀ st, J.status = some st → st.terminal = false) s := by
  have same : ∀ st, J.status = some st → st = status := by
    intro st h
    simpa [h] using hst
  cases status with
  | done | failed => exact ⟨hs, by rintro st h; rw [same st h]; rfl⟩
  | pending => exact ⟨hs, by rintro st h; rw [same st h]; rfl⟩
  | claimed | running =>
    cases force with
    | false => exact ⟨hs, trivial⟩
    | true =>
      refine Safe.call (jobOrphanReason_safe hL hs) fun r t ht => ?_
      cases r <;> exact ⟨ht, by rintro st h; rw [same st h]; rfl⟩
  | other text =>
    cases force with
    | false => exact ⟨hs, trivial⟩
    | true => exact ⟨hs, by rintro st h; rw [same st h]; rfl⟩

theorem reapJob_safe (force : Bool) (minutes : ℤ) (job : String) :
    S.Safe p (reapJob force minutes job) (fun _ _ => True) s := by
  have quit : ∀ {s}, S.Safe p (do releaseJobControlLock (.named job); pure false)
      (fun _ _ => True) s := releaseJob fun _ => trivial
  have finish : ∀ {s J}, Held p (.named job) J Nothing s →
      (∀ st, J.status = some st → st.active = false) →
      S.Safe p (reapJob.finishReap (.named job) job) (fun _ _ => True) s := by
    intro s J hs hst
    refine removeLock_safe lasting_nothing hs hst (fun t _ => ?_) fun t _ => ?_
    · exact releaseJob fun _ => trivial
    · exact sayJobError fun _ => quit
  unfold reapJob
  refine look fun b t => ?_
  split
  · trivial
  refine look fun b t => ?_
  split
  · trivial
  refine look fun b t => ?_
  split
  · trivial
  refine query fun age t => ?_
  split
  · trivial
  refine acquireJob fun J t ht => ?_
  have ht : Held p (.named job) J Nothing t := ⟨ht.hold, trivial⟩
  refine Safe.get (Held.stable lasting_nothing) ht fun t ht _ => ?_
  split
  · exact quit
  refine Safe.ask (Held.stable lasting_nothing) ht fun t age ht => ?_
  cases age with
  | none => exact quit
  | some age =>
    simp only
    split
    · exact quit
    refine Safe.get (Held.stable lasting_nothing) ht fun t ht _ => ?_
    rw [ht.hold.readStatus]
    refine Safe.call (reapPlan_safe lasting_nothing ht force rfl) ?_
    rintro plan t ⟨ht, hplan⟩
    cases plan with
    | skip message => exact sayLine fun _ => quit
    | unlock =>
      refine sayHeld ht fun t ht => ?_
      refine Safe.call (appendLog_safe lasting_nothing ht _ _) fun _ t ⟨l, ht⟩ => ?_
      exact finish ht hplan
    | reset reason =>
      refine sayHeld ht fun t ht => ?_
      refine Safe.call (appendLog_safe lasting_nothing ht _ _) fun _ t ⟨l, ht⟩ => ?_
      refine Safe.call (writeStatus_safe lasting_nothing ht .pending fun _ _ _ => hplan)
        fun _ t ht => ?_
      refine removeAgentId_safe lasting_nothing ⟨ht.hold, trivial⟩ rfl fun t ht => ?_
      exact finish ht (by rintro st ⟨⟩; rfl)

theorem jobReap_safe (force : Bool) (minutes : ℕ) :
    S.Safe p (jobReap force minutes) (fun _ _ => True) s := by
  refine Safe.require fun _ => query fun jobs t => ?_
  suffices h : ∀ n s, S.Safe p (reapJobs force minutes jobs n) (fun _ _ => True) s from h 0 t
  induction jobs with
  | nil => exact fun n s => sayLine fun _ => trivial
  | cons job rest ih => exact fun n s => Safe.call (reapJob_safe force minutes job) fun _ t _ => ih _ t

theorem validateEmptyOwnershipLock_safe {id : String} {J : Job} (hs : Held p (.named id) J Nothing s) :
    S.Safe p (validateEmptyOwnershipLock id) (fun _ t => Held p (.named id) J Nothing t) s := by
  refine Safe.get (Held.stable lasting_nothing) hs fun t ht _ => ?_
  split
  · exact ht
  · exact ht
  · exact Safe.say (Held.stable lasting_nothing) ht (fun _ _ _ => trivial)
      fun t ht => ⟨ht.hold, trivial⟩

theorem resetPending_safe (job : String) : S.Safe p (resetPending job) (fun _ _ => True) s := by
  refine acquireJob fun J t ht => ?_
  have ht : Held p (.named job) J Nothing t := ⟨ht.hold, trivial⟩
  refine Safe.get (Held.stable lasting_nothing) ht fun t ht _ => ?_
  split
  · exact releaseJob fun _ => trivial
  refine Safe.call (validateEmptyOwnershipLock_safe ht) fun empty t ht => ?_
  split
  · exact releaseJob fun _ => trivial
  refine Safe.call (finalizePendingTaskCreationLocked_safe lasting_nothing ht) ?_
  rintro - t ⟨J₁, -, ht, -⟩
  refine Safe.call (repairPendingOwnershipLocked_safe lasting_nothing ht) fun repaired t _ => ?_
  split
  · trivial
  · exact releaseJob fun _ => trivial

theorem resetOrphaned_safe {job : String} {J : Job} (hs : Held p (.named job) J Nothing s)
    (hst : ∀ st, J.status = some st → st.terminal = false) (reason : String) :
    S.Safe p (resetOrphaned job reason) (fun _ _ => True) s := by
  have quit : ∀ {s} (r : ResetResult), S.Safe p (do releaseJobControlLock (.named job); pure r)
      (fun _ _ => True) s := fun r => releaseJob fun _ => trivial
  refine sayHeld hs fun t ht => ?_
  refine Safe.call (appendLog_safe lasting_nothing ht _ _) fun _ t ⟨l, ht⟩ => ?_
  refine Safe.call (writeStatus_safe lasting_nothing ht .pending fun _ _ _ => hst) fun _ t ht => ?_
  refine removeAgentId_safe lasting_nothing ⟨ht.hold, trivial⟩ rfl fun t ht => ?_
  refine Safe.get (Held.stable lasting_nothing) ht fun t ht _ => ?_
  split
  · exact quit .reset
  · refine removeLock_safe lasting_nothing ht (by rintro st ⟨⟩; rfl) (fun t _ => ?_) fun t _ => ?_
    · exact quit .reset
    · exact sayJobError fun _ => quit .error

theorem resetActive_safe (allActive : Bool) (job : String) :
    S.Safe p (resetActive allActive job) (fun _ _ => True) s := by
  have quit : ∀ {s} (r : ResetResult), S.Safe p (do releaseJobControlLock (.named job); pure r)
      (fun _ _ => True) s := fun r => releaseJob fun _ => trivial
  refine acquireJob fun J t ht => ?_
  have ht : Held p (.named job) J Nothing t := ⟨ht.hold, trivial⟩
  refine Safe.get (Held.stable lasting_nothing) ht fun t ht _ => ?_
  split
  · exact quit .unchanged
  rename_i hact
  have open_ : ∀ st, J.status = some st → st.terminal = false := by
    intro st hst
    rw [ht.hold.readStatus, hst] at hact
    cases st <;> simp_all [Status.terminal, Status.active]
  have reason : S.Safe p (resetReason allActive (.named job))
      (fun _ t => Held p (.named job) J Nothing t) t := by
    cases allActive with
    | true => exact ht
    | false => exact jobOrphanReason_safe lasting_nothing ht
  refine Safe.call reason fun reason t ht => ?_
  cases reason with
  | none => exact quit .unchanged
  | some reason =>
    refine Safe.call (validateEmptyOwnershipLock_safe ht) fun empty t ht => ?_
    split
    · exact quit .error
    · exact resetOrphaned_safe ht open_ reason

theorem resetOrphan_safe (allActive : Bool) (job : String) :
    S.Safe p (resetOrphan allActive job) (fun _ _ => True) s := by
  refine look fun b t => ?_
  split
  · trivial
  refine look fun status t => ?_
  split
  · exact resetPending_safe job
  split
  · trivial
  · exact resetActive_safe allActive job

theorem jobResetOrphans_safe (allActive : Bool) :
    S.Safe p (jobResetOrphans allActive) (fun _ _ => True) s := by
  have loop : ∀ jobs n errors s, S.Safe p (resetOrphans allActive jobs n errors)
      (fun _ _ => True) s := by
    intro jobs
    induction jobs with
    | nil =>
      intro n errors s
      refine sayLine fun _ => ?_
      cases errors <;> trivial
    | cons job rest ih =>
      intro n errors s
      refine Safe.call (resetOrphan_safe allActive job) fun r t _ => ?_
      cases r <;> exact ih _ _ t
  cases allActive with
  | true => exact query fun b t => Safe.require fun _ => query fun jobs t => loop jobs 0 false t
  | false => exact query fun jobs t => loop jobs 0 false t

theorem hasPendingJob_safe (jobRole : Option String) (jobs : List String) :
    S.Safe p (hasPendingJob jobRole jobs) (fun _ _ => True) s := by
  induction jobs generalizing s with
  | nil => trivial
  | cons job rest ih =>
    unfold hasPendingJob
    refine look fun b t => ?_
    split
    · exact ih
    refine look fun b t => ?_
    split
    · exact ih
    refine look fun b t => ?_
    split
    · exact ih
    refine look fun b t => ?_
    split
    · exact ih
    refine look fun role t => ?_
    split
    · exact ih
    refine acquireJob fun J t ht => ?_
    have ht : Held p (.named job) J Nothing t := ⟨ht.hold, trivial⟩
    refine Safe.call (terminalNoticeReadyLocked_safe lasting_nothing ht) ?_
    rintro gate t ⟨ht, -⟩
    cases gate with
    | waiting source => exact releaseJob fun t => ih
    | ready =>
      refine Safe.call (finalizePendingTaskCreationLocked_safe lasting_nothing ht) ?_
      rintro - t ⟨J₁, -, ht, -⟩
      refine Safe.call (repairPendingOwnershipLocked_safe lasting_nothing ht) fun repaired t _ => ?_
      split
      · exact releaseJob fun t => ih
      · exact releaseJob fun _ => trivial

theorem jobWait_safe (jobRole : Option String) (rounds : ℕ) :
    S.Safe p (jobWait jobRole rounds) (fun _ _ => True) s := by
  induction rounds generalizing s with
  | zero => trivial
  | succ rounds ih =>
    refine query fun jobs t => Safe.call (hasPendingJob_safe jobRole jobs) fun found t _ => ?_
    split
    · trivial
    · exact ih

end

end Cyclo.AgentWs
