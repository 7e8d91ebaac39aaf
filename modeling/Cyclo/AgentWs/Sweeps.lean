import Cyclo.AgentWs.Transitions

/-! The commands that sweep the queue, `job-reap` and `job-reset-orphans`: what they leave of a job
they report an error for. -/
namespace Cyclo.AgentWs
open Cyclo.Process

/-- No error was reported for the job between the two states. -/
def NoReport (job : String) (s t : State) : Prop :=
  ∃ new, t.trace = new ++ s.trace ∧ ∀ q m, (q, Event.said (.jobError job m)) ∉ new

/-- An error was reported for the job between the two states. -/
def Reported (job : String) (s t : State) : Prop :=
  ∃ new q m, t.trace = new ++ s.trace ∧ (q, Event.said (.jobError job m)) ∈ new

/-- Whenever the command reports an error for the job, the job is as it was. -/
def ReportsClean (x : Script Unit) (p : ℕ) (job : String) (s : State) : Prop :=
  ∀ out t, Runs queueKernel p x s out t → Reported job s t → SameOwner job s t

variable {job : String} {s t u : State}

theorem NoReport.refl (s : State) : NoReport job s s := ⟨[], rfl, by simp⟩

theorem NoReport.trans (h : NoReport job s t) (h' : NoReport job t u) : NoReport job s u := by
  obtain ⟨new, ht, hn⟩ := h
  obtain ⟨new', hu, hn'⟩ := h'
  refine ⟨new' ++ new, by rw [hu, ht, List.append_assoc], ?_⟩
  intro q m hmem
  rcases List.mem_append.1 hmem with h | h
  · exact hn' q m h
  · exact hn q m h

theorem NoReport.event {q : ℕ} {e : Event} {f : Files} (h : NoReport job s t)
    (he : ∀ m, e ≠ .said (.jobError job m)) : NoReport job s (t.record q e f) := by
  obtain ⟨new, ht, hn⟩ := h
  refine ⟨(q, e) :: new, by simp [ht], ?_⟩
  intro q' m hmem
  rcases List.mem_cons.1 hmem with h | h
  · exact he m (Prod.mk.inj h).2.symm
  · exact hn q' m h

theorem NoReport.not_reported (h : NoReport job s t) : ¬ Reported job s t := by
  rintro ⟨new, q, m, ht, hmem⟩
  obtain ⟨new', ht', hn⟩ := h
  rw [ht, List.append_cancel_right_eq] at ht'
  rw [ht'] at hmem
  exact hn q m hmem

theorem Reported.said {q : ℕ} {m : String} {f : Files} (h : NoReport job s t) :
    Reported job s (t.record q (.said (.jobError job m)) f) := by
  obtain ⟨new, ht, -⟩ := h
  exact ⟨_ :: new, q, m, by simp [ht], List.mem_cons_self⟩

theorem Reported.event {q : ℕ} {e : Event} {f : Files} (h : Reported job s t) :
    Reported job s (t.record q e f) := by
  obtain ⟨new, q', m, ht, hmem⟩ := h
  exact ⟨(q, e) :: new, q', m, by simp [ht], List.mem_cons_of_mem _ hmem⟩

/-- What a round on another job leaves of a job. -/
def Job.hold (J : Job) : (Option Status × Option String × Option (List String)) × Option ℕ :=
  (J.owner, J.holder)

/-- The job is owned and locked as it was, and nothing was reported for it. -/
structure Untouched (job : String) (s t : State) : Prop where
  hold : (t.files.job (.named job)).map Job.hold = (s.files.job (.named job)).map Job.hold
  report : NoReport job s t

theorem Untouched.refl (job : String) (s : State) : Untouched job s s := ⟨rfl, .refl s⟩

theorem Untouched.of {J J' : Job} (hJ : s.files.job (.named job) = some J) (hfree : J.holder = none)
    (hJ' : t.files.job (.named job) = some J') (howner : J'.owner = J.owner) (hheld : J'.holder = none)
    (hreport : NoReport job s t) : Untouched job s t := by
  refine ⟨?_, hreport⟩
  rw [hJ, hJ', Option.map_some, Option.map_some, Job.hold, Job.hold, howner, hfree, hheld]

theorem Untouched.trans (h : Untouched job s t) (h' : Untouched job t u) : Untouched job s u :=
  ⟨h'.hold.trans h.hold, h.report.trans h'.report⟩

/-- The operations that leave the status, the owner and the locks of a job alone and report nothing
for it. -/
def Op.Spares (job : String) {β : Type} : Op β → Prop
  | .write w => .named job ∉ w.jobs ∨ ∃ r, w = .appendLog (.named job) r
  | .lock l | .unlock l => l ≠ .job (.named job)
  | .say o => ∀ m, o ≠ .jobError job m
  | .get _ | .ask _ => True

theorem Op.Spares.untouched {A : (q : Query) → q.Reply → Prop} {p : ℕ} {β : Type}
    (e : Op β) (t : State) (r : β) (u : State) (he : e.Spares job) (h : Untouched job s t)
    (hx : (answering A).exec p e t r u) : Untouched job s u := by
  have hx := hx.1
  cases e with
  | get f =>
    obtain ⟨-, rfl⟩ := hx
    exact h
  | ask q =>
    obtain rfl : u = t := hx
    exact h
  | say o =>
    obtain rfl : u = _ := hx
    refine ⟨h.hold, h.report.event ?_⟩
    intro m heq
    exact he m (Event.said.inj heq)
  | unlock l =>
    obtain rfl : u = _ := hx
    refine ⟨?_, h.report⟩
    rw [← h.hold]
    cases l with
    | job j =>
      have hne : Entry.named job ≠ j := fun hj => he (by rw [hj])
      simp [Files.free, hne]
    | task k | create => rfl
  | lock l =>
    simp only [exec] at hx
    split at hx
    · obtain ⟨-, rfl⟩ := hx
      exact h
    · obtain ⟨-, rfl⟩ := hx
      refine ⟨?_, h.report.event (by simp)⟩
      rw [← h.hold]
      cases l with
      | job j =>
        have hne : Entry.named job ≠ j := fun hj => he (by rw [hj])
        simp [Files.grant, hne]
      | task k | create => rfl
    · exact hx.elim
  | write w =>
    simp only [exec] at hx
    split at hx
    · rename_i f hf
      obtain ⟨-, rfl⟩ := hx
      refine ⟨?_, h.report.event (by simp)⟩
      rw [← h.hold]
      rcases he with hj | ⟨r, rfl⟩
      · exact congrArg _ ((Write.apply_frame hf).1 _ hj)
      · obtain ⟨J, J', hJ, hJ', rfl⟩ := Files.onJob_eq_some.1 hf
        cases hJ'
        simp [hJ, Job.hold, Job.owner]
    · obtain ⟨-, rfl⟩ := hx
      exact h

/-- Every operation of the script spares the job. -/
abbrev Spares (job : String) {α : Type} (x : Script α) : Prop := x.All (Op.Spares job)

namespace Spares
variable {α β : Type}

theorem get {read : Files → β} {f : β → Script α} (h : ∀ b, Spares job (f b)) :
    Spares job (AgentWs.get read >>= f) := ⟨trivial, h⟩

theorem ask {q : Query} {f : q.Reply → Script α} (h : ∀ r, Spares job (f r)) :
    Spares job (AgentWs.ask q >>= f) := ⟨trivial, h⟩

theorem call {x : Script β} {f : β → Script α} (hx : Spares job x) (h : ∀ b, Spares job (f b)) :
    Spares job (x >>= f) := Prog.All.bind hx h

theorem require {test : Bool} {m : String} {f : Unit → Script α} (h : Spares job (f ())) :
    Spares job (AgentWs.require test m >>= f) := by
  cases test with
  | false => trivial
  | true => exact h

theorem ite {c : Prop} [Decidable c] {x y : Script α} (hx : Spares job x) (hy : Spares job y) :
    Spares job (if c then x else y) := by
  split
  · exact hx
  · exact hy

theorem line {text : String} {f : Unit → Script α} (h : Spares job (f ())) :
    Spares job (say (.line text) >>= f) := ⟨fun _ => nofun, fun _ => h⟩

theorem write {w : Write} {f : Bool → Script α} (hw : (Op.write w).Spares job)
    (h : ∀ b, Spares job (f b)) : Spares job (AgentWs.write w >>= f) := ⟨hw, h⟩

theorem lock {l : LockName} {f : Bool → Script α} (hl : l ≠ .job (.named job))
    (h : ∀ b, Spares job (f b)) : Spares job (AgentWs.lock l >>= f) := ⟨hl, h⟩

theorem say {o : Output} {f : Unit → Script α} (ho : (Op.say o).Spares job)
    (h : Spares job (f ())) : Spares job (AgentWs.say o >>= f) := ⟨ho, fun _ => h⟩

theorem unlock {l : LockName} {f : Unit → Script α} (hl : l ≠ .job (.named job))
    (h : Spares job (f ())) : Spares job (AgentWs.unlock l >>= f) := ⟨hl, fun _ => h⟩

end Spares

theorem require_spares (test : Bool) (m : String) : Spares job (require test m) := by
  cases test with
  | false => trivial
  | true => trivial

theorem appendLog_spares (j : Entry) (summary detail : String) :
    Spares job (appendLog j summary detail) := by
  refine ⟨?_, fun _ => trivial⟩
  by_cases hj : Entry.named job = j
  · exact Or.inr ⟨⟨summary, detail⟩, by rw [hj]⟩
  · exact Or.inl (by simpa [Write.jobs] using hj)

theorem jobOrphanReason_spares (j : Entry) : Spares job (jobOrphanReason j) := by
  unfold jobOrphanReason
  refine .get fun _ => .ite trivial (.get fun agent => ?_)
  exact .ite trivial (.ite trivial (.get fun _ => .ite trivial trivial))

theorem acquireTaskControlLock_spares (t : Entry) : Spares job (acquireTaskControlLock t) := by
  unfold acquireTaskControlLock
  refine .get fun _ => .require (.lock nofun fun _ => .require ?_)
  exact .get fun _ => .require (.get fun _ => require_spares _ _)

theorem finalizePendingTaskCreationLocked_spares (j : Entry) :
    Spares job (finalizePendingTaskCreationLocked j) := by
  unfold finalizePendingTaskCreationLocked readStatus validateTaskId validateName
  refine .get fun token => ?_
  cases token with
  | none => trivial
  | some token =>
    refine .require (.get fun status => .ite trivial (.get fun task => ?_))
    cases task with
    | none => trivial
    | some task =>
      refine .require (.require ?_)
      iterate 4 refine .get fun _ => .require ?_
      refine .call (acquireTaskControlLock_spares _) fun _ => .get fun marker => ?_
      cases marker with
      | none => exact ⟨nofun, fun _ => trivial⟩
      | some marker =>
        refine .require ?_
        iterate 6 refine .get fun _ => .require ?_
        refine .write (Or.inl (by simp [Write.jobs])) fun _ => .require (.get fun _ => .require ?_)
        exact .unlock nofun (appendLog_spares _ _ _)

section
variable {k : String} (hk : k ≠ job)
include hk

theorem write_spares {w : Write} (hw : w.jobs = [.named k]) : (Op.write w).Spares job :=
  Or.inl (by simpa [hw] using Ne.symm hk)

theorem acquireJobControlLock_spares : Spares job (acquireJobControlLock (.named k)) := by
  unfold acquireJobControlLock
  exact ⟨by simpa [Op.Spares] using hk, fun _ => require_spares _ _⟩

theorem releaseJobControlLock_spares : Spares job (releaseJobControlLock (.named k)) :=
  ⟨by simpa [Op.Spares] using hk, fun _ => trivial⟩

theorem writeStatus_spares (st : Status) : Spares job (writeStatus (.named k) st) :=
  ⟨write_spares hk rfl, fun _ => require_spares _ _⟩

theorem repairPendingOwnershipLocked_spares :
    Spares job (repairPendingOwnershipLocked (.named k)) := by
  unfold repairPendingOwnershipLocked readStatus
  refine .get fun status => .ite trivial (.get fun locked => .ite ?_ ?_)
  · refine .write (write_spares hk rfl) fun _ => .require (.write (write_spares hk rfl) fun _ => ?_)
    exact .call (appendLog_spares _ _ _) fun _ => trivial
  · exact .write (write_spares hk rfl) fun _ => trivial

theorem jobError_spares (m : String) : (Op.say (.jobError k m)).Spares job := by
  intro m' h
  exact hk (Output.jobError.inj h).1

theorem finishReap_spares : Spares job (reapJob.finishReap (.named k) k) := by
  unfold reapJob.finishReap
  refine .write (write_spares hk rfl) fun _ => .ite (.say (jobError_spares hk _) ?_) ?_
  · exact .call (releaseJobControlLock_spares hk) fun _ => trivial
  · exact .call (releaseJobControlLock_spares hk) fun _ => trivial

omit hk in
theorem reapPlan_spares (force : Bool) (j : Entry) (status : Status) :
    Spares job (reapPlan force j k status) := by
  unfold reapPlan
  cases status with
  | done | failed | pending => trivial
  | claimed | running =>
    refine .ite trivial (.call (jobOrphanReason_spares j) fun reason => ?_)
    cases reason with
    | none => trivial
    | some reason => trivial
  | other text => exact .ite trivial trivial

/-- A round of `job-reap` on another job. -/
theorem reapJob_spares (force : Bool) (minutes : ℤ) : Spares job (reapJob force minutes k) := by
  have release : ∀ b : Bool, Spares job (do releaseJobControlLock (.named k); pure b) :=
    fun _ => .call (releaseJobControlLock_spares hk) fun _ => trivial
  unfold reapJob readStatus
  refine .get fun _ => .ite trivial (.get fun _ => .ite trivial (.get fun _ => .ite trivial ?_))
  refine .ask fun _ => .ite trivial (.call (acquireJobControlLock_spares hk) fun _ => ?_)
  refine .get fun _ => .ite (release false) (.ask fun age => ?_)
  cases age with
  | none => exact release false
  | some age =>
    refine .ite (release false) (.get fun status =>
      .call (reapPlan_spares force _ status) fun plan => ?_)
    cases plan with
    | skip message => exact .line (release false)
    | unlock => exact .line (.call (appendLog_spares _ _ _) fun _ => finishReap_spares hk)
    | reset reason =>
      refine .line (.call (appendLog_spares _ _ _) fun _ =>
        .call (writeStatus_spares hk _) fun _ => ?_)
      exact .write (write_spares hk rfl) fun _ => finishReap_spares hk

theorem validateEmptyOwnershipLock_spares : Spares job (validateEmptyOwnershipLock k) := by
  unfold validateEmptyOwnershipLock
  refine .get fun lock => ?_
  match lock with
  | none | some [] => trivial
  | some (_ :: _) => exact ⟨jobError_spares hk _, fun _ => trivial⟩

theorem resetPending_spares : Spares job (resetPending k) := by
  have release : ∀ r : ResetResult, Spares job (do releaseJobControlLock (.named k); pure r) :=
    fun _ => .call (releaseJobControlLock_spares hk) fun _ => trivial
  unfold resetPending readStatus
  refine .call (acquireJobControlLock_spares hk) fun _ => .get fun _ => .ite (release _) ?_
  refine .call (validateEmptyOwnershipLock_spares hk) fun _ => .ite (release _) ?_
  refine .call (finalizePendingTaskCreationLocked_spares _) fun _ => ?_
  exact .call (repairPendingOwnershipLocked_spares hk) fun _ => .ite trivial (release _)

theorem resetOrphaned_spares (reason : String) : Spares job (resetOrphaned k reason) := by
  have release : ∀ r : ResetResult, Spares job (do releaseJobControlLock (.named k); pure r) :=
    fun _ => .call (releaseJobControlLock_spares hk) fun _ => trivial
  unfold resetOrphaned
  refine .line (.call (appendLog_spares _ _ _) fun _ => .call (writeStatus_spares hk _) fun _ => ?_)
  refine .write (write_spares hk rfl) fun _ => .get fun _ => .ite (release _) ?_
  refine .write (write_spares hk rfl) fun _ => .ite ?_ (release _)
  exact .say (jobError_spares hk _) (release _)

theorem resetActive_spares (allActive : Bool) : Spares job (resetActive allActive k) := by
  have release : ∀ r : ResetResult, Spares job (do releaseJobControlLock (.named k); pure r) :=
    fun _ => .call (releaseJobControlLock_spares hk) fun _ => trivial
  unfold resetActive resetReason readStatus
  refine .call (acquireJobControlLock_spares hk) fun _ => .get fun _ => .ite (release _) ?_
  refine .call (.ite trivial (jobOrphanReason_spares _)) fun reason => ?_
  cases reason with
  | none => exact release _
  | some reason =>
    refine .call (validateEmptyOwnershipLock_spares hk) fun _ => .ite (release _) ?_
    exact resetOrphaned_spares hk reason

/-- A round of `job-reset-orphans` on another job. -/
theorem resetOrphan_spares (allActive : Bool) : Spares job (resetOrphan allActive k) := by
  unfold resetOrphan readStatus
  refine .get fun _ => .ite trivial (.get fun status => .ite (resetPending_spares hk) ?_)
  exact .ite trivial (resetActive_spares hk allActive)

end

/-- The job is free and locked for an owner, and its status is one the round acts on. -/
structure Reapable (force : Bool) (J : Job) (st : Status) : Prop where
  free : J.holder = none
  locked : J.lock.isSome = true
  status : J.status = some st
  acts : st.terminal = true ∨ st = .pending ∨ force = true

/-- The status, owner and lock a round leaves when it cannot remove `lock/`. -/
def refusedOwner (J : Job) (st : Status) : Option Status × Option String × Option (List String) :=
  if st.terminal then J.owner else (some .pending, none, J.lock)

/-- How a round of `job-reap` ends for its job. -/
inductive ReapEnd (force : Bool) (eager : Prop) (job : String) (J : Job) (s t : State) : Prop
  | kept : Untouched job s t → (eager → ∀ st, ¬ Reapable force J st) → ReapEnd force eager job J s t
  | unlocked {J' : Job} : J.lock = some [] → t.files.job (.named job) = some J' → J'.lock = none →
      NoReport job s t → ReapEnd force eager job J s t
  | refused {J' : Job} {st : Status} : Reapable force J st → J.lock ≠ some [] →
      t.files.job (.named job) = some J' → J'.owner = refusedOwner J st → J'.holder = none →
      Reported job s t → ReapEnd force eager job J s t

section
variable {A : (q : Query) → q.Reply → Prop} {T : Prop} {R X : State → Prop} {p : ℕ}

theorem jobOrphanReason_along (hR : R s) (j : Entry) :
    Along (answering A) p T R X (jobOrphanReason j) (fun _ t => t = s) s := by
  unfold jobOrphanReason
  refine along_get hR ?_
  split
  · exact along_pure hR rfl
  refine along_get hR ?_
  split
  · exact along_pure hR rfl
  split
  · exact along_pure hR rfl
  refine along_get hR ?_
  split
  · exact along_pure hR rfl
  · exact along_pure hR rfl

/-- When `job-reap` skips a job, only unlocks it, and resets it. -/
theorem reapPlan_along (hR : R s) (force : Bool) (j : Entry) (status : Status) :
    Along (answering A) p T R X (reapPlan force j job status)
      (fun plan t => t = s ∧ match plan with
        | .skip _ => ¬ (status.terminal = true ∨ status = .pending ∨ force = true)
        | .unlock => status.terminal = true
        | .reset _ => status.terminal = false ∧ (status = .pending ∨ force = true)) s := by
  unfold reapPlan
  cases status with
  | done | failed => exact along_pure hR ⟨rfl, rfl⟩
  | pending => exact along_pure hR ⟨rfl, rfl, Or.inl rfl⟩
  | claimed | running =>
    cases force with
    | false => exact along_pure hR ⟨rfl, by simp [Status.terminal]⟩
    | true =>
      refine along_call (jobOrphanReason_along hR j) ?_
      intro reason t _ ht
      subst ht
      cases reason with
      | none => exact along_pure hR ⟨rfl, rfl, Or.inr rfl⟩
      | some reason => exact along_pure hR ⟨rfl, rfl, Or.inr rfl⟩
  | other text =>
    cases force with
    | false => exact along_pure hR ⟨rfl, by simp [Status.terminal]⟩
    | true => exact along_pure hR ⟨rfl, rfl, Or.inr rfl⟩

theorem finishReap_along {force : Bool} {eager : Prop} {J J' : Job} {st : Status}
    (hr : Reapable force J st) (hJ' : t.files.job (.named job) = some J') (hlock : J'.lock = J.lock)
    (howner : J'.owner = refusedOwner J st) (hheld : J'.holder = some p) (hreport : NoReport job s t) :
    Along (answering A) p T (fun _ => True) (fun _ => False) (reapJob.finishReap (.named job) job)
      (fun _ u => ReapEnd force eager job J s u) t := by
  unfold reapJob.finishReap
  refine along_removeLock hJ' trivial (fun hl => ?_) (fun hl => ?_)
  · refine along_release (if_pos rfl) trivial (along_pure trivial ?_)
    exact .unlocked (hlock ▸ hl) (if_pos rfl) rfl (hreport.event (by simp))
  · refine along_say trivial (along_release (by exact hJ') trivial (along_pure trivial ?_))
    refine .refused hr (hlock ▸ hl) (if_pos rfl) howner ?_ (.said hreport)
    simp [hheld, dropHolder]

/-- A round of `job-reap`. When every age is the limit, it acts on every job it may act on. -/
theorem reapJob_along {J : Job} (hJ : s.files.job (.named job) = some J) (force : Bool) (minutes : ℤ)
    (hT : T → J.holder = none) (answer : T → ∃ r, A (.age job) r) :
    Along (answering A) p T (fun _ => True) (fun _ => False) (reapJob force minutes job)
      (fun _ t => ReapEnd force (∀ r, A (.age job) r → r = some minutes) job J s t) s := by
  unfold reapJob
  refine along_get trivial ?_
  simp only [hJ, Option.isSome_some, Bool.not_true, Bool.false_eq_true, if_false]
  refine along_get trivial ?_
  have hstatus : s.files.jobFile (.named job) (·.status) = J.status := by simp [Files.jobFile, hJ]
  rw [hstatus]
  cases hst : J.status with
  | none =>
    refine along_pure trivial (.kept (.refl job s) fun _ st hr => ?_)
    rw [hr.status] at hst
    cases hst
  | some st =>
  simp only [Option.isSome_some, Bool.not_true, Bool.false_eq_true, if_false]
  refine along_get trivial ?_
  have hlock : s.files.hasLock (.named job) = J.lock.isSome := by
    simp [Files.hasLock, Files.jobFile, hJ]
  rw [hlock]
  cases hl : J.lock.isSome with
  | false =>
    refine along_pure trivial (.kept (.refl job s) fun _ st hr => ?_)
    rw [hr.locked] at hl
    cases hl
  | true =>
  simp only [Bool.not_true, Bool.false_eq_true, if_false]
  refine along_ask trivial answer fun age hage => ?_
  split
  · rename_i hyoung
    refine along_pure trivial (.kept (.refl job s) fun eager => ?_)
    simp [eager age hage] at hyoung
  refine along_acquire hJ trivial hT fun hfree => ?_
  have hL : (s.locked p (.named job) J).files.job (.named job) =
      some { J with holder := some p, controlLock := true } := if_pos rfl
  have hreport : NoReport job s (s.locked p (.named job) J) := (NoReport.refl s).event (by simp)
  -- the job is kept when the round gives up under the control lock
  have gives_up : ∀ u : State, u.files.job (.named job) =
      some { J with holder := some p, controlLock := true } → NoReport job s u →
      ((∀ r, A (.age job) r → r = some minutes) → ∀ st, ¬ Reapable force J st) →
      Along (answering A) p T (fun _ => True) (fun _ => False)
        (do releaseJobControlLock (.named job); pure false)
        (fun _ t => ReapEnd force (∀ r, A (.age job) r → r = some minutes) job J s t) u := by
    intro u hu hrep hno
    refine along_release hu trivial (along_pure trivial (.kept ?_ hno))
    exact .of hJ hfree (if_pos rfl) rfl (by simp [dropHolder]) hrep
  refine along_get trivial ?_
  have hlock' : (s.locked p (.named job) J).files.hasLock (.named job) = true := by
    simpa [Files.hasLock, Files.jobFile] using hl
  rw [hlock']
  simp only [Bool.not_true, Bool.false_eq_true, if_false]
  refine along_ask trivial answer fun age' hage' => ?_
  cases age' with
  | none =>
    refine gives_up _ hL hreport fun eager => ?_
    cases eager none hage'
  | some age' =>
  dsimp only
  split
  · rename_i hyoung
    refine gives_up _ hL hreport fun eager => ?_
    cases eager _ hage'
    exact absurd hyoung (lt_irrefl _)
  refine along_get trivial ?_
  have hstatus' : (s.locked p (.named job) J).files.readStatus (.named job) = st := by
    simp [Files.readStatus, Files.jobFile, hst]
  rw [hstatus']
  refine along_call (reapPlan_along trivial force _ st) ?_
  intro plan t _ ht
  obtain ⟨rfl, hplan⟩ := ht
  cases plan with
  | skip message =>
    refine along_say trivial (gives_up _ hL (hreport.event (by simp)) fun _ st' hr => ?_)
    have hsame := hr.status
    rw [hst] at hsame
    cases hsame
    exact hplan hr.acts
  | unlock =>
    refine along_say trivial (along_appendLog (by exact hL) trivial ?_)
    refine finishReap_along ⟨hfree, hl, hst, Or.inl hplan⟩ (if_pos rfl) rfl ?_ rfl ?_
    · simp only [refusedOwner, hplan, if_true]
      rfl
    · exact (hreport.event (by simp)).event (by simp)
  | reset reason =>
    refine along_say trivial (along_appendLog (by exact hL) trivial ?_)
    refine along_writeStatus (if_pos rfl) trivial (along_removeAgentId (if_pos rfl) trivial ?_)
    refine finishReap_along ⟨hfree, hl, hst, Or.inr hplan.2⟩ (if_pos rfl) rfl ?_ rfl ?_
    · simp only [refusedOwner, hplan.1, Bool.false_eq_true, if_false]
      rfl
    · exact (((hreport.event (by simp)).event (by simp)).event (by simp)).event (by simp)

theorem reapJob_absent (hJ : s.files.job (.named job) = none) (force : Bool) (minutes : ℤ) :
    Along (answering A) p T (fun _ => True) X (reapJob force minutes job) (fun _ t => t = s) s := by
  unfold reapJob
  refine along_get trivial ?_
  rw [hJ]
  exact along_pure trivial rfl

/-- What the rounds on a job and on the others keep holds along the loop. -/
theorem reapJobs_along {I : State → Prop} (force : Bool) (minutes : ℤ)
    (other : ∀ t u, I t → Untouched job t u → I u)
    (round : ∀ t, I t → Along (answering A) p False (fun _ => True) I (reapJob force minutes job)
      (fun _ => I) t) (jobs : List String) (reaped : ℕ) (hs : I s) :
    Along (answering A) p False (fun _ => True) I (reapJobs force minutes jobs reaped)
      (fun _ => I) s := by
  induction jobs generalizing s reaped with
  | nil =>
    unfold reapJobs
    have h : Untouched job s (s.record p (.said (.line s!"Reaped {reaped} job(s).")) s.files) :=
      ⟨rfl, (NoReport.refl s).event (by simp)⟩
    exact along_said trivial trivial (other _ _ hs h)
  | cons k rest ih =>
    unfold reapJobs
    have next : ∀ (b : Bool) t, True → I t → Along (answering A) p False (fun _ => True) I
        (reapJobs force minutes rest (if b then reaped + 1 else reaped)) (fun _ => I) t :=
      fun b t _ ht => ih (if b then reaped + 1 else reaped) ht
    by_cases hk : k = job
    · subst hk
      exact along_call (round s hs) next
    · have spared := (reapJob_spares hk force minutes).along (K := answering A) (p := p)
        Op.Spares.untouched (Untouched.refl job s)
      refine along_call (spared.weaken (fun _ _ => trivial) (fun t _ ht => other s t hs ht)
        (fun _ t _ ht => other s t hs ht)) next

end

/-- The job is as it was, or it was unlocked and no error was reported. -/
def Swept (job : String) (J : Job) (s t : State) : Prop :=
  ∃ J', t.files.job (.named job) = some J' ∧
    (J'.owner = J.owner ∧ J'.holder = J.holder ∧
        (J.lock = none ∨ J.lock = some [] → NoReport job s t) ∨
      J'.lock = none ∧ NoReport job s t)

theorem Swept.untouched {J : Job} (h : Swept job J s t) (h' : Untouched job t u) :
    Swept job J s u := by
  obtain ⟨J₁, h₁, hend⟩ := h
  have hmap := h'.hold
  rw [h₁, Option.map_some] at hmap
  obtain ⟨J₂, h₂, hhold⟩ := Option.map_eq_some_iff.1 hmap
  simp only [Job.hold, Prod.mk.injEq] at hhold
  obtain ⟨howner, hheld⟩ := hhold
  refine ⟨J₂, h₂, hend.imp ?_ ?_⟩
  · rintro ⟨ho, hh, hn⟩
    exact ⟨howner.trans ho, hheld.trans hh, fun hl => (hn hl).trans h'.report⟩
  · rintro ⟨hl, hn⟩
    simp only [Job.owner, Prod.mk.injEq] at howner
    exact ⟨howner.2.2.trans hl, hn.trans h'.report⟩

theorem Swept.sameOwner {J : Job} (hJ : s.files.job (.named job) = some J) (h : Swept job J s t)
    (hr : Reported job s t) : SameOwner job s t := by
  obtain ⟨J', hJ', ⟨ho, -, -⟩ | ⟨-, hn⟩⟩ := h
  · exact .of hJ hJ' ho
  · exact absurd hr hn.not_reported

/-- `job-reap` cannot remove the `lock/` of the job, whose status or agent-id it has already
changed. -/
def ReapStuck (force : Bool) (J : Job) : Prop :=
  ∃ st, Reapable force J st ∧ J.lock ≠ some [] ∧ st.terminal = false ∧
    ¬ (st = .pending ∧ J.agentId = none)

theorem refusedOwner_eq_iff {force : Bool} {J : Job} {st : Status} (h : Reapable force J st) :
    refusedOwner J st = J.owner ↔ st.terminal = true ∨ st = .pending ∧ J.agentId = none := by
  unfold refusedOwner
  cases hterm : st.terminal with
  | true => simp
  | false =>
    simp only [Bool.false_eq_true, if_false, Job.owner, h.status, Prod.mk.injEq, Option.some.injEq,
      and_true, false_or]
    rw [eq_comm, @eq_comm _ none]

theorem Reapable.same {force : Bool} {J J' : Job} {st : Status} (h : Reapable force J' st)
    (howner : J'.owner = J.owner) (hheld : J'.holder = J.holder) : Reapable force J st := by
  simp only [Job.owner, Prod.mk.injEq] at howner
  exact ⟨hheld ▸ h.free, howner.2.2 ▸ h.locked, howner.1 ▸ h.status, h.acts⟩

/-- A round of `job-reap` keeps a job it is not stuck on as it was. -/
theorem ReapEnd.swept {force : Bool} {eager : Prop} {J J' : Job}
    (hJ' : t.files.job (.named job) = some J')
    (hstuck : ¬ ReapStuck force J) (hswept : Swept job J s t)
    (h : ReapEnd force eager job J' t u) : Swept job J s u := by
  cases h with
  | kept hu _ => exact hswept.untouched hu
  | @unlocked J₂ hl h₂ hnone hn =>
    obtain ⟨J₁, h₁, hend⟩ := hswept
    rw [hJ'] at h₁
    cases h₁
    refine ⟨J₂, h₂, Or.inr ⟨hnone, ?_⟩⟩
    rcases hend with ⟨ho, -, hrep⟩ | ⟨-, hrep⟩
    · simp only [Job.owner, Prod.mk.injEq] at ho
      exact (hrep (Or.inr (ho.2.2 ▸ hl))).trans hn
    · exact hrep.trans hn
  | @refused J₂ st hr hl h₂ ho hheld hrep =>
    obtain ⟨J₁, h₁, hend⟩ := hswept
    rw [hJ'] at h₁
    cases h₁
    rcases hend with ⟨howner, hh, -⟩ | ⟨hnone, -⟩
    swap
    · have hlocked := hr.locked
      rw [hnone] at hlocked
      cases hlocked
    have hrJ := hr.same howner hh
    have hlock : J'.lock = J.lock := by
      simp only [Job.owner, Prod.mk.injEq] at howner
      exact howner.2.2
    refine ⟨J₂, h₂, Or.inl ⟨?_, hheld.trans hrJ.free.symm, ?_⟩⟩
    · rw [ho, (refusedOwner_eq_iff hr).2 ?_, howner]
      by_contra hne
      obtain ⟨hterm, hpend⟩ := not_or.1 hne
      refine hstuck ⟨st, hrJ, hlock ▸ hl, by simpa using hterm, ?_⟩
      rintro ⟨hst, hagent⟩
      simp only [Job.owner, Prod.mk.injEq] at howner
      exact hpend ⟨hst, howner.2.1.trans hagent⟩
    · intro hempty
      have hlocked := hr.locked
      rw [hlock] at hl hlocked
      rcases hempty with h | h
      · rw [h] at hlocked
        cases hlocked
      · exact absurd h hl

/-- The surroundings list one job, old enough to be reaped. -/
def stale (job : String) (minutes : ℕ) : Answers
  | .listing => [job]
  | .age _ => some minutes
  | q => quiet [] q

/-- `job-reap` reports an error for a job it leaves as it was, unless the job is stuck. -/
theorem jobReap_reportsClean_iff (force : Bool) (minutes p : ℕ) (job : String) (s : State) :
    ReportsClean (jobReap force minutes) p job s ↔
      ¬ (0 < minutes ∧ ∃ J, s.files.job (.named job) = some J ∧ ReapStuck force J) := by
  constructor
  · rintro hclean ⟨hpos, J, hJ, st, hr, hl, hterm, hpend⟩
    have along : Along (answering fun q r => r = stale job minutes q) p True (fun _ => True)
        (fun _ => False) (jobReap force minutes)
        (fun _ t => Reported job s t ∧ ¬ SameOwner job s t) s := by
      unfold jobReap
      refine along_pass (decide_eq_true hpos)
        (along_ask trivial (fun _ => ⟨_, rfl⟩) fun jobs hjobs => ?_)
      subst hjobs
      unfold stale reapJobs
      refine along_call (reapJob_along hJ force minutes (fun _ => hr.free) fun _ => ⟨_, rfl⟩) ?_
      intro done t _ hend
      cases hend with
      | kept _ hno => exact absurd hr (hno (fun _ h => h) st)
      | unlocked hempty => exact absurd hempty hl
      | @refused J' st' hr' _ hJ' ho _ hrep =>
        unfold reapJobs
        have stuck : ¬ SameOwner job s t := by
          unfold SameOwner
          rw [hJ, hJ', Option.map_some, Option.map_some, Option.some.injEq, ho,
            refusedOwner_eq_iff hr']
          have hst' := hr'.status
          rw [hr.status] at hst'
          cases hst'
          simp [hterm, hpend]
        exact along_said trivial trivial ⟨hrep.event, stuck⟩
    obtain ⟨out, t, hrun⟩ := along.ends trivial
    cases out with
    | none => exact along.exited hrun
    | some a =>
      obtain ⟨hrep, hne⟩ := along.returned hrun
      exact hne (hclean _ t (hrun.mono answering_exec) hrep)
  · intro hfree out t hrun hrep
    have along : Along (answering anyAnswer) p False (fun _ => True)
        (fun t => Reported job s t → SameOwner job s t) (jobReap force minutes)
        (fun _ t => Reported job s t → SameOwner job s t) s := by
      unfold jobReap
      refine along_require trivial (fun hpos => ?_)
        (fun _ hrep => absurd hrep (NoReport.refl s).not_reported)
      refine along_ask trivial False.elim fun jobs _ => ?_
      cases hJ : s.files.job (.named job) with
      | none =>
        have loop := reapJobs_along (A := anyAnswer) (p := p) (I := Untouched job s) force
          minutes (fun t u h h' => h.trans h') (fun t ht => ?_) jobs 0 (.refl job s)
        · refine loop.weaken (fun _ h => h) (fun t _ ht hrep => ?_) (fun _ t _ ht hrep => ?_)
          · exact absurd hrep ht.report.not_reported
          · exact absurd hrep ht.report.not_reported
        · have habsent : t.files.job (.named job) = none := by
            have hmap := ht.hold
            rw [hJ, Option.map_none, Option.map_eq_none_iff] at hmap
            exact hmap
          refine (reapJob_absent habsent force minutes).weaken (fun _ h => h) (fun _ _ h => h) ?_
          rintro _ u _ rfl
          exact ht
      | some J =>
        have hstuck : ¬ ReapStuck force J := fun h => hfree ⟨of_decide_eq_true hpos, J, hJ, h⟩
        have start : Swept job J s s := ⟨J, hJ, Or.inl ⟨rfl, rfl, fun _ => .refl s⟩⟩
        have loop := reapJobs_along (A := anyAnswer) (p := p) (I := Swept job J s) force
          minutes (fun t u h h' => h.untouched h') (fun t ht => ?_) jobs 0 start
        · exact loop.weaken (fun _ h => h) (fun t _ ht => ht.sameOwner hJ)
            (fun _ t _ ht => ht.sameOwner hJ)
        · obtain ⟨J', hJ', -⟩ := id ht
          refine (reapJob_along hJ' force minutes False.elim False.elim).weaken (fun _ h => h)
            (fun _ _ h => h.elim) ?_
          intro _ u _ hend
          exact hend.swept hJ' hstuck ht
    cases out with
    | none => exact along.exited (Runs.any hrun) hrep
    | some a => exact along.returned (Runs.any hrun) hrep

/-- How a round of `job-reset-orphans` ends for its job. -/
inductive ResetEnd (job : String) (J : Job) (r : ResetResult) (s t : State) : Prop
  | kept : Untouched job s t → r ≠ .error → ResetEnd job J r s t
  | cleared {J' : Job} : J.lock = none ∨ J.lock = some [] → t.files.job (.named job) = some J' →
      J'.lock = none → NoReport job s t → r ≠ .error → ResetEnd job J r s t
  | refused {J' : Job} : J.lock ≠ none → J.lock ≠ some [] → t.files.job (.named job) = some J' →
      J'.owner = J.owner → J'.holder = J.holder → ResetEnd job J r s t

/-- The round ended the command before it changed or reported the job. -/
def Aborted (job : String) (s t : State) : Prop := SameOwner job s t ∧ NoReport job s t

section
variable {A : (q : Query) → q.Reply → Prop} {p : ℕ} {J : Job}

theorem Untouched.get (h : Untouched job s t) (hJ : s.files.job (.named job) = some J) :
    ∃ J', t.files.job (.named job) = some J' ∧ J'.owner = J.owner ∧ J'.holder = J.holder := by
  have hmap := h.hold
  rw [hJ, Option.map_some] at hmap
  obtain ⟨J', hJ', hhold⟩ := Option.map_eq_some_iff.1 hmap
  simp only [Job.hold, Prod.mk.injEq] at hhold
  exact ⟨J', hJ', hhold⟩

/-- The lock test answers for the lock it reads, and reports one that is not empty. -/
theorem validateEmptyOwnershipLock_along {X : State → Prop} (hJ : s.files.job (.named job) = some J) :
    Along (answering A) p False (fun _ => True) X (validateEmptyOwnershipLock job)
      (fun r t => r = true ∧ t = s ∧ (J.lock = none ∨ J.lock = some []) ∨
        r = false ∧ t.files = s.files ∧ J.lock ≠ none ∧ J.lock ≠ some []) s := by
  unfold validateEmptyOwnershipLock
  refine along_get trivial ?_
  have hlock : s.files.jobFile (.named job) (·.lock) = J.lock := by simp [Files.jobFile, hJ]
  rw [hlock]
  cases hl : J.lock with
  | none => exact along_pure trivial (Or.inl ⟨rfl, rfl, Or.inl rfl⟩)
  | some lock =>
    cases lock with
    | nil => exact along_pure trivial (Or.inl ⟨rfl, rfl, Or.inr rfl⟩)
    | cons x xs =>
      refine along_say trivial (along_pure trivial (Or.inr ⟨rfl, rfl, ?_, ?_⟩))
      · simp
      · simp

/-- The repair of a pending job with an empty lock leaves none. -/
theorem repairPendingOwnershipLocked_along {X : State → Prop} (hJ : t.files.job (.named job) = some J)
    (hst : J.status = some .pending) (hl : J.lock = none ∨ J.lock = some []) (hn : NoReport job s t) :
    Along (answering A) p False (fun _ => True) X (repairPendingOwnershipLocked (.named job))
      (fun r u => r = true ∧ NoReport job s u ∧ ∃ J', u.files.job (.named job) = some J' ∧
        J'.lock = none) t := by
  unfold repairPendingOwnershipLocked
  refine along_get trivial ?_
  have hstatus : t.files.readStatus (.named job) = .pending := by
    simp [Files.readStatus, Files.jobFile, hJ, hst]
  rw [hstatus]
  simp only [ne_eq, not_true_eq_false, if_false]
  refine along_get trivial ?_
  have hlock : t.files.hasLock (.named job) = J.lock.isSome := by
    simp [Files.hasLock, Files.jobFile, hJ]
  rw [hlock]
  rcases hl with hl | hl
  · rw [hl]
    simp only [Option.isSome_none, Bool.false_eq_true, if_false]
    refine along_removeAgentId hJ trivial (along_pure trivial ⟨rfl, hn.event (by simp), ?_⟩)
    exact ⟨_, if_pos rfl, hl⟩
  · rw [hl]
    simp only [Option.isSome_some, if_true]
    refine along_removeLock hJ trivial (fun _ => ?_) (fun hne => absurd hl hne)
    refine along_pass rfl (along_removeAgentId (if_pos rfl) trivial ?_)
    refine along_appendLog (if_pos rfl) trivial (along_pure trivial ⟨rfl, ?_, ?_⟩)
    · exact ((hn.event (by simp)).event (by simp)).event (by simp)
    · exact ⟨_, if_pos rfl, rfl⟩

theorem resetPending_along (hJ : s.files.job (.named job) = some J) :
    Along (answering A) p False (fun _ => True) (Aborted job s) (resetPending job)
      (fun r t => ResetEnd job J r s t) s := by
  unfold resetPending
  refine along_acquire hJ trivial False.elim fun hfree => ?_
  have hL : (s.locked p (.named job) J).files.job (.named job) =
      some { J with holder := some p, controlLock := true } := if_pos rfl
  have hreport : NoReport job s (s.locked p (.named job) J) := (NoReport.refl s).event (by simp)
  refine along_get trivial ?_
  have hstatus : (s.locked p (.named job) J).files.readStatus (.named job) =
      J.status.getD (.other "unknown") := by simp [Files.readStatus, Files.jobFile]
  rw [hstatus]
  split
  · refine along_release hL trivial (along_pure trivial (.kept ?_ (by simp)))
    exact .of hJ hfree (if_pos rfl) rfl (by simp [dropHolder]) hreport
  rename_i hst
  have hpending : J.status = some .pending := by
    cases hs : J.status with
    | none => simp [hs] at hst
    | some st =>
      rw [hs] at hst
      simpa using hst
  refine along_call (validateEmptyOwnershipLock_along hL) ?_
  intro b t _ hb
  rcases hb with ⟨rfl, rfl, hl⟩ | ⟨rfl, hfiles, hl₁, hl₂⟩
  swap
  · simp only [Bool.not_false, if_true]
    rw [← hfiles] at hL
    refine along_release hL trivial (along_pure trivial (.refused hl₁ hl₂ (if_pos rfl) rfl ?_))
    simp [dropHolder, hfree]
  simp only [Bool.not_true, Bool.false_eq_true, if_false]
  -- the creation of the task is finished before the ownership is repaired
  have spared := (@finalizePendingTaskCreationLocked_spares job (.named job)).along
    (K := answering A) (p := p) Op.Spares.untouched (Untouched.refl job (s.locked p (.named job) J))
  refine along_call (G := fun _ => Untouched job (s.locked p (.named job) J)) (spared.weaken
    (fun _ _ => trivial) (fun t _ ht => ?_) (fun _ _ _ h => h)) ?_
  · obtain ⟨J', hJ', ho, -⟩ := ht.get hL
    exact ⟨.of hJ hJ' ho, hreport.trans ht.report⟩
  intro _ t _ ht
  obtain ⟨J', hJ', ho, hh⟩ := ht.get hL
  simp only [Job.owner, Prod.mk.injEq] at ho
  refine along_call (repairPendingOwnershipLocked_along hJ' (ho.1.trans hpending) ?_
    (hreport.trans ht.report)) ?_
  · rw [ho.2.2]
    exact hl
  rintro b u _ ⟨rfl, hn, J₂, hJ₂, hnone⟩
  simp only [Bool.not_true, Bool.false_eq_true, if_false]
  exact along_release hJ₂ trivial (along_pure trivial (.cleared hl (if_pos rfl) hnone hn (by simp)))

theorem resetOrphaned_along (hJ : t.files.job (.named job) = some J)
    (hl : J.lock = none ∨ J.lock = some [])
    (hn : NoReport job s t) (J₀ : Job) (hl₀ : J₀.lock = J.lock) (reason : String) :
    Along (answering A) p False (fun _ => True) (Aborted job s) (resetOrphaned job reason)
      (fun r u => ResetEnd job J₀ r s u) t := by
  unfold resetOrphaned
  refine along_say trivial (along_appendLog (by exact hJ) trivial ?_)
  refine along_writeStatus (if_pos rfl) trivial (along_removeAgentId (if_pos rfl) trivial ?_)
  refine along_get trivial ?_
  split
  · rename_i hno
    have hnone : J.lock = none := by
      simpa [Files.hasLock, Files.jobFile] using hno
    refine along_release (if_pos rfl) trivial (along_pure trivial ?_)
    refine .cleared (Or.inl (hl₀.trans hnone)) (if_pos rfl) hnone ?_ (by simp)
    exact (((hn.event (by simp)).event (by simp)).event (by simp)).event (by simp)
  · rename_i hyes
    have hempty : J.lock = some [] := by
      refine hl.resolve_left fun hnone => hyes ?_
      simp [Files.hasLock, Files.jobFile, hnone]
    refine along_removeLock (if_pos rfl) trivial (fun _ => ?_) ?_
    swap
    · intro hne
      exact absurd hempty hne
    simp only [Bool.not_true, Bool.false_eq_true, if_false]
    refine along_release (if_pos rfl) trivial (along_pure trivial ?_)
    refine .cleared (Or.inr (hl₀.trans hempty)) (if_pos rfl) rfl ?_ (by simp)
    exact ((((hn.event (by simp)).event (by simp)).event (by simp)).event (by simp)).event (by simp)

theorem resetActive_along (hJ : s.files.job (.named job) = some J) (allActive : Bool) :
    Along (answering A) p False (fun _ => True) (Aborted job s) (resetActive allActive job)
      (fun r t => ResetEnd job J r s t) s := by
  unfold resetActive
  refine along_acquire hJ trivial False.elim fun hfree => ?_
  have hL : (s.locked p (.named job) J).files.job (.named job) =
      some { J with holder := some p, controlLock := true } := if_pos rfl
  have hreport : NoReport job s (s.locked p (.named job) J) := (NoReport.refl s).event (by simp)
  have unchanged : Along (answering A) p False (fun _ => True) (Aborted job s)
      (do releaseJobControlLock (.named job); pure ResetResult.unchanged)
      (fun r t => ResetEnd job J r s t) (s.locked p (.named job) J) := by
    refine along_release hL trivial (along_pure trivial (.kept ?_ (by simp)))
    exact .of hJ hfree (if_pos rfl) rfl (by simp [dropHolder]) hreport
  refine along_get trivial ?_
  split
  · exact unchanged
  unfold resetReason
  have reason : Along (answering A) p False (fun _ => True) (Aborted job s)
      (if allActive then pure (some "fresh runtime startup proved that no prior team process remains")
        else jobOrphanReason (.named job)) (fun _ t => t = s.locked p (.named job) J)
      (s.locked p (.named job) J) := by
    split
    · exact along_pure trivial rfl
    · exact jobOrphanReason_along trivial _
  refine along_call reason ?_
  rintro reason t _ rfl
  cases reason with
  | none => exact unchanged
  | some reason =>
    refine along_call (validateEmptyOwnershipLock_along hL) ?_
    intro b t _ hb
    rcases hb with ⟨rfl, rfl, hl⟩ | ⟨rfl, hfiles, hl₁, hl₂⟩
    swap
    · simp only [Bool.not_false, if_true]
      rw [← hfiles] at hL
      refine along_release hL trivial (along_pure trivial (.refused hl₁ hl₂ (if_pos rfl) rfl ?_))
      simp [dropHolder, hfree]
    · simp only [Bool.not_true, Bool.false_eq_true, if_false]
      exact resetOrphaned_along hL hl hreport J rfl reason

/-- A round of `job-reset-orphans`: an error leaves the job as it was. -/
theorem resetOrphan_along (hJ : s.files.job (.named job) = some J) (allActive : Bool) :
    Along (answering A) p False (fun _ => True) (Aborted job s) (resetOrphan allActive job)
      (fun r t => ResetEnd job J r s t) s := by
  unfold resetOrphan
  refine along_get trivial ?_
  split
  · exact along_pure trivial (.kept (.refl job s) (by simp))
  refine along_get trivial ?_
  split
  · exact resetPending_along hJ
  split
  · exact along_pure trivial (.kept (.refl job s) (by simp))
  · exact resetActive_along hJ allActive

theorem resetOrphan_absent {X : State → Prop} (hJ : s.files.job (.named job) = none)
    (allActive : Bool) : Along (answering A) p False (fun _ => True) X (resetOrphan allActive job)
      (fun r t => t = s ∧ r ≠ .error) s := by
  unfold resetOrphan
  refine along_get trivial ?_
  simp only [Files.jobFile, hJ, Option.bind_none, Option.isSome_none, Bool.not_false, if_true]
  exact along_pure trivial ⟨rfl, by simp⟩

/-- What the rounds on a job and on the others keep holds along the loop. -/
theorem resetOrphans_along {I X : State → Prop} {allActive : Bool}
    (other : ∀ t u, I t → Untouched job t u → I u) (hX : ∀ t, I t → X t)
    (round : ∀ t, I t → Along (answering A) p False (fun _ => True) X (resetOrphan allActive job)
      (fun _ => I) t) (jobs : List String) (count : ℕ) (errors : Bool) (hs : I s) :
    Along (answering A) p False (fun _ => True) X (resetOrphans allActive jobs count errors)
      (fun _ => I) s := by
  induction jobs generalizing s count errors with
  | nil =>
    unfold resetOrphans
    have line : ∀ m, I (s.record p (.said (.line m)) s.files) := fun m =>
      other s _ hs ⟨rfl, (NoReport.refl s).event (by simp)⟩
    refine along_say trivial ?_
    split
    · exact ⟨trivial, hX _ (line _)⟩
    · exact along_pure trivial (line _)
  | cons k rest ih =>
    unfold resetOrphans
    by_cases hk : k = job
    · subst hk
      refine along_call (round s hs) fun r t _ ht => ?_
      cases r with
      | unchanged => exact ih _ _ ht
      | reset => exact ih _ _ ht
      | error => exact ih _ _ ht
    · have spared := (resetOrphan_spares hk allActive).along (K := answering A) (p := p)
        Op.Spares.untouched (Untouched.refl job s)
      refine along_call (G := fun _ => I) (spared.weaken (fun _ _ => trivial)
        (fun t _ ht => hX t (other s t hs ht)) (fun _ t _ ht => other s t hs ht)) fun r t _ ht => ?_
      cases r with
      | unchanged => exact ih _ _ ht
      | reset => exact ih _ _ ht
      | error => exact ih _ _ ht

end

theorem ResetEnd.swept {J J' : Job} {r : ResetResult} (hJ' : t.files.job (.named job) = some J')
    (hswept : Swept job J s t) (h : ResetEnd job J' r t u) : Swept job J s u := by
  cases h with
  | kept hu _ => exact hswept.untouched hu
  | @cleared J₂ hl h₂ hnone hn _ =>
    obtain ⟨J₁, h₁, hend⟩ := hswept
    rw [hJ'] at h₁
    cases h₁
    refine ⟨J₂, h₂, Or.inr ⟨hnone, ?_⟩⟩
    rcases hend with ⟨ho, -, hrep⟩ | ⟨-, hrep⟩
    · simp only [Job.owner, Prod.mk.injEq] at ho
      exact (hrep (ho.2.2 ▸ hl)).trans hn
    · exact hrep.trans hn
  | @refused J₂ hl₁ hl₂ h₂ ho hh =>
    obtain ⟨J₁, h₁, hend⟩ := hswept
    rw [hJ'] at h₁
    cases h₁
    rcases hend with ⟨howner, hheld, -⟩ | ⟨hnone, -⟩
    swap
    · exact absurd hnone hl₁
    refine ⟨J₂, h₂, Or.inl ⟨ho.trans howner, hh.trans hheld, fun hempty => ?_⟩⟩
    simp only [Job.owner, Prod.mk.injEq] at howner
    rw [← howner.2.2] at hempty
    exact absurd hempty (not_or.2 ⟨hl₁, hl₂⟩)

/-- `job-reset-orphans` leaves every job it reports an error for as it was: it looks into `lock/`
before it changes anything. -/
theorem jobResetOrphans_reportsClean (allActive : Bool) (p : ℕ) (job : String) (s : State) :
    ReportsClean (jobResetOrphans allActive) p job s := by
  intro out t hrun hrep
  have loop : ∀ jobs, Along (answering anyAnswer) p False (fun _ => True)
      (fun t => Reported job s t → SameOwner job s t) (resetOrphans allActive jobs 0 false)
      (fun _ t => Reported job s t → SameOwner job s t) s := by
    intro jobs
    cases hJ : s.files.job (.named job) with
    | none =>
      have clean : ∀ t, Untouched job s t → Reported job s t → SameOwner job s t :=
        fun t ht hrep => absurd hrep ht.report.not_reported
      refine (resetOrphans_along (I := Untouched job s) (fun t u h h' => h.trans h') clean
        (fun t ht => ?_) jobs 0 false (.refl job s)).weaken (fun _ h => h) (fun _ _ h => h)
        (fun _ t _ ht => clean t ht)
      have habsent : t.files.job (.named job) = none := by
        have hmap := ht.hold
        rw [hJ, Option.map_none, Option.map_eq_none_iff] at hmap
        exact hmap
      refine (resetOrphan_absent habsent allActive).weaken (fun _ h => h) (fun _ _ h => h) ?_
      rintro _ u _ ⟨rfl, -⟩
      exact ht
    | some J =>
      have clean : ∀ t, Swept job J s t → Reported job s t → SameOwner job s t :=
        fun t ht hrep => ht.sameOwner hJ hrep
      have start : Swept job J s s := ⟨J, hJ, Or.inl ⟨rfl, rfl, fun _ => .refl s⟩⟩
      refine (resetOrphans_along (I := Swept job J s) (fun t u h h' => h.untouched h') clean
        (fun t ht => ?_) jobs 0 false start).weaken (fun _ h => h) (fun _ _ h => h)
        (fun _ t _ ht => clean t ht)
      obtain ⟨J', hJ', -⟩ := id ht
      refine (resetOrphan_along hJ' allActive).weaken (fun _ h => h) (fun u _ hu hrep => ?_) ?_
      · obtain ⟨J₁, hJ₁, ⟨ho, -, -⟩ | ⟨-, hn⟩⟩ := ht
        · exact (SameOwner.of hJ hJ₁ ho).trans hu.1
        · exact absurd hrep (hn.trans hu.2).not_reported
      · intro r u _ hend
        exact hend.swept hJ' ht
  have clean : Along (answering anyAnswer) p False (fun _ => True)
      (fun t => Reported job s t → SameOwner job s t) (jobResetOrphans allActive)
      (fun _ t => Reported job s t → SameOwner job s t) s := by
    unfold jobResetOrphans
    cases allActive with
    | false => exact along_ask trivial False.elim fun jobs _ => loop jobs
    | true =>
      refine along_ask trivial False.elim fun inherited _ => ?_
      refine along_require trivial (fun _ => ?_)
        (fun _ hrep => absurd hrep (NoReport.refl s).not_reported)
      exact along_ask trivial False.elim fun jobs _ => loop jobs
  cases out with
  | none => exact clean.exited (Runs.any hrun) hrep
  | some a => exact clean.returned (Runs.any hrun) hrep

/-- When a failing transition leaves its job as it was. The owner's transitions and `job-reap` find
out that `lock/` is not empty only when they remove it, after they have changed the rest;
`job-reset-orphans` looks first. -/
theorem failing_transitions (hexdigest : String → String) (p : ℕ) (s : State)
    (job agent message : String) (force : Bool) (minutes : ℕ) (allActive : Bool) :
    (FailsClean (jobDone hexdigest job agent message) p job s ↔
      ¬ ∃ J, Accepted (· = .running) job agent message s J ∧
        s.files.noticeObtainable hexdigest job = true ∧ J.lock ≠ some []) ∧
    (FailsClean (jobFail hexdigest job agent message) p job s ↔
      ¬ ∃ J, Accepted Status.active job agent message s J ∧
        s.files.noticeObtainable hexdigest job = true ∧ J.lock ≠ some []) ∧
    (FailsClean (jobRelease job agent message) p job s ↔
      ¬ ∃ J, Accepted Status.active job agent message s J ∧ J.lock ≠ some []) ∧
    (ReportsClean (jobReap force minutes) p job s ↔
      ¬ (0 < minutes ∧ ∃ J, s.files.job (.named job) = some J ∧ ReapStuck force J)) ∧
    ReportsClean (jobResetOrphans allActive) p job s ∧
    ∀ out t, Runs queueKernel p (resetOrphan allActive job) s out t →
      out = none ∨ out = some .error → SameOwner job s t := by
  refine ⟨?_, ?_, ?_, ?_, ?_, ?_⟩
  · refine settle_failsClean_iff hexdigest (fun st hst => ?_) rfl "complete" "running" "Done" job agent
      message p s
    rw [of_decide_eq_true hst]
    rfl
  · exact settle_failsClean_iff hexdigest (fun st hst => hst) rfl "fail" "claimed or running" "Failed"
      job agent message p s
  · exact jobRelease_failsClean_iff job agent message p s
  · exact jobReap_reportsClean_iff force minutes p job s
  · exact jobResetOrphans_reportsClean allActive p job s
  · intro out t hrun herror
    cases hJ : s.files.job (.named job) with
    | none =>
      have along := resetOrphan_absent (A := anyAnswer) (p := p) (X := fun _ => False) hJ allActive
      cases out with
      | none => exact (along.exited (Runs.any hrun)).elim
      | some r =>
        obtain ⟨rfl, -⟩ := along.returned (Runs.any hrun)
        rfl
    | some J =>
      have along := resetOrphan_along (A := anyAnswer) (p := p) hJ allActive
      cases out with
      | none => exact (along.exited (Runs.any hrun)).1
      | some r =>
        obtain rfl : r = .error := by simpa using herror
        cases along.returned (Runs.any hrun) with
        | kept _ hne => exact absurd rfl hne
        | cleared _ _ _ _ hne => exact absurd rfl hne
        | refused _ _ hJ' ho _ => exact .of hJ hJ' ho

/-- A running job of `ann` with a file in its `lock/`. -/
def dirtyJob : Job where
  status := some .running
  role := some "coder"
  taskId := some "t"
  agentId := some "ann"
  lock := some ["x"]
  controlLock := true

def dirtyQueue : State where
  files := { job := fun j => if j = .named "w" then some dirtyJob else none }

/-- `job-release` fails on the file in `lock/` when the job is already pending and has no owner. -/
theorem release_loses_owner : ¬ ∀ (hexdigest : String → String) (p : ℕ) (s : State)
    (job agent message : String) (force : Bool) (minutes : ℕ) (allActive : Bool),
    FailsClean (jobDone hexdigest job agent message) p job s ∧
    FailsClean (jobFail hexdigest job agent message) p job s ∧
    FailsClean (jobRelease job agent message) p job s ∧
    ReportsClean (jobReap force minutes) p job s ∧
    ReportsClean (jobResetOrphans allActive) p job s := by
  intro hall
  have computed : (Interp.run (evalOp (quiet []) 0) (jobRelease "w" "ann" "later") dirtyQueue).map
      (fun r => (r.1.isNone, r.2.files.readStatus (.named "w"))) = some (true, .pending) := by
    decide +kernel
  obtain ⟨⟨out, t⟩, hrun, hend⟩ := Option.map_eq_some_iff.1 computed
  obtain ⟨hout, hstatus⟩ := Prod.mk.inj hend
  obtain rfl := Option.isNone_iff_eq_none.1 hout
  have same := (hall id 0 dirtyQueue "w" "ann" "later" false 0 false).2.2.1 t
    (Interp.run_sound (evalOp_sound (quiet []) 0) hrun)
  have before : dirtyQueue.files.readStatus (.named "w") = .running := rfl
  rw [same.readStatus, before] at hstatus
  cases hstatus

end Cyclo.AgentWs
