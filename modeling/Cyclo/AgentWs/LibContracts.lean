import Cyclo.AgentWs.Rules

/-! What each function of `bin/lib-agentws` leaves its caller with, whatever the other processes
do. -/
namespace Cyclo.AgentWs
open Cyclo.Process Setting

section
variable {S : Setting} {p : ℕ} {s : State} {id : String} {J : Job} {L : State → Prop}

/-- The files of a job the claim gates read. -/
structure SameMarks (J J' : Job) : Prop where
  status : J'.status = J.status
  role : J'.role = J.role
  taskId : J'.taskId = J.taskId
  noticeSource : J'.noticeSource = J.noticeSource
  transaction : J'.transaction = J.transaction
  lock : J'.lock = J.lock

theorem SameMarks.refl (J : Job) : SameMarks J J := ⟨rfl, rfl, rfl, rfl, rfl, rfl⟩

theorem NoticeReady.same {f : Files} {J J' : Job} (h : NoticeReady f J)
    (hs : J'.noticeSource = J.noticeSource) : NoticeReady f J' :=
  fun source h' => h source (hs ▸ h')

theorem TaskCreated.same {f : Files} {j : Entry} {J J' : Job} (h : TaskCreated f j J)
    (ht : J'.transaction = J.transaction) (hi : J'.taskId = J.taskId) : TaskCreated f j J' := by
  intro h'
  obtain ⟨task, T, htask, hj⟩ := h (ht ▸ h')
  exact ⟨task, T, hi.trans htask, hj⟩

/-- Whoever takes the control lock of a published job holds it, and remembers the moment. -/
theorem acquireJobControlLock_safe (hL : Lasting L) (hs : L s) :
    S.Safe p (acquireJobControlLock (.named id))
      (fun _ t => ∃ J, Held p (.named id) J
        (fun t => L t ∧ (p, .locked (.job (.named id))) ∈ t.trace) t) s := by
  refine Safe.lock (hL.stable p) hs (fun _ _ => trivial) ?_ (fun _ _ => trivial)
  intro t ht hfree
  have hact : S.act p t (t.record p (.locked (.job (.named id)))
      (t.files.grant p (.job (.named id)))) :=
    .lock hfree trivial
  obtain ⟨J, hJ, -⟩ := Option.map_eq_some_iff.1 hfree
  exact ⟨{ J with holder := some p, controlLock := true },
    ⟨by simp [Files.grant, hJ], rfl, by rintro x ⟨⟩⟩,
    hL ht (Setting.act_grows' hact), List.mem_cons_self⟩

theorem releaseJobControlLock_safe (hL : Lasting L) (hs : L s) :
    S.Safe p (releaseJobControlLock (.named id)) (fun _ t => L t) s := by
  refine Safe.unlock (hL.stable p) hs fun t ht => ?_
  exact hL ht (Setting.act_grows' (S := S) (p := p) (Action.free (.job (.named id))))

theorem appendLog_safe (hL : Lasting L) (hs : Held p (.named id) J L s) (summary detail : String) :
    S.Safe p (appendLog (.named id) summary detail)
      (fun _ t => ∃ l, Held p (.named id) { J with log := some l } L t) s := by
  refine Safe.replace hL hs (g := fun J =>
    { J with log := some (J.log.getD [] ++ [⟨summary, detail⟩]) })
    (fun _ => rfl) rfl (fun t ht _ => ⟨J, ht.hold⟩) fun t _ ht => ⟨_, ht⟩

theorem writeStatus_safe {j : Entry} (hL : Lasting L) (hs : Held p j J L s) (st : Status)
    (may : ∀ t, Held p j J L t → S.Visited t →
      MaySetStatus S.hexdigest S.cmd p t.files j J st) :
    S.Safe p (writeStatus j st)
      (fun _ t => Held p j { J with status := some st }
        (fun t => L t ∧ (p, .wrote (.setStatus j st)) ∈ t.trace) t) s := by
  refine Safe.replace hL hs (g := fun J => { J with status := some st }) (fun _ => rfl) rfl
    (fun t ht hv => ⟨J, ht.hold, may t ht hv⟩) fun t hm ht => ?_
  exact ht.and hm

theorem writeAgentId_safe (hL : Lasting L) (hs : Held p (.named id) J L s) (agent : String)
    (hst : J.status = some .pending) :
    S.Safe p (writeAgentId (.named id) agent)
      (fun _ t => Held p (.named id) { J with agentId := some agent } L t) s :=
  Safe.replace hL hs (g := fun J => { J with agentId := some agent }) (fun _ => rfl) rfl
    (fun _ ht _ => ⟨J, ht.hold, hst⟩) fun _ _ ht => ht

theorem removeAgentId_safe {α : Type} {Q : α → State → Prop} {f : Bool → Script α}
    (hL : Lasting L) (hs : Held p (.named id) J L s) (hst : J.status = some .pending)
    (next : ∀ t, Held p (.named id) { J with agentId := none } L t → S.Safe p (f true) Q t) :
    S.Safe p (write (.removeAgentId (.named id)) >>= f) Q s :=
  Safe.replace hL hs (g := fun J => { J with agentId := none }) (fun _ => rfl) rfl
    (fun _ ht _ => ⟨J, ht.hold, hst⟩) fun t _ ht => next t ht

theorem removeLock_safe {α : Type} {Q : α → State → Prop} {f : Bool → Script α}
    (hL : Lasting L) (hs : Held p (.named id) J L s)
    (hst : ∀ st, J.status = some st → st.active = false)
    (done : ∀ t, Held p (.named id) { J with lock := none } L t → S.Safe p (f true) Q t)
    (refused : ∀ t, Held p (.named id) J L t → S.Safe p (f false) Q t) :
    S.Safe p (write (.removeLock (.named id)) >>= f) Q s := by
  refine Safe.writeJob hL hs (g := fun J => if J.lock = some [] then some { J with lock := none }
    else none) (fun _ => rfl) ?_ (fun t ht _ => ⟨J, ht.hold, hst⟩) ?_ (fun t _ ht => refused t ht)
  · intro J' h
    split at h <;> cases h
    rfl
  · intro t J' h _ ht
    split at h <;> cases h
    exact done t ht

theorem terminalNoticeReadyLocked_safe (hL : Lasting L) (hs : Held p (.named id) J L s) :
    S.Safe p (terminalNoticeReadyLocked (.named id))
      (fun r t => Held p (.named id) J L t ∧ (r = .ready → NoticeReady t.files J)) s := by
  have stable : Stable p (Held p (.named id) J L) := Held.stable hL
  unfold terminalNoticeReadyLocked
  refine Safe.get stable hs fun t ht _ => ?_
  rw [ht.hold.jobFile]
  cases hsrc : J.noticeSource with
  | none => exact ⟨ht, fun _ source h => by simp [hsrc] at h⟩
  | some source =>
    refine Safe.require fun _ => ?_
    refine Safe.get stable ht fun t ht _ => Safe.require fun _ => ?_
    refine Safe.get stable ht fun t ht _ => Safe.require fun _ => ?_
    refine Safe.get stable ht fun t ht _ => Safe.require fun _ => ?_
    refine Safe.get stable ht fun t ht _ => Safe.require fun _ => ?_
    refine Safe.get stable ht fun t ht _ => ?_
    refine Safe.get stable ht fun t ht _ => ?_
    refine Safe.get stable ht fun t ht _ => ?_
    refine Safe.get stable ht fun t ht _ => ?_
    refine Safe.require fun _ => Safe.require fun _ => Safe.require fun _ => ?_
    refine Safe.get stable ht fun t ht _ => ?_
    -- the source is terminal in the state its status was read in
    have ready : ∀ st, t.files.readStatus (.named source) = st → st.terminal = true →
        NoticeReady t.files J := by
      intro st hr hterm src h
      rw [hsrc] at h
      cases h
      obtain ⟨X, hX, hst⟩ := Files.readStatus_eq hr (by rintro rfl; cases hterm)
      exact ⟨X, st, hX, hst, hterm⟩
    cases hst : t.files.readStatus (.named source) with
    | done | failed => exact ⟨ht, fun _ => ready _ hst rfl⟩
    | pending | claimed | running => exact ⟨ht, by rintro ⟨⟩⟩
    | other => trivial

/-- A task control lock is taken under a job's control lock and leaves the job alone. -/
theorem acquireTaskControlLock_safe {j : Entry} (hL : Lasting L) (hs : Held p j J L s)
    (task : String) : S.Safe p (acquireTaskControlLock (.named task))
      (fun _ t => Held p j J (fun t => L t ∧ TaskPublished task t) t) s := by
  refine Safe.get (Held.stable hL) hs fun t ht _ => Safe.require fun hsome => ?_
  have published : TaskPublished task t := Option.isSome_iff_exists.1 hsome
  have ht := ht.and published
  have hL' := hL.and (lasting_taskPublished task)
  have stable : Stable p (Held p j J fun t => L t ∧ TaskPublished task t) := Held.stable hL'
  refine Safe.lock stable ht (fun _ _ => trivial) (fun t ht hfree => ?_) (fun _ _ => trivial)
  have hact : S.act p t (t.record p (.locked (.task (.named task)))
      (t.files.grant p (.task (.named task)))) := .lock hfree trivial
  have granted : Held p j J (fun t => L t ∧ TaskPublished task t)
      (t.record p (.locked (.task (.named task))) (t.files.grant p (.task (.named task)))) :=
    ⟨⟨ht.hold.present, ht.hold.holder, ht.hold.creator⟩, hL' ht.known (Setting.act_grows' hact)⟩
  refine Safe.require fun _ => ?_
  refine Safe.get stable granted fun t ht _ => Safe.require fun _ => ?_
  refine Safe.get stable ht fun t ht _ => ?_
  cases (t.files.task (.named task)).any (·.controlLock) with
  | false => trivial
  | true => exact ht

theorem releaseTaskControlLock_safe {j : Entry} (hL : Lasting L) (hs : Held p j J L s)
    (task : String) : S.Safe p (releaseTaskControlLock (.named task))
    (fun _ t => Held p j J L t) s := by
  refine Safe.unlock (Held.stable hL) hs fun t ht => ?_
  exact ⟨⟨ht.hold.present, ht.hold.holder, ht.hold.creator⟩,
    hL ht.known (Setting.act_grows' (S := S) (p := p) (Action.free (.task (.named task))))⟩

/-- After the recovery of an interrupted creation a pending planner job's task is created. -/
theorem finalizePendingTaskCreationLocked_safe (hL : Lasting L) (hs : Held p (.named id) J L s) :
    S.Safe p (finalizePendingTaskCreationLocked (.named id))
      (fun _ t => ∃ J', SameMarks J J' ∧ Held p (.named id) J' L t ∧
        (J.status = some .pending → TaskCreated t.files (.named id) J')) s := by
  have stable : Stable p (Held p (.named id) J L) := Held.stable hL
  unfold finalizePendingTaskCreationLocked
  refine Safe.get stable hs fun t ht _ => ?_
  rw [ht.hold.jobFile]
  cases htok : J.transaction with
  | none => exact ⟨J, .refl J, ht, fun _ h => absurd htok h⟩
  | some token =>
    refine Safe.require fun _ => Safe.get stable ht fun t ht _ => ?_
    rw [ht.hold.readStatus]
    split
    · rename_i hne
      refine ⟨J, .refl J, ht, fun hst => ?_⟩
      simp [hst] at hne
    refine Safe.get stable ht fun t ht _ => ?_
    rw [ht.hold.jobFile]
    cases htask : J.taskId with
    | none => trivial
    | some task =>
      refine Safe.require fun _ => Safe.require fun hname => ?_
      refine Safe.get stable ht fun t ht _ => Safe.require fun _ => ?_
      refine Safe.get stable ht fun t ht _ => Safe.require fun _ => ?_
      refine Safe.get stable ht fun t ht _ => Safe.require fun _ => ?_
      refine Safe.get stable ht fun t ht _ => Safe.require fun _ => ?_
      have hid : id = planJobId task := of_decide_eq_true hname
      refine Safe.call (acquireTaskControlLock_safe hL ht task) fun _ t ht => ?_
      have hL₁ := hL.and (lasting_taskPublished task)
      have hL₂ := hL₁.and (lasting_taskCreated (.named id) J)
      refine Safe.get (Held.stable hL₁) ht fun t ht _ => ?_
      obtain ⟨T, hT⟩ := ht.known.2
      have created : T.creating = none → TaskCreated t.files (.named id) J :=
        fun hc _ => ⟨task, T, htask, by rw [hid], hT, hc⟩
      cases hmark : t.files.taskFile (.named task) (·.creating) with
      | none =>
        have hc : T.creating = none := by simpa [Files.taskFile, hT] using hmark
        refine (releaseTaskControlLock_safe hL₂ (ht.and (created hc)) task).weaken fun _ t ht => ?_
        exact ⟨J, .refl J, ⟨ht.hold, ht.known.1.1⟩, fun _ => ht.known.2⟩
      | some marker =>
        refine Safe.require fun _ => ?_
        refine Safe.get (Held.stable hL₁) ht fun t ht _ => Safe.require fun _ => ?_
        refine Safe.get (Held.stable hL₁) ht fun t ht _ => Safe.require fun _ => ?_
        refine Safe.get (Held.stable hL₁) ht fun t ht _ => Safe.require fun _ => ?_
        refine Safe.get (Held.stable hL₁) ht fun t ht _ => Safe.require fun _ => ?_
        refine Safe.get (Held.stable hL₁) ht fun t ht _ => Safe.require fun _ => ?_
        refine Safe.get (Held.stable hL₁) ht fun t ht _ => Safe.require fun hmatch => ?_
        have finish : MayFinish task token t := by
          obtain ⟨T, hT⟩ := ht.known.2
          refine ⟨T, hT, ?_⟩
          have hm : (T.creating).getD "" = token := by
            simpa [Files.catTask, Files.taskFile, hT, ht.hold.catJob, htok] using hmatch
          cases hc : T.creating with
          | none => exact Or.inl rfl
          | some x => simp_all
        have hL₃ := hL₁.and (lasting_mayFinish task token)
        have may : ∀ t, Held p (.named id) J (fun t => (L t ∧ TaskPublished task t) ∧
            MayFinish task token t) t → Allowed S.hexdigest S.cmd p t
              (.removeCreating (.named task)) := by
          intro t ht
          obtain ⟨T, hT, hc⟩ := ht.known.2
          refine ⟨task, token, J, rfl, hid ▸ ht.hold, htok, htask, fun T' hT' => ?_⟩
          rw [hT] at hT'
          cases hT'
          exact hc
        refine Safe.write (Held.stable hL₃) (ht.and finish) (fun t ht _ => may t ht)
          (fun t f' ht _ hf => ?_) (fun _ _ _ => trivial)
        have hact : S.act p t (t.record p (.wrote (.removeCreating (.named task))) f') :=
          .write (may t ht) hf
        have held : Held p (.named id) J L (t.record p (.wrote (.removeCreating (.named task))) f') :=
          ⟨⟨((Write.apply_frame hf).1 _ (by simp [Write.jobs])).trans ht.hold.present, ht.hold.holder,
            by rintro x ⟨⟩⟩, hL ht.known.1.1 (Setting.act_grows' hact)⟩
        have done : TaskCreated f' (.named id) J := by
          obtain ⟨T, T', -, hT', rfl⟩ := Files.onTask_eq_some.1 hf
          cases hT'
          exact fun _ => ⟨task, { T with creating := none }, htask, by rw [hid], by simp, rfl⟩
        have hL₄ := hL.and (lasting_taskCreated (.named id) J)
        refine Safe.require fun _ => ?_
        refine Safe.get (Held.stable hL₄) (held.and done) fun t ht _ => Safe.require fun _ => ?_
        refine Safe.call (releaseTaskControlLock_safe hL₄ ht task) fun _ t ht => ?_
        refine (appendLog_safe hL₄ ht _ _).weaken fun _ t ht => ?_
        obtain ⟨l, ht⟩ := ht
        exact ⟨{ J with log := some l }, ⟨rfl, rfl, rfl, rfl, rfl, rfl⟩, ⟨ht.hold, ht.known.1⟩,
          fun _ => ht.known.2.same rfl rfl⟩

/-- A pending job whose ownership has been repaired has neither lock nor owner. -/
theorem repairPendingOwnershipLocked_safe (hL : Lasting L) (hs : Held p (.named id) J L s) :
    S.Safe p (repairPendingOwnershipLocked (.named id))
      (fun r t => ∃ J', Held p (.named id) J' L t ∧ J'.status = J.status ∧ J'.role = J.role ∧
        J'.taskId = J.taskId ∧ J'.noticeSource = J.noticeSource ∧
        J'.transaction = J.transaction ∧
        (r = true → J'.status = some .pending ∧ J'.lock = none)) s := by
  unfold repairPendingOwnershipLocked
  refine Safe.get (Held.stable hL) hs fun t ht _ => ?_
  split
  · exact ⟨J, ht, rfl, rfl, rfl, rfl, rfl, by rintro ⟨⟩⟩
  rename_i hst
  have hst : J.status = some .pending := ht.hold.status (not_not.1 hst) (by simp)
  refine Safe.get (Held.stable hL) ht fun t ht _ => ?_
  rw [ht.hold.hasLock]
  split
  · refine removeLock_safe hL ht (by simp [hst, Status.active]) (fun t ht => ?_) (fun _ _ => trivial)
    refine Safe.require fun _ => removeAgentId_safe hL ht hst fun t ht => ?_
    refine Safe.call (appendLog_safe hL ht _ _) fun _ t ht => ?_
    obtain ⟨l, ht⟩ := ht
    exact ⟨_, ht, rfl, rfl, rfl, rfl, rfl, fun _ => ⟨hst, rfl⟩⟩
  · rename_i hlock
    refine removeAgentId_safe hL ht hst fun t ht => ?_
    exact ⟨_, ht, rfl, rfl, rfl, rfl, rfl, fun _ => ⟨hst, by simpa using hlock⟩⟩

theorem jobOrphanReason_safe (hL : Lasting L) (hs : Held p (.named id) J L s) :
    S.Safe p (jobOrphanReason (.named id)) (fun _ t => Held p (.named id) J L t) s := by
  have stable : Stable p (Held p (.named id) J L) := Held.stable hL
  unfold jobOrphanReason
  refine Safe.get stable hs fun t ht _ => ?_
  split
  · exact ht
  refine Safe.get stable ht fun t ht _ => ?_
  split
  · exact ht
  split
  · exact ht
  refine Safe.get stable ht fun t ht _ => ?_
  split <;> exact ht

theorem requireAgentOwner_safe (hL : Lasting L) (hs : Held p (.named id) J L s)
    (action agent : String) : S.Safe p (requireAgentOwner action (.named id) agent)
    (fun _ t => Held p (.named id) J L t) s := by
  have stable : Stable p (Held p (.named id) J L) := Held.stable hL
  unfold requireAgentOwner
  refine Safe.require fun _ => Safe.get stable hs fun t ht _ => Safe.require fun _ => ?_
  refine Safe.get stable ht fun t ht _ => ?_
  unfold require
  split
  · exact ht
  · trivial

end

end Cyclo.AgentWs
