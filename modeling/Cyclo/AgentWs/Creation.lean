import Cyclo.AgentWs.Published

/-! The creation of tasks: when an initial planner job can be claimed, and what a `task-create`
removes. -/
namespace Cyclo.AgentWs
open Cyclo.Process

section
variable {S : Setting} {s : State}

/-- The initial planner job `id` belongs to a published task that was staged with its token; once it
has been claimed the task's `.creating` is gone. -/
structure PlansTask (s : State) (id : String) (J : Job) (token task : String) (T : Task) : Prop where
  taskId : J.taskId = some task
  named : id = planJobId task
  present : s.files.task (.named task) = some T
  token : T.token = some token
  claimed : J.status ≠ some .pending → T.creating = none

theorem Setting.Visited.plansTask (h : S.Visited s) {id token : String} {J : Job}
    (hJ : s.files.job (.named id) = some J) (htok : J.transaction = some token) :
    ∃ task T, PlansTask s id J token task T := by
  suffices hall : ∀ J, s.files.job (.named id) = some J → J.transaction = some token →
      ∃ task T, PlansTask s id J token task T from hall J hJ htok
  refine Visits.invariant (I := fun s => ∀ J, s.files.job (.named id) = some J →
    J.transaction = some token → ∃ task T, PlansTask s id J token task T) h ?_ ?_
  · intro J hJ htok
    obtain ⟨a, -, -, -, rfl⟩ := S.fresh.job id J hJ
    cases htok
  · intro p s t hv ih ha J' hJ' htok
    have grows := Setting.act_grows ha
    cases hs : s.files.job (.named id) with
    | some J =>
      obtain ⟨J₁, h₁, hg⟩ := grows.jobs id J hs
      rw [hJ'] at h₁
      cases h₁
      obtain ⟨task, T, hi⟩ := ih J hs (hg.transaction ▸ htok)
      obtain ⟨T', hT', hgT⟩ := grows.tasks task T hi.present
      refine ⟨task, T', hg.taskId.trans hi.taskId, hi.named, hT', hgT.token.trans hi.token, ?_⟩
      intro hst
      have hnone : T.creating = none := by
        rcases (Setting.namedStep ha id).unclaimed hs hJ' hst with hne | ⟨-, created⟩
        · exact hi.claimed hne
        · obtain ⟨task', T₁, htask, -, hT₁, hc⟩ := created (by rw [← hg.transaction, htok]; simp)
          obtain rfl := Option.some.inj (htask.symm.trans hi.taskId)
          rw [hi.present] at hT₁
          cases hT₁
          exact hc
      rcases hgT.creating with hc | hc
      · exact hc.trans hnone
      · exact hc
    | none =>
      cases Setting.namedStep ha id with
      | kept hdata _ => simp [hJ', hs] at hdata
      | changed hold => exact absurd hold.present (by simp [hs])
      | published _ hp h₁ _ =>
        rw [hJ'] at h₁
        cases h₁
        cases hp with
        | create => cases htok
        | @plan src task token' _ T hp =>
          have base := hp.base
          obtain rfl := Option.some.inj (htok.symm.trans base.transaction)
          obtain ⟨T', hT', hgT⟩ := grows.tasks task T hp.task
          exact ⟨task, T', base.taskId, by simpa using hp.named, hT', hgT.token.trans hp.token,
            fun hst => absurd hp.status hst⟩

/-- What one step of `p` does to the directories of others: what it removes carries a token `p`
staged, what it moves or publishes replaces nothing, and what disappears was moved or removed. -/
structure Harmless (p : ℕ) (s t : State) : Prop where
  beginTask : ∀ k token, t.trace = (p, .said (.removingTask k token)) :: s.trace →
    (∃ T, s.files.task k = some T ∧ T.creating = some token) ∧ StagedTask p s k token
  beginJob : ∀ k token, t.trace = (p, .said (.removingJob k token)) :: s.trace →
    (∃ J, s.files.job k = some J ∧ J.transaction = some token) ∧ StagedJob p s k token
  removeTask : ∀ k, (t.trace = (p, .wrote (.removeTask k)) :: s.trace ∨
    ∃ file, t.trace = (p, .wrote (.unlinkTask k file)) :: s.trace) → RemovingTask p s k
  removeJob : ∀ k, (t.trace = (p, .wrote (.removeJob k)) :: s.trace ∨
    ∃ file, t.trace = (p, .wrote (.unlinkJob k file)) :: s.trace) → RemovingJob p s k
  goneTask : ∀ k T, s.files.task k = some T → t.files.task k = none →
    t.trace = (p, .wrote (.removeTask k)) :: s.trace ∨ ∃ dst, s.files.task dst = none ∧
      t.files.task dst = some T ∧ t.trace = (p, .wrote (.renameTask k dst)) :: s.trace
  goneJob : ∀ k J, s.files.job k = some J → t.files.job k = none →
    t.trace = (p, .wrote (.removeJob k)) :: s.trace ∨ ∃ dst, s.files.job dst = none ∧
      t.files.job dst = some J ∧ t.trace = (p, .wrote (.renameJob k dst)) :: s.trace
  newTask : ∀ k, ((∃ build, t.trace = (p, .wrote (.publishTask k build)) :: s.trace) ∨
    ∃ src, t.trace = (p, .wrote (.renameTask src k)) :: s.trace) → s.files.task k = none
  newJob : ∀ k, ((∃ build, t.trace = (p, .wrote (.publishJob k build)) :: s.trace) ∨
    ∃ src, t.trace = (p, .wrote (.renameJob src k)) :: s.trace) → s.files.job k = none

theorem Write.apply_goneTask {w : Write} {f f' : Files} {k : Entry} {T : Task}
    (hf : w.apply f = some f') (hT : f.task k = some T) (hn : f'.task k = none) :
    w = .removeTask k ∨ ∃ dst, f.task dst = none ∧ f'.task dst = some T ∧ w = .renameTask k dst := by
  by_cases hk : k ∈ w.tasks
  swap
  · rw [(Write.apply_frame hf).2.1 k hk, hT] at hn
    cases hn
  cases w with
  | removeTask t => exact Or.inl (by rw [List.mem_singleton.1 hk])
  | renameTask src dst =>
    simp only [Write.apply] at hf
    split at hf
    · obtain ⟨T₁, h₁, rfl⟩ := Option.map_eq_some_iff.1 hf
      by_cases hs : k = src
      · subst hs
        rw [hT] at h₁
        cases h₁
        have hne : dst ≠ k := by
          rintro rfl
          simp_all
        exact Or.inr ⟨dst, ‹_›, by simp [hne], rfl⟩
      · obtain rfl : k = dst := by simpa [Write.tasks, hs] using hk
        simp_all
    · cases hf
  | publishTask t build =>
    obtain rfl := List.mem_singleton.1 hk
    simp [Write.apply, hT] at hf
  | removeCreating t | unlinkTask t _ =>
    obtain rfl := List.mem_singleton.1 hk
    obtain ⟨T₁, T', _, _, rfl⟩ := Files.onTask_eq_some.1 hf
    simp at hn
  | setStatus _ _ | setAgentId _ _ | removeAgentId _ | makeLock _ | removeLock _ | appendLog _ _
  | publishJob _ _ | renameJob _ _ | unlinkJob _ _ | removeJob _ => cases hk

theorem Write.apply_goneJob {w : Write} {f f' : Files} {k : Entry} {J : Job}
    (hf : w.apply f = some f') (hJ : f.job k = some J) (hn : f'.job k = none) :
    w = .removeJob k ∨ ∃ dst, f.job dst = none ∧ f'.job dst = some J ∧ w = .renameJob k dst := by
  by_cases hk : k ∈ w.jobs
  swap
  · rw [(Write.apply_frame hf).1 k hk, hJ] at hn
    cases hn
  cases w with
  | removeJob t => exact Or.inl (by rw [List.mem_singleton.1 hk])
  | renameJob src dst =>
    simp only [Write.apply] at hf
    split at hf
    · obtain ⟨J₁, h₁, rfl⟩ := Option.map_eq_some_iff.1 hf
      by_cases hs : k = src
      · subst hs
        rw [hJ] at h₁
        cases h₁
        have hne : dst ≠ k := by
          rintro rfl
          simp_all
        exact Or.inr ⟨dst, ‹_›, by simp [hne], rfl⟩
      · obtain rfl : k = dst := by simpa [Write.jobs, hs] using hk
        simp_all
    · cases hf
  | publishJob t build =>
    obtain rfl := List.mem_singleton.1 hk
    simp [Write.apply, hJ] at hf
  | setStatus j _ | setAgentId j _ | removeAgentId j | makeLock j | removeLock j | appendLog j _
  | unlinkJob j _ =>
    obtain rfl := List.mem_singleton.1 hk
    obtain ⟨J₁, J', _, _, rfl⟩ := Files.onJob_eq_some.1 hf
    simp at hn
  | publishTask _ _ | renameTask _ _ | removeCreating _ | unlinkTask _ _ | removeTask _ => cases hk

/-- A step that writes nothing removes nothing. -/
theorem Harmless.of_quiet {p : ℕ} {s t : State} {e : Event}
    (ht : t.trace = s.trace ∨ t.trace = (p, e) :: s.trace) (hw : ∀ w, e ≠ .wrote w)
    (hs : ∀ o, e = .said o → MaySay S.hexdigest S.cmd S.Unique p s o)
    (task : ∀ k, s.files.task k ≠ none → t.files.task k ≠ none)
    (job : ∀ k, s.files.job k ≠ none → t.files.job k ≠ none) : Harmless p s t := by
  have quiet : ∀ w, t.trace ≠ (p, .wrote w) :: s.trace := by
    intro w h
    rcases ht with ht | ht
    · simp [ht] at h
    · rw [ht] at h
      exact hw w (by simpa using h)
  have said : ∀ o, t.trace = (p, .said o) :: s.trace → MaySay S.hexdigest S.cmd S.Unique p s o := by
    intro o h
    rcases ht with ht | ht
    · simp [ht] at h
    · rw [ht] at h
      exact hs o (by simpa using h)
  exact
    { beginTask := fun k token h => ⟨(said _ h).2.1, (said _ h).2.2⟩
      beginJob := fun k token h => ⟨(said _ h).2.1, (said _ h).2.2⟩
      removeTask := fun k h => by
        rcases h with h | ⟨file, h⟩ <;> exact absurd h (quiet _)
      removeJob := fun k h => by
        rcases h with h | ⟨file, h⟩ <;> exact absurd h (quiet _)
      goneTask := fun k T hT hn => absurd hn (task k (by simp [hT]))
      goneJob := fun k J hJ hn => absurd hn (job k (by simp [hJ]))
      newTask := fun k h => by
        rcases h with ⟨b, h⟩ | ⟨src, h⟩ <;> exact absurd h (quiet _)
      newJob := fun k h => by
        rcases h with ⟨b, h⟩ | ⟨src, h⟩ <;> exact absurd h (quiet _) }

theorem Option.ne_none_of_map_eq {α β : Type} {f : α → β} {x y : Option α}
    (h : y.map f = x.map f) (hx : x ≠ none) : y ≠ none := by
  rintro rfl
  exact hx (Option.map_eq_none_iff.1 h.symm)

/-- Every step of every process is harmless. -/
theorem Setting.act_harmless {p : ℕ} {s t : State} (ha : S.act p s t) : Harmless p s t := by
  have same : ∀ {f : Files}, SameFiles p s.files f → Harmless p s ⟨f, s.trace⟩ := fun h =>
    .of_quiet (S := S) (e := .locked .create) (Or.inl rfl) (by simp) (by simp)
      (fun k => Option.ne_none_of_map_eq (h.taskData k)) (fun k => Option.ne_none_of_map_eq (h.data k))
  cases ha with
  | idle => exact same (.refl p s.files)
  | @write w f hw hf =>
    have now : ∀ {w' : Write}, (s.record p (.wrote w) f).trace = (p, .wrote w') :: s.trace → w = w' :=
      fun h => by simpa using h
    refine ⟨fun k token h => by simp at h, fun k token h => by simp at h, fun k h => ?_, fun k h => ?_,
      fun k T hT hn => ?_, fun k J hJ hn => ?_, fun k h => ?_, fun k h => ?_⟩
    · rcases h with h | ⟨file, h⟩ <;> obtain rfl := now h <;> exact hw.2.2
    · rcases h with h | ⟨file, h⟩ <;> obtain rfl := now h <;> exact hw.2.2
    · rcases Write.apply_goneTask hf hT hn with rfl | ⟨dst, h₁, h₂, rfl⟩
      · exact Or.inl rfl
      · exact Or.inr ⟨dst, h₁, h₂, rfl⟩
    · rcases Write.apply_goneJob hf hJ hn with rfl | ⟨dst, h₁, h₂, rfl⟩
      · exact Or.inl rfl
      · exact Or.inr ⟨dst, h₁, h₂, rfl⟩
    · rcases h with ⟨b, h⟩ | ⟨src, h⟩ <;> obtain rfl := now h <;> simp only [Write.apply] at hf <;>
        split at hf <;> first | assumption | cases hf
    · rcases h with ⟨b, h⟩ | ⟨src, h⟩ <;> obtain rfl := now h <;> simp only [Write.apply] at hf <;>
        split at hf <;> first | assumption | cases hf
  | @lock l hl may =>
    exact .of_quiet (S := S) (e := .locked l) (Or.inr rfl) (by simp) (by simp)
      (fun k => Option.ne_none_of_map_eq (s.files.grant_taskData p l k))
      (fun k => Option.ne_none_of_map_eq (s.files.grant_data p l k))
  | free l => exact same (s.files.free_same p l)
  | @say o may =>
    exact .of_quiet (S := S) (e := .said o) (Or.inr rfl) (by simp) (by rintro o' ⟨⟩; exact may)
      (fun _ => id) (fun _ => id)
  | quit => exact same (s.files.freeAll_same p)

end

end Cyclo.AgentWs
