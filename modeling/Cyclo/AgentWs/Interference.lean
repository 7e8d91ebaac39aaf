import Cyclo.AgentWs.Actions

/-! What one action can do to the queue, and what a process may rely on while others act. -/
namespace Cyclo.AgentWs
open Cyclo.Process

theorem dropHolder_other {p q : ℕ} {h : Option ℕ} (hq : q ≠ p) (hh : h = some p) :
    dropHolder q h = some p := by
  subst hh
  simp [dropHolder, Ne.symm hq]

/-- The files of a job directory, its lock aside. -/
def Job.contents (J : Job) : Job := { J with holder := none }

def Task.contents (T : Task) : Task := { T with holder := none }

/-- Later contents of a published job directory: its immutable files are the same, and a terminal
status stays. -/
structure JobGrows (J J' : Job) : Prop where
  role : J'.role = J.role
  taskId : J'.taskId = J.taskId
  spec : J'.spec = J.spec
  workspace : J'.workspace = J.workspace
  noticeSource : J'.noticeSource = J.noticeSource
  transaction : J'.transaction = J.transaction
  log : J.log.isSome → J'.log.isSome
  controlLock : J.controlLock = true → J'.controlLock = true
  status : J.status.isSome → J'.status.isSome
  terminal : ∀ st, J.status = some st → st.terminal = true → J'.status = some st

theorem JobGrows.refl (J : Job) : JobGrows J J := by
  constructor <;> simp_all

theorem JobGrows.trans {J J' J'' : Job} (h : JobGrows J J') (h' : JobGrows J' J'') :
    JobGrows J J'' where
  role := h'.role.trans h.role
  taskId := h'.taskId.trans h.taskId
  spec := h'.spec.trans h.spec
  workspace := h'.workspace.trans h.workspace
  noticeSource := h'.noticeSource.trans h.noticeSource
  transaction := h'.transaction.trans h.transaction
  log := fun hl => h'.log (h.log hl)
  controlLock := fun hc => h'.controlLock (h.controlLock hc)
  status := fun hs => h'.status (h.status hs)
  terminal := fun st hs ht => h'.terminal st (h.terminal st hs ht) ht

theorem JobGrows.of_contents {J J' : Job} (h : J'.contents = J.contents) : JobGrows J J' := by
  simp only [Job.contents, Job.mk.injEq] at h
  constructor <;> simp_all

/-- Later contents of a published task directory: only `.creating` goes away. -/
structure TaskGrows (T T' : Task) : Prop where
  token : T'.token = T.token
  spec : T'.spec = T.spec
  state : T'.state = T.state
  log : T'.log = T.log
  creating : T'.creating = T.creating ∨ T'.creating = none

theorem TaskGrows.refl (T : Task) : TaskGrows T T := by
  constructor <;> simp_all

theorem TaskGrows.trans {T T' T'' : Task} (h : TaskGrows T T') (h' : TaskGrows T' T'') :
    TaskGrows T T'' where
  token := h'.token.trans h.token
  spec := h'.spec.trans h.spec
  state := h'.state.trans h.state
  log := h'.log.trans h.log
  creating := by
    rcases h'.creating with hc | hc
    · rw [hc]
      exact h.creating
    · exact Or.inr hc

/-- Process `q` frees locks: the files are the same, and so are the locks of the others. -/
structure SameFiles (q : ℕ) (f f' : Files) : Prop where
  job : ∀ k J, f.job k = some J → ∃ J', f'.job k = some J' ∧ J'.contents = J.contents ∧
    ∀ p, p ≠ q → J.holder = some p → J' = J
  noJob : ∀ k, f.job k = none → f'.job k = none
  task : ∀ k T, f.task k = some T → ∃ T', f'.task k = some T' ∧ T'.contents = T.contents
  noTask : ∀ k, f.task k = none → f'.task k = none
  createLock : ∀ p, p ≠ q → f.createLock = some p → f'.createLock = some p

theorem SameFiles.refl (q : ℕ) (f : Files) : SameFiles q f f := by
  constructor <;> simp_all

theorem Files.freeAll_same (f : Files) (q : ℕ) : SameFiles q f (f.freeAll q) where
  job k J h := by
    refine ⟨{ J with holder := dropHolder q J.holder }, by simp [Files.freeAll, h], rfl, ?_⟩
    intro p hp hh
    rw [dropHolder_other (Ne.symm hp) hh, ← hh]
  noJob k h := by simp [Files.freeAll, h]
  task k T h := ⟨{ T with holder := dropHolder q T.holder }, by simp [Files.freeAll, h], rfl⟩
  noTask k h := by simp [Files.freeAll, h]
  createLock p hp h := dropHolder_other (Ne.symm hp) h

theorem Files.free_same (f : Files) (q : ℕ) (l : LockName) : SameFiles q f (f.free q l) := by
  cases l with
  | job j =>
    constructor
    · intro k J h
      by_cases hk : k = j
      · subst hk
        refine ⟨{ J with holder := dropHolder q J.holder }, by simp [Files.free, h], rfl, ?_⟩
        intro p hp hh
        rw [dropHolder_other (Ne.symm hp) hh, ← hh]
      · exact ⟨J, by simp [Files.free, hk, h], rfl, fun _ _ _ => rfl⟩
    · intro k h
      by_cases hk : k = j <;> simp_all [Files.free]
    · exact fun k T h => ⟨T, h, rfl⟩
    · exact fun k h => h
    · exact fun p hp h => h
  | task t =>
    constructor
    · exact fun k J h => ⟨J, h, rfl, fun _ _ _ => rfl⟩
    · exact fun k h => h
    · intro k T h
      by_cases hk : k = t
      · subst hk
        exact ⟨{ T with holder := dropHolder q T.holder }, by simp [Files.free, h], rfl⟩
      · exact ⟨T, by simp [Files.free, hk, h], rfl⟩
    · intro k h
      by_cases hk : k = t <;> simp_all [Files.free]
    · exact fun p hp h => h
  | create =>
    exact ⟨fun k J h => ⟨J, h, rfl, fun _ _ _ => rfl⟩, fun k h => h, fun k T h => ⟨T, h, rfl⟩,
      fun k h => h, fun p hp h => dropHolder_other (Ne.symm hp) h⟩

section
variable {hexdigest : String → String} {cmd : ℕ → Command} {Unique : Prop}

/-- A status write that is allowed grows the job. -/
theorem MaySetStatus.grows {p : ℕ} {f : Files} {j : Entry} {J : Job} {st : Status}
    (h : MaySetStatus hexdigest cmd p f j J st) : JobGrows J { J with status := some st } := by
  constructor <;> simp
  intro st' hst hterm
  cases st <;> simp only [MaySetStatus] at h <;> grind [Status.terminal, Status.active]

/-- A change that names a job directory is made by the holder of its lock, or it publishes the
directory, or it is a staging directory and the change is made under the creation lock. -/
theorem Allowed.job_authority {p : ℕ} {s : State} {w : Write} {f : Files} {k : Entry}
    (h : Allowed hexdigest cmd p s w) (hf : w.apply s.files = some f) (hk : k ∈ w.jobs) :
    (∃ J, HoldsJob s.files p k J) ∨ s.files.job k = none ∨
      ∃ id, k = .staged id ∧ s.files.createLock = some p := by
  cases w with
  | setStatus j st =>
    obtain rfl := List.mem_singleton.1 hk
    obtain ⟨J, hold, -⟩ := h
    exact Or.inl ⟨J, hold⟩
  | setAgentId j _ | removeAgentId j | makeLock j | removeLock j =>
    obtain rfl := List.mem_singleton.1 hk
    obtain ⟨J, hold, -⟩ := h
    exact Or.inl ⟨J, hold⟩
  | appendLog j _ =>
    obtain rfl := List.mem_singleton.1 hk
    exact Or.inl h
  | publishJob j build =>
    obtain rfl := List.mem_singleton.1 hk
    simp only [Write.apply] at hf
    split at hf
    · exact Or.inr (Or.inl ‹_›)
    · cases hf
  | renameJob src dst =>
    obtain ⟨task, token, J, T, h⟩ := h
    simp only [Write.jobs, List.mem_cons, List.not_mem_nil, or_false] at hk
    rcases hk with rfl | rfl
    · exact Or.inl ⟨J, h.hold⟩
    · simp only [Write.apply] at hf
      split at hf
      · exact Or.inr (Or.inl ‹_›)
      · cases hf
  | unlinkJob j _ | removeJob j =>
    obtain rfl := List.mem_singleton.1 hk
    obtain ⟨hc, ⟨id, rfl⟩, -⟩ := h
    exact Or.inr (Or.inr ⟨id, rfl, hc⟩)
  | publishTask _ _ | renameTask _ _ | removeCreating _ | unlinkTask _ _ | removeTask _ => cases hk

/-- A change that names a task directory is made under the creation lock, publishes it, or removes
its `.creating`. -/
theorem Allowed.task_authority {p : ℕ} {s : State} {w : Write} {f : Files} {k : Entry}
    (h : Allowed hexdigest cmd p s w) (hf : w.apply s.files = some f) (hk : k ∈ w.tasks) :
    s.files.task k = none ∨ (∃ id, k = .staged id ∧ s.files.createLock = some p) ∨
      (∃ id, k = .named id) ∧ w = .removeCreating k := by
  cases w with
  | publishTask t build =>
    obtain rfl := List.mem_singleton.1 hk
    simp only [Write.apply] at hf
    split at hf
    · exact Or.inl ‹_›
    · cases hf
  | renameTask src dst =>
    obtain ⟨hc, task, token, rfl, rfl, -⟩ := h
    simp only [Write.tasks, List.mem_cons, List.not_mem_nil, or_false] at hk
    rcases hk with rfl | rfl
    · exact Or.inr (Or.inl ⟨_, rfl, hc⟩)
    · simp only [Write.apply] at hf
      split at hf
      · exact Or.inl ‹_›
      · cases hf
  | removeCreating t =>
    obtain rfl := List.mem_singleton.1 hk
    obtain ⟨task, -, -, rfl, -⟩ := h
    exact Or.inr (Or.inr ⟨⟨task, rfl⟩, rfl⟩)
  | unlinkTask t _ | removeTask t =>
    obtain rfl := List.mem_singleton.1 hk
    obtain ⟨hc, ⟨id, rfl⟩, -⟩ := h
    exact Or.inr (Or.inl ⟨id, rfl, hc⟩)
  | setStatus _ _ | setAgentId _ _ | removeAgentId _ | makeLock _ | removeLock _ | appendLog _ _
  | publishJob _ _ | renameJob _ _ | unlinkJob _ _ | removeJob _ => cases hk

/-- An allowed change of a published job grows it. -/
theorem Allowed.jobs {p : ℕ} {s : State} {w : Write} {f : Files} (h : Allowed hexdigest cmd p s w)
    (hf : w.apply s.files = some f) {id : String} {J : Job} (hJ : s.files.job (.named id) = some J) :
    ∃ J', f.job (.named id) = some J' ∧ JobGrows J J' := by
  by_cases hk : .named id ∈ w.jobs
  swap
  · exact ⟨J, ((Write.apply_frame hf).1 _ hk).trans hJ, .refl J⟩
  rcases h.job_authority hf hk with ⟨J₀, hold⟩ | hnone | ⟨x, hx, -⟩
  · -- the same directory, changed in one file
    have change : ∀ (g : Job → Option Job), s.files.onJob (.named id) g = some f →
        (∀ J', g J = some J' → JobGrows J J') → ∃ J', f.job (.named id) = some J' ∧ JobGrows J J' := by
      intro g hg grows
      obtain ⟨J₁, J', h₁, hJ', rfl⟩ := Files.onJob_eq_some.1 hg
      rw [hJ] at h₁
      cases h₁
      exact ⟨J', by simp, grows J' hJ'⟩
    cases w with
    | setStatus j st =>
      obtain rfl := List.mem_singleton.1 hk
      obtain ⟨J₁, hold₁, may⟩ := h
      refine change _ hf fun J' hJ' => ?_
      rw [hold₁.present] at hJ
      cases hJ
      cases hJ'
      exact may.grows
    | setAgentId j _ | removeAgentId j | appendLog j _ =>
      obtain rfl := List.mem_singleton.1 hk
      refine change _ hf fun J' hJ' => ?_
      cases hJ'
      constructor <;> simp_all
    | makeLock j | removeLock j =>
      obtain rfl := List.mem_singleton.1 hk
      refine change _ hf fun J' hJ' => ?_
      split at hJ' <;> cases hJ'
      constructor <;> simp_all
    | publishJob j build =>
      obtain rfl := List.mem_singleton.1 hk
      simp [Write.apply, hJ] at hf
    | renameJob src dst =>
      obtain ⟨task, token, J₁, T, h⟩ := h
      obtain ⟨rfl, rfl⟩ := And.intro h.staged h.named
      obtain rfl : id = planJobId task := by simpa [Write.jobs, planJobStage] using hk
      simp [Write.apply, hJ] at hf
    | unlinkJob j _ | removeJob j =>
      obtain rfl := List.mem_singleton.1 hk
      obtain ⟨-, ⟨x, hx⟩, -⟩ := h
      cases hx
    | publishTask _ _ | renameTask _ _ | removeCreating _ | unlinkTask _ _ | removeTask _ => cases hk
  · rw [hJ] at hnone
    cases hnone
  · cases hx

theorem Allowed.tasks {p : ℕ} {s : State} {w : Write} {f : Files} (h : Allowed hexdigest cmd p s w)
    (hf : w.apply s.files = some f) {id : String} {T : Task}
    (hT : s.files.task (.named id) = some T) :
    ∃ T', f.task (.named id) = some T' ∧ TaskGrows T T' := by
  by_cases hk : .named id ∈ w.tasks
  swap
  · exact ⟨T, ((Write.apply_frame hf).2.1 _ hk).trans hT, .refl T⟩
  rcases h.task_authority hf hk with hnone | ⟨x, hx, -⟩ | ⟨-, rfl⟩
  · rw [hT] at hnone
    cases hnone
  · cases hx
  · obtain ⟨T₁, T', h₁, hT', rfl⟩ := Files.onTask_eq_some.1 hf
    rw [hT] at h₁
    cases h₁
    cases hT'
    exact ⟨{ T with creating := none }, by simp, by constructor <;> simp⟩

/-- A staging directory is made under its name. -/
def Stages (e : ℕ × Event) : Prop :=
  (∃ id build, e.2 = .wrote (.publishJob (.staged id) build)) ∨
    ∃ id build, e.2 = .wrote (.publishTask (.staged id) build)

/-- What the other processes leave as it is for `p`. -/
structure Interference (p : ℕ) (s s' : State) : Prop where
  /-- A job whose control lock `p` holds. -/
  held : ∀ id J, HoldsJob s.files p (.named id) J → HoldsJob s'.files p (.named id) J
  creator : s.files.createLock = some p → s'.files.createLock = some p
  /-- The staging directories, while `p` holds the creation lock. -/
  stagedJob : s.files.createLock = some p → ∀ id,
    (s.files.job (.staged id) = none → s'.files.job (.staged id) = none) ∧
    ∀ J, s.files.job (.staged id) = some J → ∃ J', s'.files.job (.staged id) = some J' ∧
      J'.contents = J.contents ∧ (J.holder = some p → J' = J)
  stagedTask : s.files.createLock = some p → ∀ id,
    (s.files.task (.staged id) = none → s'.files.task (.staged id) = none) ∧
    ∀ T, s.files.task (.staged id) = some T → ∃ T', s'.files.task (.staged id) = some T' ∧
      T'.contents = T.contents
  jobs : ∀ id J, s.files.job (.named id) = some J →
    ∃ J', s'.files.job (.named id) = some J' ∧ JobGrows J J'
  tasks : ∀ id T, s.files.task (.named id) = some T →
    ∃ T', s'.files.task (.named id) = some T' ∧ TaskGrows T T'
  trace : ∃ new, s'.trace = new ++ s.trace ∧
    (s.files.createLock = some p → ∀ e ∈ new, ¬ Stages e)

theorem Interference.refl (p : ℕ) (s : State) : Interference p s s where
  held _ _ h := h
  creator h := h
  stagedJob _ _ := ⟨id, fun J h => ⟨J, h, rfl, fun _ => rfl⟩⟩
  stagedTask _ _ := ⟨id, fun T h => ⟨T, h, rfl⟩⟩
  jobs _ J h := ⟨J, h, .refl J⟩
  tasks _ T h := ⟨T, h, .refl T⟩
  trace := ⟨[], rfl, by simp⟩

theorem Interference.trans {p : ℕ} {s t u : State} (h : Interference p s t)
    (h' : Interference p t u) : Interference p s u where
  held id J hJ := h'.held id J (h.held id J hJ)
  creator hc := h'.creator (h.creator hc)
  stagedJob hc id := by
    refine ⟨fun hn => (h'.stagedJob (h.creator hc) id).1 ((h.stagedJob hc id).1 hn), fun J hJ => ?_⟩
    obtain ⟨J₁, h₁, hc₁, hh₁⟩ := (h.stagedJob hc id).2 J hJ
    obtain ⟨J₂, h₂, hc₂, hh₂⟩ := (h'.stagedJob (h.creator hc) id).2 J₁ h₁
    refine ⟨J₂, h₂, hc₂.trans hc₁, fun hp => ?_⟩
    obtain rfl := hh₁ hp
    exact hh₂ hp
  stagedTask hc id := by
    refine ⟨fun hn => (h'.stagedTask (h.creator hc) id).1 ((h.stagedTask hc id).1 hn), fun T hT => ?_⟩
    obtain ⟨T₁, h₁, hc₁⟩ := (h.stagedTask hc id).2 T hT
    obtain ⟨T₂, h₂, hc₂⟩ := (h'.stagedTask (h.creator hc) id).2 T₁ h₁
    exact ⟨T₂, h₂, hc₂.trans hc₁⟩
  jobs id J hJ := by
    obtain ⟨J₁, h₁, g₁⟩ := h.jobs id J hJ
    obtain ⟨J₂, h₂, g₂⟩ := h'.jobs id J₁ h₁
    exact ⟨J₂, h₂, g₁.trans g₂⟩
  tasks id T hT := by
    obtain ⟨T₁, h₁, g₁⟩ := h.tasks id T hT
    obtain ⟨T₂, h₂, g₂⟩ := h'.tasks id T₁ h₁
    exact ⟨T₂, h₂, g₁.trans g₂⟩
  trace := by
    obtain ⟨n₁, e₁, q₁⟩ := h.trace
    obtain ⟨n₂, e₂, q₂⟩ := h'.trace
    refine ⟨n₂ ++ n₁, by rw [e₂, e₁, List.append_assoc], fun hc e he => ?_⟩
    rcases List.mem_append.1 he with he | he
    · exact q₂ (h.creator hc) e he
    · exact q₁ hc e he

/-- Freeing locks interferes with nobody. -/
theorem SameFiles.interference {p q : ℕ} (hq : q ≠ p) {s : State} {f : Files}
    (h : SameFiles q s.files f) : Interference p s ⟨f, s.trace⟩ where
  held id J hJ := by
    obtain ⟨J', h', -, same⟩ := h.job _ _ hJ.present
    obtain rfl := same p (Ne.symm hq) hJ.holder
    exact ⟨h', hJ.holder, by rintro x ⟨⟩⟩
  creator hc := h.createLock p (Ne.symm hq) hc
  stagedJob _ id := ⟨h.noJob _, fun J hJ => by
    obtain ⟨J', h', hc, same⟩ := h.job _ _ hJ
    exact ⟨J', h', hc, same p (Ne.symm hq)⟩⟩
  stagedTask _ id := ⟨h.noTask _, fun T hT => h.task _ _ hT⟩
  jobs id J hJ := by
    obtain ⟨J', h', hc, -⟩ := h.job _ _ hJ
    exact ⟨J', h', .of_contents hc⟩
  tasks id T hT := by
    obtain ⟨T', h', hc⟩ := h.task _ _ hT
    simp only [Task.contents, Task.mk.injEq] at hc
    exact ⟨T', h', by constructor <;> simp_all⟩
  trace := ⟨[], rfl, by simp⟩

/-- A change another process makes under its guard. -/
theorem Allowed.interference {p q : ℕ} (hq : q ≠ p) {s : State} {w : Write} {f : Files}
    (h : Allowed hexdigest cmd q s w) (hf : w.apply s.files = some f) :
    Interference p s (s.record q (.wrote w) f) := by
  obtain ⟨frameJob, frameTask, frameLock⟩ := Write.apply_frame hf
  have alone : s.files.createLock = some p → ∀ q', s.files.createLock = some q' → q' = p := by
    intro hc q' hc'
    rw [hc] at hc'
    exact (Option.some.inj hc').symm
  have stagedJob : s.files.createLock = some p → ∀ id, .staged id ∈ w.jobs →
      s.files.job (.staged id) = none → False := by
    intro hc id hk hnone
    cases w with
    | setStatus j _ | setAgentId j _ | removeAgentId j | makeLock j | removeLock j | appendLog j _
    | unlinkJob j _ =>
      obtain rfl := List.mem_singleton.1 hk
      simp [Write.apply, Files.onJob, hnone] at hf
    | removeJob j =>
      obtain rfl := List.mem_singleton.1 hk
      simp [Write.apply, hnone] at hf
    | publishJob j build =>
      obtain rfl := List.mem_singleton.1 hk
      exact hq (alone hc q h.1)
    | renameJob src dst =>
      obtain ⟨task, token, J, T, h⟩ := h
      exact hq (alone hc q h.creator)
    | publishTask _ _ | renameTask _ _ | removeCreating _ | unlinkTask _ _ | removeTask _ => cases hk
  refine ⟨fun id J hJ => ?_, fun hc => frameLock.trans hc, fun hc id => ?_, fun hc id => ?_,
    fun id J hJ => h.jobs hf hJ, fun id T hT => h.tasks hf hT,
    ⟨[(q, .wrote w)], rfl, fun hc e he hstage => ?_⟩⟩
  · by_cases hk : .named id ∈ w.jobs
    · rcases h.job_authority hf hk with ⟨J', hold⟩ | hnone | ⟨x, hx, -⟩
      · have he := hold.present
        rw [hJ.present] at he
        cases he
        exact absurd (Option.some.inj (hold.holder.symm.trans hJ.holder)) hq
      · rw [hJ.present] at hnone
        cases hnone
      · cases hx
    · exact ⟨(frameJob _ hk).trans hJ.present, hJ.holder, by rintro x ⟨⟩⟩
  · have untouched : .staged id ∉ w.jobs := by
      intro hk
      rcases h.job_authority hf hk with ⟨J', hold⟩ | hnone | ⟨x, -, hc'⟩
      · exact hq (alone hc q (hold.creator id rfl))
      · exact stagedJob hc id hk hnone
      · exact hq (alone hc q hc')
    rw [State.record_files, frameJob _ untouched]
    exact ⟨fun hn => hn, fun J hJ => ⟨J, hJ, rfl, fun _ => rfl⟩⟩
  · have untouched : .staged id ∉ w.tasks := by
      intro hk
      rcases h.task_authority hf hk with hnone | ⟨x, -, hc'⟩ | ⟨⟨x, hx⟩, -⟩
      · cases w with
        | publishTask t build => exact hq (alone hc q h.1)
        | renameTask src dst => exact hq (alone hc q h.1)
        | removeCreating t =>
          obtain rfl := List.mem_singleton.1 hk
          simp [Write.apply, Files.onTask, hnone] at hf
        | unlinkTask t _ | removeTask t => exact hq (alone hc q h.1)
        | setStatus _ _ | setAgentId _ _ | removeAgentId _ | makeLock _ | removeLock _
        | appendLog _ _ | publishJob _ _ | renameJob _ _ | unlinkJob _ _ | removeJob _ => cases hk
      · exact hq (alone hc q hc')
      · cases hx
    rw [State.record_files, frameTask _ untouched]
    exact ⟨fun hn => hn, fun T hT => ⟨T, hT, rfl⟩⟩
  · obtain rfl := List.mem_singleton.1 he
    rcases hstage with ⟨id, build, hw⟩ | ⟨id, build, hw⟩ <;> cases hw <;> exact hq (alone hc q h.1)

/-- A lock that was free is granted to another process. -/
theorem MayLock.interference {p q : ℕ} (hq : q ≠ p) {s : State} {l : LockName}
    (hl : s.files.lockState l = some none) (may : MayLock q s.files l) :
    Interference p s (s.record q (.locked l) (s.files.grant q l)) := by
  have alone : s.files.createLock = some p → s.files.createLock = some q → False := by
    intro hc hc'
    rw [hc] at hc'
    exact hq (Option.some.inj hc').symm
  have new : ∃ new, (s.record q (.locked l) (s.files.grant q l)).trace = new ++ s.trace ∧
      (s.files.createLock = some p → ∀ e ∈ new, ¬ Stages e) :=
    ⟨[(q, .locked l)], rfl, by simp [Stages]⟩
  cases l with
  | create =>
    have hn : s.files.createLock = none := Option.some.inj hl
    exact ⟨fun _ _ h => ⟨h.present, h.holder, by rintro x ⟨⟩⟩, fun hc => by simp [hn] at hc,
      fun hc => by simp [hn] at hc, fun hc => by simp [hn] at hc, fun id J h => ⟨J, h, .refl J⟩,
      fun id T h => ⟨T, h, .refl T⟩, new⟩
  | job j =>
    obtain ⟨J₀, hJ₀, hfree⟩ := Option.map_eq_some_iff.1 hl
    refine ⟨fun id J h => ?_, id, fun hc id => ?_, fun hc id => ?_, fun id J h => ?_,
      fun id T h => ⟨T, h, .refl T⟩, new⟩
    · refine ⟨?_, h.holder, by rintro x ⟨⟩⟩
      by_cases hj : .named id = j
      · subst hj
        have he := h.present
        rw [hJ₀] at he
        cases he
        exact absurd (hfree.symm.trans h.holder) (by simp)
      · simpa [Files.grant, hj] using h.present
    · have hj : .staged id ≠ j := by
        rintro rfl
        exact alone hc may
      simp only [State.record_files, Files.grant, Files.setJob_job, if_neg hj]
      exact ⟨fun hn => hn, fun J hJ => ⟨J, hJ, rfl, fun _ => rfl⟩⟩
    · exact ⟨fun hn => hn, fun T hT => ⟨T, hT, rfl⟩⟩
    · by_cases hj : .named id = j
      · subst hj
        refine ⟨{ J with holder := some q, controlLock := true }, by simp [Files.grant, h], ?_⟩
        constructor <;> simp_all
      · exact ⟨J, by simpa [Files.grant, hj] using h, .refl J⟩
  | task t =>
    refine ⟨fun _ _ h => ⟨h.present, h.holder, by rintro x ⟨⟩⟩, id,
      fun hc id => ⟨fun hn => hn, fun J hJ => ⟨J, hJ, rfl, fun _ => rfl⟩⟩, fun hc id => ?_,
      fun id J h => ⟨J, h, .refl J⟩, fun id T h => ?_, new⟩
    · have ht : .staged id ≠ t := by
        rintro rfl
        exact alone hc may
      simp only [State.record_files, Files.grant, Files.setTask_task, if_neg ht]
      exact ⟨fun hn => hn, fun T hT => ⟨T, hT, rfl⟩⟩
    · by_cases ht : .named id = t
      · subst ht
        refine ⟨{ T with holder := some q, controlLock := true }, by simp [Files.grant, h], ?_⟩
        constructor <;> simp_all
      · exact ⟨T, by simpa [Files.grant, ht] using h, .refl T⟩

theorem Action.interference {p q : ℕ} (hq : q ≠ p) {s s' : State}
    (h : Action hexdigest cmd Unique q s s') : Interference p s s' := by
  cases h with
  | idle => exact .refl p s
  | write hw hf => exact hw.interference hq hf
  | lock hl may => exact may.interference hq hl
  | free l => exact (s.files.free_same q l).interference hq
  | say _ =>
    exact { Interference.refl p s with trace := ⟨[(q, .said _)], rfl, by simp [Stages]⟩ }
  | quit => exact (s.files.freeAll_same q).interference hq

/-- What a process relies on between two of its operations. -/
theorem Others.interference {p : ℕ} {s s' : State}
    (h : Others (Action hexdigest cmd Unique) p s s') : Interference p s s' :=
  h.lift (R := Interference p) (.refl p) .trans fun hq ha => ha.interference hq

end

end Cyclo.AgentWs
