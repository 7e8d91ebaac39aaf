import Cyclo.AgentWs.System

/-! What one action does to one published job. Every invariant of published jobs is proved by the
cases of `NamedStep`. -/
namespace Cyclo.AgentWs
open Cyclo.Process

/-- The files of a job directory, the two sides of its lock aside. -/
def Job.data (J : Job) : Job := { J with holder := none, controlLock := false }

/-- One file of a published job directory changed under its control lock. -/
inductive JobChange (hexdigest : String → String) (cmd : ℕ → Command) (p : ℕ) (f : Files)
    (j : Entry) (J : Job) : Write → Job → Prop
  | status {st : Status} : MaySetStatus hexdigest cmd p f j J st →
      JobChange hexdigest cmd p f j J (.setStatus j st) { J with status := some st }
  | agentId (agent : String) : J.status = some .pending →
      JobChange hexdigest cmd p f j J (.setAgentId j agent) { J with agentId := some agent }
  | noAgentId : J.status = some .pending →
      JobChange hexdigest cmd p f j J (.removeAgentId j) { J with agentId := none }
  | lock : J.status = some .pending → J.lock = none →
      JobChange hexdigest cmd p f j J (.makeLock j) { J with lock := some [] }
  | unlock : (∀ st, J.status = some st → st.active = false) → J.lock = some [] →
      JobChange hexdigest cmd p f j J (.removeLock j) { J with lock := none }
  | log (r : LogRecord) :
      JobChange hexdigest cmd p f j J (.appendLog j r) { J with log := some (J.log.getD [] ++ [r]) }

/-- How a job directory comes to be published. -/
inductive JobPublication (hexdigest : String → String) (cmd : ℕ → Command) (p : ℕ) (f : Files)
    (id : String) : Write → Job → Prop
  | create {a : JobCreateArgs} : a.Valid → a.jobId = id → MayPublish hexdigest cmd p f a →
      JobPublication hexdigest cmd p f id (.publishJob (.named id) a.build) a.build
  | plan {src : Entry} {task token : String} {J : Job} {T : Task} :
      PublishesPlan cmd p f src (.named id) task token J T →
      JobPublication hexdigest cmd p f id (.renameJob src (.named id)) J

/-- The effect of one action of `p` on the published job `id`. -/
inductive NamedStep (S : Setting) (p : ℕ) (s s' : State) (id : String) : Prop
  | kept : (s'.files.job (.named id)).map Job.data = (s.files.job (.named id)).map Job.data →
      (s'.trace = s.trace ∨ ∃ e, s'.trace = (p, e) :: s.trace ∧
        ∀ w, e = .wrote w → .named id ∉ w.jobs) → NamedStep S p s s' id
  | changed {w : Write} {J J' : Job} : HoldsJob s.files p (.named id) J →
      JobChange S.hexdigest S.cmd p s.files (.named id) J w J' →
      s'.files.job (.named id) = some J' → s'.trace = (p, .wrote w) :: s.trace →
      NamedStep S p s s' id
  | published {w : Write} {J : Job} : s.files.job (.named id) = none →
      JobPublication S.hexdigest S.cmd p s.files id w J →
      s'.files.job (.named id) = some J → s'.trace = (p, .wrote w) :: s.trace →
      NamedStep S p s s' id

section
variable {hexdigest : String → String} {cmd : ℕ → Command}

theorem SameFiles.data {q : ℕ} {f f' : Files} (h : SameFiles q f f') (k : Entry) :
    (f'.job k).map Job.data = (f.job k).map Job.data := by
  cases hk : f.job k with
  | none => rw [h.noJob k hk]
  | some J =>
    obtain ⟨J', h', hc, -⟩ := h.job k J hk
    rw [h']
    simp only [Job.contents, Job.mk.injEq] at hc
    simp [Job.data, hc]

theorem Files.grant_data (f : Files) (p : ℕ) (l : LockName) (k : Entry) :
    ((f.grant p l).job k).map Job.data = (f.job k).map Job.data := by
  cases l with
  | job j =>
    by_cases hk : k = j
    · subst hk
      cases h : f.job k <;> simp [Files.grant, h, Job.data]
    · simp [Files.grant, hk]
  | task t | create => rfl

/-- The cases of an allowed change that names a published job. -/
theorem Allowed.named_cases {p : ℕ} {s : State} {w : Write} {f : Files} {id : String}
    (h : Allowed hexdigest cmd p s w) (hf : w.apply s.files = some f) (hk : .named id ∈ w.jobs) :
    (∃ J J', HoldsJob s.files p (.named id) J ∧
      JobChange hexdigest cmd p s.files (.named id) J w J' ∧ f.job (.named id) = some J') ∨
    (s.files.job (.named id) = none ∧
      ∃ J, JobPublication hexdigest cmd p s.files id w J ∧ f.job (.named id) = some J) := by
  -- a change of one file of the directory `J` whose lock is held
  have change : ∀ {J : Job} {g : Job → Option Job}, HoldsJob s.files p (.named id) J →
      s.files.onJob (.named id) g = some f →
      ∃ J', g J = some J' ∧ f.job (.named id) = some J' := by
    intro J g hold hg
    obtain ⟨J₁, J', h₁, hJ', rfl⟩ := Files.onJob_eq_some.1 hg
    rw [hold.present] at h₁
    cases h₁
    exact ⟨J', hJ', by simp⟩
  cases w with
  | setStatus j st =>
    obtain rfl := List.mem_singleton.1 hk
    obtain ⟨J, hold, may⟩ := h
    obtain ⟨J', hg, hJ'⟩ := change hold hf
    cases hg
    exact Or.inl ⟨J, _, hold, .status may, hJ'⟩
  | setAgentId j a =>
    obtain rfl := List.mem_singleton.1 hk
    obtain ⟨J, hold, hst⟩ := h
    obtain ⟨J', hg, hJ'⟩ := change hold hf
    cases hg
    exact Or.inl ⟨J, _, hold, .agentId a hst, hJ'⟩
  | removeAgentId j =>
    obtain rfl := List.mem_singleton.1 hk
    obtain ⟨J, hold, hst⟩ := h
    obtain ⟨J', hg, hJ'⟩ := change hold hf
    cases hg
    exact Or.inl ⟨J, _, hold, .noAgentId hst, hJ'⟩
  | makeLock j =>
    obtain rfl := List.mem_singleton.1 hk
    obtain ⟨J, hold, hst⟩ := h
    obtain ⟨J', hg, hJ'⟩ := change hold hf
    split at hg <;> cases hg
    exact Or.inl ⟨J, _, hold, .lock hst ‹_›, hJ'⟩
  | removeLock j =>
    obtain rfl := List.mem_singleton.1 hk
    obtain ⟨J, hold, hst⟩ := h
    obtain ⟨J', hg, hJ'⟩ := change hold hf
    split at hg <;> cases hg
    exact Or.inl ⟨J, _, hold, .unlock hst ‹_›, hJ'⟩
  | appendLog j r =>
    obtain rfl := List.mem_singleton.1 hk
    obtain ⟨J, hold⟩ := h
    obtain ⟨J', hg, hJ'⟩ := change hold hf
    cases hg
    exact Or.inl ⟨J, _, hold, .log r, hJ'⟩
  | publishJob j build =>
    obtain rfl := List.mem_singleton.1 hk
    obtain ⟨a, valid, hid, rfl, may⟩ := h
    simp only [Write.apply] at hf
    split at hf <;> cases hf
    exact Or.inr ⟨‹_›, _, .create valid hid.symm may, by simp⟩
  | renameJob src dst =>
    obtain ⟨task, token, J, T, h⟩ := h
    have hsrc := h.staged
    have hdst := h.named
    obtain rfl : .named id = dst := by simpa [Write.jobs, hsrc, planJobStage] using hk
    simp only [Write.apply] at hf
    split at hf
    · obtain ⟨J₁, h₁, rfl⟩ := Option.map_eq_some_iff.1 hf
      rw [h.hold.present] at h₁
      cases h₁
      refine Or.inr ⟨‹_›, J, .plan h, ?_⟩
      simp [hsrc, planJobStage]
    · cases hf
  | unlinkJob j _ | removeJob j =>
    obtain rfl := List.mem_singleton.1 hk
    obtain ⟨-, ⟨x, hx⟩, -⟩ := h
    cases hx
  | publishTask _ _ | renameTask _ _ | removeCreating _ | unlinkTask _ _ | removeTask _ => cases hk

end

/-- Every action is one of the cases of `NamedStep`. -/
theorem Setting.namedStep {S : Setting} {p : ℕ} {s s' : State} (h : S.act p s s') (id : String) :
    NamedStep S p s s' id := by
  cases h with
  | idle => exact .kept rfl (Or.inl rfl)
  | @write w f hw hf =>
    by_cases hk : .named id ∈ w.jobs
    · rcases hw.named_cases hf hk with ⟨J, J', hold, hc, hJ'⟩ | ⟨hn, J, hp, hJ⟩
      · exact .changed hold hc hJ' rfl
      · exact .published hn hp hJ rfl
    · refine .kept (by rw [State.record_files, (Write.apply_frame hf).1 _ hk])
        (Or.inr ⟨.wrote w, rfl, ?_⟩)
      rintro w' ⟨⟩
      exact hk
  | lock hl may => exact .kept (s.files.grant_data p _ _) (Or.inr ⟨_, rfl, by rintro w' ⟨⟩⟩)
  | free l => exact .kept ((s.files.free_same p l).data _) (Or.inl rfl)
  | say _ => exact .kept rfl (Or.inr ⟨_, rfl, by rintro w' ⟨⟩⟩)
  | quit => exact .kept ((s.files.freeAll_same p).data _) (Or.inl rfl)

end Cyclo.AgentWs
