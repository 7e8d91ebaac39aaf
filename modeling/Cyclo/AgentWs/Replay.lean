import Cyclo.Process.Alone
import Cyclo.AgentWs.Scripts

/-! One interleaving of a queue, computed: the commands run one after another with fixed answers of
their surroundings. -/
namespace Cyclo.AgentWs
open Cyclo.Process

/-- What the surroundings answer throughout a run. -/
abbrev Answers := (q : Query) → q.Reply

/-- No signal, no lock old enough to reap, nothing killed; the jobs are listed in this order. -/
def quiet (jobs : List String) : Answers
  | .signal => false
  | .age _ => none
  | .listing => jobs
  | .runtimeLock => false
  | .stamp => (1, 2)
  | .taskOrder => []
  | .jobOrder => []
  | .child => .alive

def evalOp (answers : Answers) (p : ℕ) : Interp Op State
  | _, .get f, s => some (f s.files, s)
  | _, .write w, s =>
    match w.apply s.files with
    | some f => some (true, s.record p (.wrote w) f)
    | none => some (false, s)
  | _, .lock l, s =>
    match s.files.lockState l with
    | none => some (false, s)
    | some none => some (true, s.record p (.locked l) (s.files.grant p l))
    | some (some _) => none
  | _, .unlock l, s => some ((), ⟨s.files.free p l, s.trace⟩)
  | _, .ask q, s => some (answers q, s)
  | _, .say o, s => some ((), s.record p (.said o) s.files)

theorem evalOp_sound (answers : Answers) (p : ℕ) {β : Type} (e : Op β) (s : State) (r : β) (s' : State)
    (h : evalOp answers p e s = some (r, s')) : queueKernel.exec p e s r s' := by
  cases e with
  | get f | unlock l | ask q | say o => cases h; first | exact ⟨rfl, rfl⟩ | rfl
  | write w =>
    simp only [evalOp] at h
    simp only [queueKernel, exec]
    split at h <;> cases h <;> simp [*]
  | lock l =>
    simp only [evalOp] at h
    simp only [queueKernel, exec]
    split at h <;> cases h <;> simp [*]

/-- The commands of the processes in the list, one after another, each to its end. -/
def Setting.replay (S : Setting) (answers : Answers) : List ℕ → State → Option State
  | [], s => some s
  | p :: rest, s =>
    (Interp.run (evalOp answers p) ((S.cmd p).script S.hexdigest) s).bind fun (_, s') =>
      S.replay answers rest s'

/-- A replay of distinct processes is an interleaving. -/
theorem Setting.replay_reachable {S : Setting} {answers : Answers} {ps : List ℕ} (hps : ps.Nodup)
    {c : Config Op State} (hc : S.Reachable c)
    (idle : ∀ p ∈ ps, c.proc p = some ((S.cmd p).script S.hexdigest)) {t : State}
    (h : S.replay answers ps c.shared = some t) : ∃ d, S.Reachable d ∧ d.shared = t := by
  induction ps generalizing c with
  | nil => exact ⟨c, hc, Option.some.inj h⟩
  | cons p rest ih =>
    obtain ⟨⟨out, s'⟩, hrun, h⟩ := Option.bind_eq_some_iff.1 h
    obtain ⟨y, hy⟩ := (Interp.run_sound (evalOp_sound answers p) hrun).steps rfl
      (idle p List.mem_cons_self)
    refine ih (List.nodup_cons.1 hps).2 (c := c.setProc p (some y) s') (hc.trans hy) ?_ h
    intro q hq
    have hne : q ≠ p := by
      rintro rfl
      exact (List.nodup_cons.1 hps).1 hq
    rw [Config.setProc_other _ hne]
    exact idle q (List.mem_cons_of_mem _ hq)

theorem Setting.replayed {S : Setting} {answers : Answers} {ps : List ℕ} (hps : ps.Nodup) {t : State}
    (h : S.replay answers ps S.start = some t) : ∃ d, S.Reachable d ∧ d.shared = t :=
  Setting.replay_reachable hps .refl (fun _ _ => rfl) h

/-- A task is created, a worker's job is created, claimed, started and done, then the initial
planner job is claimed. -/
def demo : Setting where
  hexdigest _ := "0123456789abcdef0123"
  cmd
    | 0 => .taskCreate "t" "task.md" "Build it."
    | 1 => .jobCreate
      { jobId := "w", role := "coder", taskId := "t", specFile := "w.md", spec := "Do it." }
    | 2 => .jobClaim (some "w") none "ann"
    | 3 => .jobStart "w" "ann"
    | 4 => .jobDone "w" "ann" "built"
    | 5 => .jobClaim (some "t-plan") none "bob"
    | _ => .jobWait none 0
  start := { files := {} }
  fresh := by constructor <;> simp

/-- What a prefix of the demonstration computes holds of a reachable state. -/
theorem demo_reaches {β : Type} (ps : List ℕ) (hps : ps.Nodup) (f : State → β) {b : β}
    (h : (demo.replay (quiet []) ps demo.start).map f = some b) :
    ∃ c, demo.Reachable c ∧ f c.shared = b := by
  obtain ⟨t, ht, hb⟩ := Option.map_eq_some_iff.1 h
  obtain ⟨c, hc, rfl⟩ := Setting.replayed hps ht
  exact ⟨c, hc, hb⟩

/-- The demonstration has one job that is no planner's, so its notice ids do not collide. -/
theorem demo_unique : demo.Unique := by
  have created : ∀ {p a}, demo.cmd p = .jobCreate a →
      a.jobId = "w" ∧ a.taskId = "t" ∧ a.noticeSource = none := by
    intro p a h
    match p with
    | 1 => cases h; exact ⟨rfl, rfl, rfl⟩
    | 0 | 2 | 3 | 4 | 5 | p + 6 => cases h
  have used : ∀ {task job}, InUse demo.cmd demo.start task job → task = "t" ∧ job = "w" := by
    rintro task job ⟨a, rfl, rfl, -, ⟨p, hp⟩ | hs⟩
    · exact ⟨(created hp).2.1, (created hp).1⟩
    · cases hs
  refine ⟨?_, ?_, ?_, ?_, fun h => (created h).2.2⟩
  · intro task job task' job' h h' _
    rw [(used h).2, (used h').2]
  · intro id task job h _
    exact absurd rfl h
  · intro p a task job h hu
    obtain ⟨rfl, rfl⟩ := used hu
    rw [(created h).1]
    decide +kernel
  · intro p id task job h hu
    obtain ⟨rfl, rfl⟩ := used hu
    have hid : id = "t" := by
      match p with
      | 0 => cases h; rfl
      | 1 | 2 | 3 | 4 | 5 | p + 6 => cases h
    subst hid
    decide +kernel

end Cyclo.AgentWs
