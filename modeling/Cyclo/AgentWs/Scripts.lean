import Cyclo.AgentWs.JobContracts
import Cyclo.AgentWs.CreateContracts

/-! Every command performs only actions the queue allows, so the invariants of the actions hold in
every interleaving of the scripts, whatever processes are killed. -/
namespace Cyclo.AgentWs
open Cyclo.Process Setting

namespace Setting
variable {S : Setting}

theorem command_safe (S : Setting) (p : ℕ) (s : State) :
    S.Safe p ((S.cmd p).script S.hexdigest) (fun _ _ => True) s := by
  cases h : S.cmd p with
  | jobCreate a =>
    exact jobCreate_safe ((lasting_const True).stable p) trivial fun t _ => Or.inl h
  | jobClaim jobId jobRole agent => exact jobClaim_safe jobId jobRole (by rw [h]; rfl)
  | jobStart job agent => exact jobStart_safe job agent
  | jobDone job agent message =>
    refine settle_safe _ _ _ agent message (fun st hst => ?_) rfl (by rw [h]; rfl)
    rw [of_decide_eq_true hst]
    rfl
  | jobFail job agent message =>
    exact settle_safe _ _ _ agent message (fun _ hst => hst) rfl (by rw [h]; rfl)
  | jobRelease job agent message => exact jobRelease_safe job agent message
  | jobReap force minutes => exact jobReap_safe force minutes
  | jobResetOrphans allActive => exact jobResetOrphans_safe allActive
  | jobWait jobRole rounds => exact jobWait_safe jobRole rounds
  | jobNotifyPlanner job =>
    have none : (S.cmd p).settles ≠ some job := by rw [h]; rintro ⟨⟩
    refine (jobNotifyPlanner_safe ((lasting_const True).carried) trivial (by rw [h]; rfl)
      (fun hset => absurd hset none) fun hset => absurd hset none).weaken fun _ _ _ => trivial
  | forceFailOwnedJob job agent message =>
    exact Safe.call (forceFailOwnedJob_safe agent message (by rw [h]; rfl)) fun _ _ _ => trivial
  | taskCreate task specFile spec => exact taskCreate_safe specFile spec (by rw [h]; rfl)

theorem quit_act (S : Setting) (p : ℕ) (s : State) : S.act p s (queueKernel.quit p s) := .quit

/-- Every state an interleaving reaches is one the actions reach. -/
theorem Reachable.conforms {c : Config Op State} (h : S.Reachable c) :
    Conforms queueKernel S.act S.Visited S.start c :=
  Process.Reachable.conforms (fun _ h => h) S.quit_act (fun p => S.command_safe p S.start) h

theorem Reachable.visited {c : Config Op State} (h : S.Reachable c) : S.Visited c.shared :=
  h.conforms.visits

theorem Reachable.step {c d : Config Op State} (h : S.Reachable c) (hstep : Step queueKernel c d) :
    ∃ p, S.act p c.shared d.shared :=
  (Step.conforms (fun _ h => h) S.quit_act h.conforms hstep).1

/-- What happens after a reachable state is a run of the actions. -/
theorem Reachable.later {c d : Config Op State} (h : S.Reachable c)
    (hrun : Relation.ReflTransGen (Step queueKernel) c d) : Visits S.act c.shared d.shared :=
  (Conforms.run (fun _ h => h) S.quit_act h.conforms hrun).1

end Setting

end Cyclo.AgentWs
