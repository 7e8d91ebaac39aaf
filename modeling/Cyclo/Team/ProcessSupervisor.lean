import Cyclo.Process.Machine
import Mathlib.Logic.Function.Basic

/-! The supervisor that AgentWS keeps for a process: a thread that restarts it, and a stop that may
come between any two steps of that thread. -/
namespace Cyclo.Team.ProcessSupervisor
open Process

/-- Where the thread that starts and stops the supervisor is. Processes are known by their number. -/
inductive Main where
  | starting
  | storing (proc : ℕ)
  | launching
  | running
  | reading
  | clearing (proc : Option ℕ)
  | stopping (proc : Option ℕ)
  | joining
  | returned
  | raised
  deriving DecidableEq

/-- Where `watch` and the `restart` inside it are. -/
inductive Watcher where
  | unstarted
  | waiting
  | reading
  | polling (proc : ℕ)
  | clearing (proc : ℕ)
  | cleared (proc : ℕ)
  | cleaning (proc : ℕ)
  | restarting
  | starting
  | pausing
  | started (proc : ℕ)
  | discarding (proc : ℕ)
  | storing (proc : ℕ)
  | ended
  deriving DecidableEq

/-- A supervisor and its processes: how many the starter has returned, which of them have exited,
and which have been passed to `stop_team`. -/
structure State where
  stopEvent : Bool
  proc : Option ℕ
  main : Main
  watcher : Watcher
  count : ℕ
  exited : ℕ → Bool
  passed : ℕ → Bool

def State.initial : State where
  stopEvent := false
  proc := none
  main := .starting
  watcher := .unstarted
  count := 0
  exited _ := false
  passed _ := false

/-- How the call of a step ends, where it makes one: an error that `restart` catches, or another. -/
inductive Ending where
  | returns
  | fails
  | raises
  deriving DecidableEq

inductive Action where
  | exit (proc : ℕ)
  | main (ending : Ending)
  | watch (ending : Ending)
  deriving DecidableEq

/-- `stop_team` of a process. It returns once the process has exited. -/
def State.stopTeam (s : State) (proc : ℕ) (ending : Ending) : State :=
  { s with
    passed := Function.update s.passed proc true
    exited := if ending = .returns then Function.update s.exited proc true else s.exited }

/-- `start`, and later `stop`. -/
def mainStep (s : State) (ending : Ending) : Option State :=
  match s.main with
  | .starting =>
    if ending = .returns then some { s with count := s.count + 1, main := .storing s.count }
    else some { s with main := .raised }
  | .storing proc => some { s with proc := some proc, main := .launching }
  | .launching => some { s with watcher := .waiting, main := .running }
  | .running => some { s with stopEvent := true, main := .reading }
  | .reading => some { s with main := .clearing s.proc }
  | .clearing proc => some { s with proc := none, main := .stopping proc }
  | .stopping none => some { s with main := .joining }
  | .stopping (some proc) =>
    some { s.stopTeam proc ending with main := if ending = .returns then .joining else .raised }
  -- the join has a time limit
  | .joining => some { s with main := .returned }
  | .returned => none
  | .raised => none

/-- `watch` and `restart`. -/
def watchStep (s : State) (ending : Ending) : Option State :=
  match s.watcher with
  | .unstarted => none
  | .waiting => some { s with watcher := if s.stopEvent then .ended else .reading }
  | .reading =>
    match s.proc with
    | none => some { s with watcher := .waiting }
    | some proc => some { s with watcher := .polling proc }
  | .polling proc => some { s with watcher := if s.exited proc then .clearing proc else .waiting }
  | .clearing proc => some { s with proc := none, watcher := .cleared proc }
  | .cleared proc => some { s with watcher := if s.stopEvent then .ended else .cleaning proc }
  | .cleaning proc =>
    some { s.stopTeam proc ending with
      watcher := if ending = .returns then .restarting else .ended }
  | .restarting => some { s with watcher := if s.stopEvent then .waiting else .starting }
  | .starting =>
    match ending with
    | .returns => some { s with count := s.count + 1, watcher := .started s.count }
    | .fails => some { s with watcher := .pausing }
    | .raises => some { s with watcher := .ended }
  | .pausing => some { s with watcher := .restarting }
  | .started proc =>
    some { s with watcher := if s.stopEvent then .discarding proc else .storing proc }
  | .discarding proc =>
    some { s.stopTeam proc ending with watcher := if ending = .returns then .waiting else .ended }
  | .storing proc => some { s with proc := some proc, watcher := .waiting }
  | .ended => none

def step (s : State) : Action → Option State
  | .exit proc =>
    if proc < s.count then some { s with exited := Function.update s.exited proc true } else none
  | .main ending => mainStep s ending
  | .watch ending => watchStep s ending

/-- The watcher has found the event clear, and has yet to store the process it has started. -/
def Watcher.isStoring : Watcher → Bool
  | .storing _ => true
  | _ => false

/-- `stop` does not read the current process while the watcher is about to store one. -/
def Settled (s : State) : Action → Prop
  | .main _ => s.main = .reading → s.watcher.isStoring = false
  | _ => True

instance (s : State) : ∀ a, Decidable (Settled s a)
  | .main _ => inferInstanceAs (Decidable (s.main = .reading → s.watcher.isStoring = false))
  | .exit _ | .watch _ => .isTrue trivial

end Cyclo.Team.ProcessSupervisor
