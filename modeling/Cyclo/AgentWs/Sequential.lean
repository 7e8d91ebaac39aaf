import Cyclo.Process.Alone
import Cyclo.AgentWs.NoticeContracts

/-! A script run with no other process acting: what holds after each of its operations, and the runs
it has. The state is known exactly, so the rules compute it. -/
namespace Cyclo.AgentWs
open Cyclo.Process

/-- The queue whose surroundings give only the answers `A`. -/
def answering (A : (q : Query) → q.Reply → Prop) : Kernel Op State where
  exec p _ e s r s' := exec p e s r s' ∧
    match e, r with
    | .ask q, r => A q r
    | _, _ => True
  quit := queueKernel.quit

/-- Any answer at all. -/
def anyAnswer (q : Query) (_ : q.Reply) : Prop := True

theorem answering_exec {A : (q : Query) → q.Reply → Prop} {p : ℕ} {β : Type} (e : Op β) (s : State)
    (r : β) (s' : State) (h : (answering A).exec p e s r s') : queueKernel.exec p e s r s' := h.1

theorem anyAnswer_exec {p : ℕ} {β : Type} (e : Op β) (s : State) (r : β) (s' : State)
    (h : queueKernel.exec p e s r s') : (answering anyAnswer).exec p e s r s' := by
  cases e with
  | get _ | write _ | lock _ | unlock _ | ask _ | say _ => exact ⟨h, trivial⟩

variable {α β : Type} {A : (q : Query) → q.Reply → Prop} {p : ℕ} {T : Prop} {s : State}
  {R X Y : State → Prop} {Q : α → State → Prop}

theorem along_get {read : Files → β} {f : β → Script α} (hR : R s)
    (h : Along (answering A) p T R X (f (read s.files)) Q s) :
    Along (answering A) p T R X (get read >>= f) Q s := by
  refine ⟨hR, fun _ => ⟨_, s, ⟨rfl, rfl⟩, trivial⟩, ?_⟩
  intro r s' hx
  obtain ⟨⟨rfl, rfl⟩, -⟩ := hx
  exact h

theorem along_ask {q : Query} {f : q.Reply → Script α} (hR : R s) (answer : T → ∃ r, A q r)
    (h : ∀ r, A q r → Along (answering A) p T R X (f r) Q s) :
    Along (answering A) p T R X (ask q >>= f) Q s := by
  refine ⟨hR, fun hT => ?_, ?_⟩
  · obtain ⟨r, hr⟩ := answer hT
    exact ⟨r, s, rfl, hr⟩
  · intro r s' hx
    obtain ⟨hs, hr⟩ := hx
    obtain rfl : s' = s := hs
    exact h r hr

theorem along_say {o : Output} {f : Unit → Script α} (hR : R s)
    (h : Along (answering A) p T R X (f ()) Q (s.record p (.said o) s.files)) :
    Along (answering A) p T R X (say o >>= f) Q s := by
  refine ⟨hR, fun _ => ⟨(), _, rfl, trivial⟩, ?_⟩
  intro r s' hx
  obtain rfl : s' = _ := hx.1
  exact h

/-- A message as the last operation. -/
theorem along_said {o : Output} {Q : Unit → State → Prop} (hR : R s)
    (hR' : R (s.record p (.said o) s.files)) (hQ : Q () (s.record p (.said o) s.files)) :
    Along (answering A) p T R X (say o) Q s :=
  along_say (f := .ret) hR ⟨hR', hQ⟩

theorem along_unlock {l : LockName} {f : Unit → Script α} (hR : R s)
    (h : Along (answering A) p T R X (f ()) Q ⟨s.files.free p l, s.trace⟩) :
    Along (answering A) p T R X (unlock l >>= f) Q s := by
  refine ⟨hR, fun _ => ⟨(), _, rfl, trivial⟩, ?_⟩
  intro r s' hx
  obtain rfl : s' = _ := hx.1
  exact h

theorem along_write {w : Write} {f : Bool → Script α} (hR : R s)
    (h : ∀ f', w.apply s.files = some f' →
      Along (answering A) p T R X (f true) Q (s.record p (.wrote w) f'))
    (hfail : w.apply s.files = none → Along (answering A) p T R X (f false) Q s) :
    Along (answering A) p T R X (write w >>= f) Q s := by
  cases hw : w.apply s.files with
  | none =>
    refine ⟨hR, fun _ => ⟨false, s, ?_, trivial⟩, ?_⟩
    · simp [exec, hw]
    · intro r s' hx
      have he := hx.1
      simp only [exec, hw] at he
      obtain ⟨rfl, rfl⟩ := he
      exact hfail hw
  | some f' =>
    refine ⟨hR, fun _ => ⟨true, s.record p (.wrote w) f', ?_, trivial⟩, ?_⟩
    · simp [exec, hw]
    · intro r s' hx
      have he := hx.1
      simp only [exec, hw] at he
      obtain ⟨rfl, rfl⟩ := he
      exact h f' hw

/-- A change the file system accepts. -/
theorem along_wrote {w : Write} {f : Bool → Script α} {f' : Files} (hw : w.apply s.files = some f')
    (hR : R s) (h : Along (answering A) p T R X (f true) Q (s.record p (.wrote w) f')) :
    Along (answering A) p T R X (write w >>= f) Q s := by
  refine along_write hR ?_ ?_
  · intro f'' hw'
    rw [hw] at hw'
    cases hw'
    exact h
  · intro hn
    rw [hw] at hn
    cases hn

theorem along_refused {w : Write} {f : Bool → Script α} (hw : w.apply s.files = none)
    (hR : R s) (h : Along (answering A) p T R X (f false) Q s) :
    Along (answering A) p T R X (write w >>= f) Q s := by
  refine along_write hR ?_ ?_
  · intro f' hw'
    rw [hw] at hw'
    cases hw'
  · intro _
    exact h

theorem along_lock {l : LockName} {f : Bool → Script α} (hR : R s)
    (free : T → ∀ q, s.files.lockState l ≠ some (some q))
    (h : s.files.lockState l = some none →
      Along (answering A) p T R X (f true) Q (s.record p (.locked l) (s.files.grant p l)))
    (hfail : s.files.lockState l = none → Along (answering A) p T R X (f false) Q s) :
    Along (answering A) p T R X (lock l >>= f) Q s := by
  cases hl : s.files.lockState l with
  | none =>
    refine ⟨hR, fun _ => ⟨false, s, ?_, trivial⟩, ?_⟩
    · simp [exec, hl]
    · intro r s' hx
      have he := hx.1
      simp only [exec, hl] at he
      obtain ⟨rfl, rfl⟩ := he
      exact hfail hl
  | some holder =>
    cases holder with
    | none =>
      refine ⟨hR, fun _ => ⟨true, s.record p (.locked l) (s.files.grant p l), ?_, trivial⟩, ?_⟩
      · simp [exec, hl]
      · intro r s' hx
        have he := hx.1
        simp only [exec, hl] at he
        obtain ⟨rfl, rfl⟩ := he
        exact h hl
    | some q =>
      refine ⟨hR, fun hT => absurd hl (free hT q), ?_⟩
      intro r s' hx
      have he := hx.1
      simp only [exec, hl] at he

theorem along_require {test : Bool} {m : String} {f : Unit → Script α} (hR : R s)
    (h : test = true → Along (answering A) p T R X (f ()) Q s) (hfail : test = false → X s) :
    Along (answering A) p T R X (require test m >>= f) Q s := by
  cases test with
  | false => exact ⟨hR, hfail rfl⟩
  | true => exact h rfl

/-- A test that is known to hold. -/
theorem along_pass {test : Bool} {m : String} {f : Unit → Script α} (ht : test = true)
    (h : Along (answering A) p T R X (f ()) Q s) :
    Along (answering A) p T R X (require test m >>= f) Q s := by
  rw [ht]
  exact h

/-- A call of a function with a proved contract. -/
theorem along_call {x : Script β} {f : β → Script α} {G : β → State → Prop}
    (h : Along (answering A) p T R X x G s)
    (hf : ∀ b t, R t → G b t → Along (answering A) p T R X (f b) Q t) :
    Along (answering A) p T R X (x >>= f) Q s :=
  Along.bind (h.weaken (fun _ h => h) (fun _ _ h => h) hf)

theorem along_pure {a : α} (hR : R s) (hQ : Q a s) : Along (answering A) p T R X (pure a) Q s :=
  ⟨hR, hQ⟩

/-- How a child of a script with `R`, `X` and `Q` may end. -/
def Ended (A : (q : Query) → q.Reply → Prop) (R X : State → Prop) (Q : Unit → State → Prop) :
    ChildStatus → State → Prop
  | .exited code message, t => R t ∧ (code = 0 ∧ message = "" ∧ Q () t ∨ code ≠ 0 ∧ X t)
  | .killed, t => R t ∧ A .child .killed
  | .timedOut, t => R t ∧ A .child .timedOut

theorem Ended.here {Q : Unit → State → Prop} {r : ChildStatus} {t : State}
    (h : Ended A R X Q r t) : R t := by
  cases r with
  | exited code m => exact h.1
  | killed => exact h.1
  | timedOut => exact h.1

theorem Ended.success {Q : Unit → State → Prop} {t : State}
    (h : Ended A R X Q (.exited 0 "") t) : Q () t := by
  obtain ⟨-, ⟨-, -, hq⟩ | ⟨hne, -⟩⟩ := h
  · exact hq
  · exact absurd rfl hne

/-- What holds all along a child holds however it ends. -/
theorem along_child {x : Script Unit} {Q : Unit → State → Prop} (adds : Adds x)
    (answer : T → ∃ fate, A .child fate) (h : Along (answering A) p T R X x Q s) :
    Along (answering A) p T R Y (child x) (Ended A R X Q) s := by
  induction x generalizing s with
  | ret a => exact ⟨h.1, h.1, Or.inl ⟨rfl, rfl, h.2⟩⟩
  | exit code m => exact ⟨h.1, h.1, Or.inr ⟨adds, h.2⟩⟩
  | op e next ih =>
    rw [child_op]
    have hR := h.1
    refine ⟨hR, fun hT => ?_, ?_⟩
    · obtain ⟨fate, hf⟩ := answer hT
      exact ⟨fate, s, rfl, hf⟩
    · intro r s' hx
      obtain ⟨hs, hr⟩ := hx
      obtain rfl : s' = s := hs
      cases r with
      | alive => exact ⟨hR, h.2.1, fun r s' hx => ih r (adds.2 r) (h.2.2 r s' hx)⟩
      | killed => exact ⟨hR, hR, hr⟩
      | timedOut => exact ⟨hR, hR, hr⟩

/-- `p` has taken the control lock of `j`, whose directory was `J`. -/
def State.locked (s : State) (p : ℕ) (j : Entry) (J : Job) : State :=
  s.record p (.locked (.job j))
    (s.files.setJob j (some { J with holder := some p, controlLock := true }))

/-- `p` has changed the directory of `j` to `J`. -/
def State.wrote (s : State) (p : ℕ) (w : Write) (j : Entry) (J : Job) : State :=
  s.record p (.wrote w) (s.files.setJob j (some J))

@[simp] theorem State.locked_files (s : State) (p : ℕ) (j : Entry) (J : Job) :
    (s.locked p j J).files =
      s.files.setJob j (some { J with holder := some p, controlLock := true }) := rfl

@[simp] theorem State.locked_trace (s : State) (p : ℕ) (j : Entry) (J : Job) :
    (s.locked p j J).trace = (p, .locked (.job j)) :: s.trace := rfl

@[simp] theorem State.wrote_files (s : State) (p : ℕ) (w : Write) (j : Entry) (J : Job) :
    (s.wrote p w j J).files = s.files.setJob j (some J) := rfl

@[simp] theorem State.wrote_trace (s : State) (p : ℕ) (w : Write) (j : Entry) (J : Job) :
    (s.wrote p w j J).trace = (p, .wrote w) :: s.trace := rfl

theorem Files.onJob_of {f : Files} {j : Entry} {J J' : Job} {g : Job → Option Job}
    (h : f.job j = some J) (hg : g J = some J') : f.onJob j g = some (f.setJob j (some J')) := by
  rw [Files.onJob, h, Option.bind_some, hg]
  rfl

section
variable {j : Entry} {J : Job} (hJ : s.files.job j = some J) (hR : R s)
include hJ hR

theorem along_acquire {f : Unit → Script α} (free : T → J.holder = none)
    (h : J.holder = none → Along (answering A) p T R X (f ()) Q (s.locked p j J)) :
    Along (answering A) p T R X (acquireJobControlLock j >>= f) Q s := by
  unfold acquireJobControlLock
  refine along_lock hR ?_ ?_ ?_
  · intro hT q
    simp [Files.lockState, hJ, free hT]
  · intro hl
    simp only [Files.lockState, hJ, Option.map_some, Option.some.injEq] at hl
    have granted : s.record p (.locked (.job j)) (s.files.grant p (.job j)) = s.locked p j J := by
      simp only [State.locked, Files.grant, hJ, Option.map_some]
    rw [granted]
    exact h hl
  · intro hl
    simp [Files.lockState, hJ] at hl

theorem along_release {f : Unit → Script α}
    (h : Along (answering A) p T R X (f ()) Q
      ⟨s.files.setJob j (some { J with holder := dropHolder p J.holder }), s.trace⟩) :
    Along (answering A) p T R X (releaseJobControlLock j >>= f) Q s := by
  unfold releaseJobControlLock
  refine along_unlock hR ?_
  simpa only [Files.free, hJ, Option.map_some] using h

theorem along_appendLog {f : Unit → Script α} {summary detail : String}
    (h : Along (answering A) p T R X (f ()) Q (s.wrote p (.appendLog j ⟨summary, detail⟩) j
      { J with log := some (J.log.getD [] ++ [⟨summary, detail⟩]) })) :
    Along (answering A) p T R X (appendLog j summary detail >>= f) Q s :=
  along_wrote (Files.onJob_of hJ rfl) hR h

theorem along_writeStatus {f : Unit → Script α} {st : Status}
    (h : Along (answering A) p T R X (f ()) Q
      (s.wrote p (.setStatus j st) j { J with status := some st })) :
    Along (answering A) p T R X (writeStatus j st >>= f) Q s :=
  along_wrote (Files.onJob_of hJ rfl) hR h

theorem along_removeAgentId {f : Bool → Script α}
    (h : Along (answering A) p T R X (f true) Q
      (s.wrote p (.removeAgentId j) j { J with agentId := none })) :
    Along (answering A) p T R X (write (.removeAgentId j) >>= f) Q s :=
  along_wrote (Files.onJob_of hJ rfl) hR h

/-- `rmdir lock/` succeeds on an empty directory only. -/
theorem along_removeLock {f : Bool → Script α}
    (h : J.lock = some [] → Along (answering A) p T R X (f true) Q
      (s.wrote p (.removeLock j) j { J with lock := none }))
    (hfail : J.lock ≠ some [] → Along (answering A) p T R X (f false) Q s) :
    Along (answering A) p T R X (write (.removeLock j) >>= f) Q s := by
  by_cases hl : J.lock = some []
  · exact along_wrote (Files.onJob_of hJ (if_pos hl)) hR (h hl)
  · have refused : (Write.removeLock j).apply s.files = none := by
      simp [Write.apply, Files.onJob, hJ, hl]
    exact along_refused refused hR (hfail hl)

end

end Cyclo.AgentWs
