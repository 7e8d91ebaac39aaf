import Cyclo.AgentWs.Creation
import Cyclo.AgentWs.Notices

/-! Proof rules for the scripts: what a process knows after each operation while the others act,
and what it may conclude from the control lock of a job. -/
namespace Cyclo.AgentWs
open Cyclo.Process

/-- What every action does to the published directories and to the trace. -/
structure Grows (s t : State) : Prop where
  jobs : ∀ id J, s.files.job (.named id) = some J →
    ∃ J', t.files.job (.named id) = some J' ∧ JobGrows J J'
  tasks : ∀ id T, s.files.task (.named id) = some T →
    ∃ T', t.files.task (.named id) = some T' ∧ TaskGrows T T'
  trace : ∃ new, t.trace = new ++ s.trace

theorem Interference.grows {p : ℕ} {s t : State} (h : Interference p s t) : Grows s t where
  jobs := h.jobs
  tasks := h.tasks
  trace := h.trace.imp fun _ h => h.1

/-- An assertion no action at all disturbs. -/
def Lasting (L : State → Prop) : Prop := ∀ ⦃s t⦄, L s → Grows s t → L t

/-- An assertion the other processes do not disturb. -/
def Stable (p : ℕ) (P : State → Prop) : Prop := ∀ ⦃s t⦄, P s → Interference p s t → P t

theorem Lasting.stable {L : State → Prop} (hL : Lasting L) (p : ℕ) : Stable p L :=
  fun _ _ h hi => hL h hi.grows

theorem Lasting.and {L L' : State → Prop} (h : Lasting L) (h' : Lasting L') :
    Lasting fun s => L s ∧ L' s :=
  fun _ _ hs hg => ⟨h hs.1 hg, h' hs.2 hg⟩

theorem Stable.and {p : ℕ} {P P' : State → Prop} (h : Stable p P) (h' : Stable p P') :
    Stable p fun s => P s ∧ P' s :=
  fun _ _ hs hi => ⟨h hs.1 hi, h' hs.2 hi⟩

theorem lasting_const (c : Prop) : Lasting fun _ => c := fun _ _ h _ => h

theorem lasting_event (e : ℕ × Event) : Lasting fun s => e ∈ s.trace := by
  intro s t h hg
  obtain ⟨new, ht⟩ := hg.trace
  rw [ht]
  exact List.mem_append_right _ h

theorem lasting_noticeReady (J : Job) : Lasting fun s => NoticeReady s.files J := by
  intro s t h hg source hs
  obtain ⟨X, st, hX, hst, hterm⟩ := h source hs
  obtain ⟨X', hX', hgX⟩ := hg.jobs source X hX
  exact ⟨X', st, hX', hgX.terminal st hst hterm, hterm⟩

theorem lasting_taskCreated (j : Entry) (J : Job) : Lasting fun s => TaskCreated s.files j J := by
  intro s t h hg htok
  obtain ⟨task, T, htask, hj, hT, hc⟩ := h htok
  obtain ⟨T', hT', hgT⟩ := hg.tasks task T hT
  refine ⟨task, T', htask, hj, hT', ?_⟩
  rcases hgT.creating with h | h
  · exact h.trans hc
  · exact h

theorem lasting_noticed (hexdigest : String → String) (job : String) (J : Job) :
    Lasting fun s => Noticed hexdigest s.files job J := by
  intro s t h hg
  refine h.imp_right ?_
  rintro ⟨role, task, N, hr, ht, hN, hn⟩
  obtain ⟨N', hN', hgN⟩ := hg.jobs _ N hN
  exact ⟨role, task, N', hr, ht, hN', hn.grows hgN⟩

theorem lasting_unpublished (p : ℕ) (job notice : String) :
    Lasting fun s => NoticeUnpublishedAtLock p job notice s.trace := by
  rintro s t ⟨later, earlier, ht, hn⟩ hg
  obtain ⟨new, hnew⟩ := hg.trace
  exact ⟨new ++ later, earlier, by rw [hnew, ht, List.append_assoc], hn⟩

/-- The task is published and its creation can be finished with `token` only. -/
def MayFinish (task token : String) (s : State) : Prop :=
  ∃ T, s.files.task (.named task) = some T ∧ (T.creating = none ∨ T.creating = some token)

theorem lasting_mayFinish (task token : String) : Lasting (MayFinish task token) := by
  rintro s t ⟨T, hT, hc⟩ hg
  obtain ⟨T', hT', hgT⟩ := hg.tasks task T hT
  refine ⟨T', hT', ?_⟩
  rcases hgT.creating with h | h
  · rwa [h]
  · exact Or.inl h

/-- The task is published. -/
def TaskPublished (task : String) (s : State) : Prop :=
  ∃ T, s.files.task (.named task) = some T

theorem lasting_taskPublished (task : String) : Lasting (TaskPublished task) := by
  rintro s t ⟨T, hT⟩ hg
  obtain ⟨T', hT', -⟩ := hg.tasks task T hT
  exact ⟨T', hT'⟩

theorem HoldsJob.stable (p : ℕ) (j : Entry) (J : Job) :
    Stable p fun s => HoldsJob s.files p j J := by
  intro s t h hi
  cases j with
  | named id => exact hi.held id J h
  | staged id =>
    have hc := h.creator id rfl
    obtain ⟨J', hJ', -, same⟩ := (hi.stagedJob hc id).2 J h.present
    obtain rfl := same h.holder
    exact ⟨hJ', h.holder, fun _ _ => hi.creator hc⟩

/-- `p` holds the control lock of the job `j`, whose directory is `J`, and knows `L`. -/
structure Held (p : ℕ) (j : Entry) (J : Job) (L : State → Prop) (s : State) : Prop where
  hold : HoldsJob s.files p j J
  known : L s

theorem Held.stable {p : ℕ} {j : Entry} {J : Job} {L : State → Prop} (hL : Lasting L) :
    Stable p (Held p j J L) :=
  fun _ _ h hi => ⟨HoldsJob.stable p j J h.hold hi, hL h.known hi.grows⟩

theorem Held.and {p : ℕ} {j : Entry} {J : Job} {L L' : State → Prop} {s : State}
    (h : Held p j J L s) (h' : L' s) : Held p j J (fun s => L s ∧ L' s) s :=
  ⟨h.hold, h.known, h'⟩

section
variable {f : Files} {p : ℕ} {j : Entry} {J : Job} (h : HoldsJob f p j J)
include h

theorem HoldsJob.jobFile {β : Type} (read : Job → Option β) : f.jobFile j read = read J := by
  simp [Files.jobFile, h.present]

theorem HoldsJob.readStatus : f.readStatus j = J.status.getD (.other "unknown") := by
  simp [Files.readStatus, h.jobFile]

theorem HoldsJob.hasLock : f.hasLock j = J.lock.isSome := by
  simp [Files.hasLock, h.jobFile]

theorem HoldsJob.catJob (read : Job → Option String) : f.catJob j read = (read J).getD "" := by
  simp [Files.catJob, h.jobFile]

end

theorem Files.readStatus_eq {f : Files} {j : Entry} {st : Status} (h : f.readStatus j = st)
    (hst : st ≠ .other "unknown") : ∃ J, f.job j = some J ∧ J.status = some st := by
  unfold Files.readStatus Files.jobFile at h
  cases hj : f.job j with
  | none => simp [hj] at h; exact absurd h.symm hst
  | some J =>
    cases hs : J.status with
    | none => simp [hj, hs] at h; exact absurd h.symm hst
    | some st' => simp [hj, hs] at h; exact ⟨J, rfl, by rw [hs, h]⟩

theorem HoldsJob.status {f : Files} {p : ℕ} {j : Entry} {J : Job} {st : Status}
    (h : HoldsJob f p j J) (hr : f.readStatus j = st) (hst : st ≠ .other "unknown") :
    J.status = some st := by
  obtain ⟨J', hJ', hs⟩ := Files.readStatus_eq hr hst
  rw [h.present] at hJ'
  cases hJ'
  exact hs

/-- From `s` on the process performs only actions the queue allows; `Q` holds where it returns. -/
abbrev Setting.Safe (S : Setting) (p : ℕ) {α : Type} (x : Script α) (Q : α → State → Prop)
    (s : State) : Prop :=
  Refines queueKernel S.act S.Visited p x Q s

section
variable {S : Setting} {p : ℕ} {α β : Type} {s : State} {Q : α → State → Prop}
  {P : State → Prop}

namespace Setting.Safe

theorem call {x : Script β} {f : β → Script α} {R : β → State → Prop} (h : S.Safe p x R s)
    (next : ∀ b t, R b t → S.Safe p (f b) Q t) : S.Safe p (x >>= f) Q s :=
  Refines.bind (h.weaken next)

theorem require {test : Bool} {m : String} {f : Unit → Script α}
    (h : test = true → S.Safe p (f ()) Q s) : S.Safe p (require test m >>= f) Q s := by
  cases test with
  | false => trivial
  | true => exact h rfl

theorem get (hP : Stable p P) (hs : P s) {read : Files → β} {f : β → Script α}
    (next : ∀ t, P t → S.Visited t → S.Safe p (f (read t.files)) Q t) :
    S.Safe p (AgentWs.get read >>= f) Q s := by
  rintro t ho hv r t' ⟨rfl, rfl⟩
  exact ⟨.idle, next _ (hP hs (Others.interference ho)) hv⟩

theorem ask (hP : Stable p P) (hs : P s) {q : Query} {f : q.Reply → Script α}
    (next : ∀ t r, P t → S.Safe p (f r) Q t) : S.Safe p (AgentWs.ask q >>= f) Q s := by
  rintro t ho hv r t' rfl
  exact ⟨.idle, next _ r (hP hs (Others.interference ho))⟩

theorem say (hP : Stable p P) (hs : P s) {o : Output} {f : Unit → Script α}
    (may : ∀ t, P t → S.Visited t → MaySay S.hexdigest S.cmd S.Unique p t o)
    (next : ∀ t, P t → S.Safe p (f ()) Q (t.record p (.said o) t.files)) :
    S.Safe p (AgentWs.say o >>= f) Q s := by
  rintro t ho hv r t' rfl
  have ht := hP hs (Others.interference ho)
  exact ⟨.say (may t ht hv), next t ht⟩

theorem unlock (hP : Stable p P) (hs : P s) {l : LockName} {f : Unit → Script α}
    (next : ∀ t, P t → S.Safe p (f ()) Q ⟨t.files.free p l, t.trace⟩) :
    S.Safe p (AgentWs.unlock l >>= f) Q s := by
  rintro t ho hv r t' rfl
  exact ⟨.free l, next t (hP hs (Others.interference ho))⟩

theorem lock (hP : Stable p P) (hs : P s) {l : LockName} {f : Bool → Script α}
    (may : ∀ t, P t → MayLock p t.files l)
    (granted : ∀ t, P t → t.files.lockState l = some none →
      S.Safe p (f true) Q (t.record p (.locked l) (t.files.grant p l)))
    (refused : ∀ t, P t → S.Safe p (f false) Q t) : S.Safe p (AgentWs.lock l >>= f) Q s := by
  intro t ho hv r t' hx
  have ht := hP hs (Others.interference ho)
  simp only [queueKernel, exec] at hx
  split at hx
  · obtain ⟨rfl, rfl⟩ := hx
    exact ⟨.idle, refused _ ht⟩
  · obtain ⟨rfl, rfl⟩ := hx
    exact ⟨.lock ‹_› (may t ht), granted t ht ‹_›⟩
  · exact hx.elim

theorem write (hP : Stable p P) (hs : P s) {w : Write} {f : Bool → Script α}
    (allowed : ∀ t, P t → S.Visited t → Allowed S.hexdigest S.cmd p t w)
    (done : ∀ t f', P t → S.Visited t → w.apply t.files = some f' →
      S.Safe p (f true) Q (t.record p (.wrote w) f'))
    (refused : ∀ t, P t → w.apply t.files = none → S.Safe p (f false) Q t) :
    S.Safe p (AgentWs.write w >>= f) Q s := by
  intro t ho hv r t' hx
  have ht := hP hs (Others.interference ho)
  simp only [queueKernel, exec] at hx
  split at hx
  · obtain ⟨rfl, rfl⟩ := hx
    exact ⟨.write (allowed t ht hv) ‹_›, done t _ ht hv ‹_›⟩
  · obtain ⟨rfl, rfl⟩ := hx
    exact ⟨.idle, refused _ ht ‹_›⟩

end Setting.Safe

theorem Setting.act_grows' {p : ℕ} {s t : State} (h : S.act p s t) : Grows s t :=
  (Setting.act_grows h).grows

variable {j : Entry} {J : Job} {L : State → Prop}

/-- A change of one file of the job whose lock is held. -/
theorem Setting.Safe.writeJob (hL : Lasting L) (hs : Held p j J L s) {w : Write}
    {g : Job → Option Job} {f : Bool → Script α}
    (hg : ∀ f, w.apply f = f.onJob j g)
    (holder : ∀ J', g J = some J' → J'.holder = J.holder)
    (allowed : ∀ t, Held p j J L t → S.Visited t → Allowed S.hexdigest S.cmd p t w)
    (done : ∀ t J', g J = some J' → (p, .wrote w) ∈ t.trace → Held p j J' L t →
      S.Safe p (f true) Q t)
    (refused : ∀ t, g J = none → Held p j J L t → S.Safe p (f false) Q t) :
    S.Safe p (AgentWs.write w >>= f) Q s := by
  refine Safe.write (Held.stable hL) hs allowed ?_ ?_
  · intro t f' ht hv hf
    have hact : S.act p t (t.record p (.wrote w) f') := .write (allowed t ht hv) hf
    rw [hg] at hf
    obtain ⟨J₁, J', h₁, hJ', rfl⟩ := Files.onJob_eq_some.1 hf
    rw [ht.hold.present] at h₁
    cases h₁
    refine done _ J' hJ' List.mem_cons_self ⟨⟨by simp, ?_, ht.hold.creator⟩, ?_⟩
    · exact (holder J' hJ').trans ht.hold.holder
    · exact hL ht.known (Setting.act_grows' hact)
  · intro t ht hn
    refine refused t ?_ ht
    rw [hg] at hn
    cases hgJ : g J with
    | none => rfl
    | some J' => simp [Files.onJob, ht.hold.present, hgJ] at hn

/-- A change of one file that the file system cannot refuse, made by a helper that dies on failure. -/
theorem Setting.Safe.replace (hL : Lasting L) (hs : Held p j J L s) {w : Write} {g : Job → Job}
    {f : Bool → Script α} (hg : ∀ f, w.apply f = f.onJob j fun J => some (g J))
    (holder : (g J).holder = J.holder)
    (allowed : ∀ t, Held p j J L t → S.Visited t → Allowed S.hexdigest S.cmd p t w)
    (done : ∀ t, (p, .wrote w) ∈ t.trace → Held p j (g J) L t → S.Safe p (f true) Q t) :
    S.Safe p (AgentWs.write w >>= f) Q s :=
  Safe.writeJob hL hs hg (by rintro J' ⟨⟩; exact holder) allowed
    (by rintro t J' ⟨⟩ hm ht; exact done t hm ht) (by rintro t ⟨⟩)

end

end Cyclo.AgentWs
