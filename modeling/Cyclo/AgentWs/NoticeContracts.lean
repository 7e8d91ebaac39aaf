import Cyclo.AgentWs.LibContracts
import Cyclo.AgentWs.Jobs

/-! The publisher of terminal notices, run alone or as a child of a settlement that holds the
control lock of the source. -/
namespace Cyclo.AgentWs
open Cyclo.Process Setting

/-- The operations that change no directory that exists. -/
def Op.Adds {β : Type} : Op β → Prop
  | .get _ | .ask _ | .say _ => True
  | .write (.publishJob (.named _) _) => True
  | _ => False

/-- The script only adds to the queue, and reports success only by returning. -/
def Adds {α : Type} : Script α → Prop
  | .ret _ => True
  | .exit code _ => code ≠ 0
  | .op e next => e.Adds ∧ ∀ r, Adds (next r)

theorem Adds.bind {α β : Type} {x : Script β} {f : β → Script α} (hx : Adds x)
    (hf : ∀ b, Adds (f b)) : Adds (x >>= f) := by
  induction x with
  | ret b => exact hf b
  | exit code m => exact hx
  | op e next ih => exact ⟨hx.1, fun r => ih r (hx.2 r)⟩

theorem Adds.get {α β : Type} {read : Files → β} {f : β → Script α} (hf : ∀ b, Adds (f b)) :
    Adds (AgentWs.get read >>= f) := ⟨trivial, hf⟩

theorem Adds.require {α : Type} {test : Bool} {m : String} {f : Unit → Script α}
    (hf : Adds (f ())) : Adds (AgentWs.require test m >>= f) := by
  cases test with
  | false => exact Nat.one_ne_zero
  | true => exact hf

theorem child_op {β : Type} (e : Op β) (next : β → Script Unit) :
    child (.op e next) = .op (.ask .child) fun
      | ChildFate.alive => .op e fun r => child (next r)
      | ChildFate.killed => .ret .killed
      | ChildFate.timedOut => .ret .timedOut :=
  (child.eq_def _).trans rfl

theorem Adds.child {x : Script Unit} (hx : Adds x) : Adds (child x) := by
  induction x with
  | ret a => trivial
  | exit code m => trivial
  | op e next ih =>
    rw [child_op]
    refine ⟨trivial, fun r => ?_⟩
    cases r with
    | alive => exact ⟨hx.1, fun r => ih r (hx.2 r)⟩
    | killed => trivial
    | timedOut => trivial

/-- An assertion that survives the others and those own actions that keep the locks held. -/
structure Carried (S : Setting) (p : ℕ) (P : State → Prop) : Prop where
  stable : Stable p P
  own : ∀ t t', P t → S.act p t t' →
    (∀ id J, HoldsJob t.files p (.named id) J → HoldsJob t'.files p (.named id) J) → P t'

section
variable {S : Setting} {p : ℕ} {s : State} {P : State → Prop}

theorem Lasting.carried {L : State → Prop} (hL : Lasting L) : Carried S p L where
  stable := hL.stable p
  own _ _ h ha _ := hL h (Setting.act_grows' ha)

theorem Held.carried {id : String} {J : Job} {L : State → Prop} (hL : Lasting L) :
    Carried S p (Held p (.named id) J L) where
  stable := Held.stable hL
  own _ _ h ha hold := ⟨hold id J h.hold, hL h.known (Setting.act_grows' ha)⟩

theorem Carried.and {P' : State → Prop} (h : Carried S p P) (h' : Carried S p P') :
    Carried S p fun s => P s ∧ P' s where
  stable := h.stable.and h'.stable
  own t t' hs ha hold := ⟨h.own t t' hs.1 ha hold, h'.own t t' hs.2 ha hold⟩

theorem Op.Adds.present {w : Write} (hw : (Op.write w).Adds) {f f' : Files}
    (hf : w.apply f = some f') {k : Entry} {J : Job} (h : f.job k = some J) : f'.job k = some J := by
  cases w with
  | publishJob j build =>
    simp only [Write.apply] at hf
    split at hf <;> cases hf
    have hne : k ≠ j := by
      rintro rfl
      simp_all
    simpa [hne] using h
  | _ => exact hw.elim

/-- An operation that only adds leaves the locks of `p` as they are. -/
theorem Op.Adds.holds {β : Type} {e : Op β} (he : e.Adds) {t t' : State} {r : β}
    (hx : exec p e t r t') {id : String} {J : Job} (h : HoldsJob t.files p (.named id) J) :
    HoldsJob t'.files p (.named id) J := by
  cases e with
  | get f => exact hx.2 ▸ h
  | ask q => exact (show t' = t from hx) ▸ h
  | say o =>
    obtain rfl : t' = _ := hx
    exact h
  | lock l | unlock l => exact he.elim
  | write w =>
    simp only [exec] at hx
    split at hx
    · rename_i f hf
      obtain ⟨-, rfl⟩ := hx
      exact ⟨he.present hf h.present, h.holder, by rintro x ⟨⟩⟩
    · exact hx.2 ▸ h

/-- A child that only adds leaves its parent what it knew, however it ends. -/
theorem Setting.Safe.child {x : Script Unit} {Q : Unit → State → Prop} (hP : Carried S p P)
    (hs : P s) (adds : Adds x) (h : S.Safe p x Q s) :
    S.Safe p (child x) (fun r t => P t ∧ (r = .exited 0 "" → Q () t)) s := by
  induction x generalizing s with
  | ret a => exact ⟨hs, fun _ => h⟩
  | exit code m =>
    refine ⟨hs, ?_⟩
    rintro ⟨⟩
    exact absurd rfl adds
  | op e next ih =>
    rw [child_op]
    rintro t ho hv r t' rfl
    have ht := hP.stable hs (Others.interference ho)
    refine ⟨.idle, ?_⟩
    cases r with
    | alive =>
      intro t₁ ho₁ hv₁ r t₂ hx
      obtain ⟨ha, hn⟩ := h t₁ (ho.trans ho₁) hv₁ r t₂ hx
      have ht₁ := hP.stable ht (Others.interference ho₁)
      exact ⟨ha, ih r (hP.own t₁ t₂ ht₁ ha fun id J => adds.1.holds hx) (adds.2 r) hn⟩
    | killed => exact ⟨ht, by rintro ⟨⟩⟩
    | timedOut => exact ⟨ht, by rintro ⟨⟩⟩

theorem checkNoticeSource_adds (a : JobCreateArgs) (source : String) :
    Adds (checkNoticeSource a source) := by
  refine .require <| .require <| .get fun _ => .require <| .get fun _ => .require <|
    .get fun _ => .require <| .get fun _ => .require <| .get fun _ => .require <|
    .get fun _ => .get fun _ => .get fun _ => .require <| .require <| .require <| .require ?_
  unfold require
  split
  · trivial
  · exact Nat.one_ne_zero

theorem jobCreate_adds (a : JobCreateArgs) : Adds (jobCreate a) := by
  have rest : Adds (do
      require (← get fun f => (f.task (.named a.taskId)).isSome) s!"task '{a.taskId}' does not exist"
      require (← get fun f => (f.job (.named a.jobId)).isNone) s!"job '{a.jobId}' already exists"
      require (← write (.publishJob (.named a.jobId) a.build)) s!"job '{a.jobId}' already exists"
      say (.line s!"created: {a.jobId} (task: {a.taskId}, role: {a.role})")) :=
    .get fun _ => .require <| .get fun _ =>
      .require ⟨trivial, fun _ => .require ⟨trivial, fun _ => trivial⟩⟩
  refine .require <| .require <| .require <| .require <| .require <| .require <| .require ?_
  cases a.noticeSource with
  | none => exact rest
  | some source => exact .bind (checkNoticeSource_adds a source) fun _ => rest

theorem checkNoticeSource_safe (hP : Stable p P) (hs : P s) (a : JobCreateArgs) (source : String) :
    S.Safe p (checkNoticeSource a source) (fun _ t => P t) s := by
  refine Safe.require fun _ => Safe.require fun _ => ?_
  refine Safe.get hP hs fun t ht _ => Safe.require fun _ => ?_
  refine Safe.get hP ht fun t ht _ => Safe.require fun _ => ?_
  refine Safe.get hP ht fun t ht _ => Safe.require fun _ => ?_
  refine Safe.get hP ht fun t ht _ => Safe.require fun _ => ?_
  refine Safe.get hP ht fun t ht _ => Safe.require fun _ => ?_
  refine Safe.get hP ht fun t ht _ => Safe.get hP ht fun t ht _ => Safe.get hP ht fun t ht _ => ?_
  refine Safe.require fun _ => Safe.require fun _ => Safe.require fun _ => Safe.require fun _ => ?_
  unfold require
  split
  · exact ht
  · trivial

/-- `job-create` publishes one complete job. -/
theorem jobCreate_safe (hP : Stable p P) (hs : P s) {a : JobCreateArgs}
    (may : ∀ t, P t → MayPublish S.hexdigest S.cmd p t.files a) :
    S.Safe p (jobCreate a) (fun _ _ => True) s := by
  refine Safe.require fun _ => Safe.require fun _ => Safe.require fun _ => Safe.require fun hspec => ?_
  refine Safe.require fun hid => Safe.require fun hrole => Safe.require fun htask => ?_
  have valid : a.Valid := ⟨hid, hrole, htask, by simpa using hspec⟩
  have rest : ∀ {s}, P s → S.Safe p (do
      require (← get fun f => (f.task (.named a.taskId)).isSome) s!"task '{a.taskId}' does not exist"
      require (← get fun f => (f.job (.named a.jobId)).isNone) s!"job '{a.jobId}' already exists"
      require (← write (.publishJob (.named a.jobId) a.build)) s!"job '{a.jobId}' already exists"
      say (.line s!"created: {a.jobId} (task: {a.taskId}, role: {a.role})"))
      (fun _ _ => True) s := by
    intro s hs
    refine Safe.get hP hs fun t ht _ => Safe.require fun _ => ?_
    refine Safe.get hP ht fun t ht _ => Safe.require fun _ => ?_
    refine Safe.write hP ht (fun t ht _ => ⟨a, valid, rfl, rfl, may t ht⟩) (fun t f' _ _ _ => ?_)
      fun _ _ _ => trivial
    refine Safe.require fun _ => ?_
    exact fun _ _ _ _ _ hx => ⟨hx ▸ .say trivial, trivial⟩
  cases a.noticeSource with
  | none => exact rest hs
  | some source => exact Safe.call (checkNoticeSource_safe hP hs a source) fun _ _ => rest

/-- What one test or read of a published job has shown: `R` holds of it. -/
theorem lasting_job {R : Job → Prop} (hR : ∀ {J J'}, R J → JobGrows J J' → R J') (c : Prop)
    (id : String) : Lasting fun s => c → ∃ J, s.files.job (.named id) = some J ∧ R J := by
  intro s t h hg hc
  obtain ⟨J, hJ, h⟩ := h hc
  obtain ⟨J', hJ', hgJ⟩ := hg.jobs id J hJ
  exact ⟨J', hJ', hR h hgJ⟩

theorem Files.jobFile_some {β : Type} {f : Files} {j : Entry} {read : Job → Option β} {v : β}
    (h : f.jobFile j read = some v) : ∃ J, f.job j = some J ∧ read J = some v :=
  Option.bind_eq_some_iff.1 h

theorem Files.jobFile_isSome {β : Type} {f : Files} {j : Entry} {read : Job → Option β}
    (h : (f.jobFile j read).isSome = true) : ∃ J, f.job j = some J ∧ (read J).isSome = true := by
  obtain ⟨v, hv⟩ := Option.isSome_iff_exists.1 h
  obtain ⟨J, hJ, hr⟩ := Files.jobFile_some hv
  exact ⟨J, hJ, by simp [hr]⟩

theorem Files.catJob_some {f : Files} {j : Entry} {read : Job → Option String}
    (h : f.catJob j read ≠ "") : ∃ J, f.job j = some J ∧ read J = some (f.catJob j read) := by
  unfold Files.catJob at h ⊢
  cases hf : f.jobFile j read with
  | none => simp [hf] at h
  | some v => exact Files.jobFile_some hf

theorem validName_ne {name : String} (h : validName name = true) : name ≠ "" := by
  rintro rfl
  exact absurd h (by decide)

/-- The comparison succeeds only on the notice, and on every notice still pending. -/
theorem notificationMatches_safe (hP : Stable p P) (hs : P s) {n task job role : String} (good : Prop)
    (hgood : good → ∀ t, P t → S.Visited t → ∃ N, t.files.job (.named n) = some N ∧
      NoticeFor N task job role ∧ N.status = some .pending) :
    S.Safe p (notificationMatches (.named n) task job (plannerNotificationSpec task job role))
      (fun r t => P t ∧ (good → r = true) ∧
        (r = true → ∃ N, t.files.job (.named n) = some N ∧ NoticeFor N task job role)) s := by
  unfold notificationMatches
  refine Safe.get hP hs fun t ht hv => ?_
  split
  · rename_i hn
    refine ⟨ht, fun g => ?_, by rintro ⟨⟩⟩
    obtain ⟨N, hN, -⟩ := hgood g t ht hv
    simp [hN] at hn
  refine Safe.get hP ht fun t ht hv => ?_
  split
  · rename_i hw
    refine ⟨ht, fun g => ?_, by rintro ⟨⟩⟩
    obtain ⟨N, hN, hf, -⟩ := hgood g t ht hv
    simp [hN, hf.workspace] at hw
  rename_i hw
  have workspace : True → ∃ N, t.files.job (.named n) = some N ∧ N.workspace = true :=
    fun _ => (Option.any_eq_true ..).1 (by simpa using hw)
  have h₁ := hP.and ((lasting_job (fun {J J'} (h : J.workspace = true) hg => hg.workspace.trans h)
    True n).stable p)
  refine Safe.get h₁ ⟨ht, workspace⟩ fun t₁ ht hv => ?_
  have good₁ := fun g => hgood g t₁ ht.1 hv
  have h₂ := h₁.and ((lasting_job (fun {J J'} (h : J.role = some "planner") hg => hg.role.trans h)
    (t₁.files.jobFile (.named n) (·.role) = some "planner") n).stable p)
  refine Safe.get h₂ ⟨ht, Files.jobFile_some⟩ fun t₂ ht hv => ?_
  have good₂ := fun g => hgood g t₂ ht.1.1 hv
  have h₃ := h₂.and ((lasting_job (fun {J J'} (h : J.taskId = some task) hg => hg.taskId.trans h)
    (t₂.files.jobFile (.named n) (·.taskId) = some task) n).stable p)
  refine Safe.get h₃ ⟨ht, Files.jobFile_some⟩ fun t₃ ht hv => ?_
  have good₃ := fun g => hgood g t₃ ht.1.1.1 hv
  refine Safe.get h₃ ht fun t₄ ht hv => ?_
  have good₄ := fun g => hgood g t₄ ht.1.1.1 hv
  have h₄ := h₃.and ((lasting_job (fun {J J'} (h : J.noticeSource = some job) hg =>
    hg.noticeSource.trans h) (t₄.files.jobFile (.named n) (·.noticeSource) = some job) n).stable p)
  refine Safe.get h₄ ⟨ht, Files.jobFile_some⟩ fun t₅ ht hv => ?_
  have good₅ := fun g => hgood g t₅ ht.1.1.1.1 hv
  have h₅ := h₄.and ((lasting_job (fun {J J'}
    (h : J.spec = some (plannerNotificationSpec task job role)) hg => hg.spec.trans h)
    (t₅.files.jobFile (.named n) (·.spec) = some (plannerNotificationSpec task job role)) n).stable p)
  refine Safe.get h₅ ⟨ht, Files.jobFile_some⟩ fun t₆ ht hv => ?_
  have good₆ := fun g => hgood g t₆ ht.1.1.1.1.1 hv
  have h₆ := h₅.and ((lasting_job (fun {J J'} (h : J.log.isSome = true) hg => hg.log h)
    ((t₆.files.jobFile (.named n) (·.log)).isSome = true) n).stable p)
  refine Safe.get h₆ ⟨ht, Files.jobFile_isSome⟩ fun t ht hv => ?_
  have good₇ := fun g => hgood g t ht.1.1.1.1.1.1 hv
  obtain ⟨⟨⟨⟨⟨⟨ht, hws⟩, hrole⟩, htask⟩, hsource⟩, hspec⟩, hlog⟩ := ht
  refine ⟨ht, fun g => ?_, fun hr => ?_⟩
  · obtain ⟨N₁, hN₁, f₁, -⟩ := good₁ g
    obtain ⟨N₂, hN₂, f₂, -⟩ := good₂ g
    obtain ⟨N₃, hN₃, f₃, st₃⟩ := good₃ g
    obtain ⟨N₄, hN₄, f₄, -⟩ := good₄ g
    obtain ⟨N₅, hN₅, f₅, -⟩ := good₅ g
    obtain ⟨N₆, hN₆, f₆, -⟩ := good₆ g
    obtain ⟨N₇, hN₇, f₇, -⟩ := good₇ g
    simp [Files.jobFile, hN₁, f₁.role, hN₂, f₂.taskId, hN₃, st₃, hN₄, f₄.source, hN₅, f₅.spec, hN₆,
      f₆.log, hN₇, f₇.controlLock]
  · simp only [Bool.and_eq_true, decide_eq_true_eq] at hr
    obtain ⟨⟨⟨⟨⟨⟨hr₁, hr₂⟩, -⟩, hr₄⟩, hr₅⟩, hr₆⟩, hr₇⟩ := hr
    obtain ⟨N, hN, hcontrol⟩ := (Option.any_eq_true ..).1 hr₇
    have same : ∀ {R : Job → Prop}, (∃ N, t.files.job (.named n) = some N ∧ R N) → R N := by
      rintro R ⟨N', hN', h⟩
      rw [hN] at hN'
      cases hN'
      exact h
    exact ⟨N, hN, same (hrole hr₁), same (htask hr₂), same (hsource hr₄), same (hspec hr₅),
      same (hws trivial), same (hlog hr₆), hcontrol⟩

-- the checks of the arguments are not to be evaluated on the texts of a notice
attribute [local irreducible] jobCreate

/-- The source job has its notice now. -/
def NoticedNow (S : Setting) (job : String) (t : State) : Prop :=
  ∃ X, t.files.job (.named job) = some X ∧ Noticed S.hexdigest t.files job X

/-- A settlement may report a notice error: it found no notice when it took the lock. -/
def Excused (S : Setting) (p : ℕ) (job : String) (t : State) : Prop :=
  S.Unique → (S.cmd p).settles = some job → ∃ X task, t.files.job (.named job) = some X ∧
    X.taskId = some task ∧
    NoticeUnpublishedAtLock p job (plannerNotificationId S.hexdigest task job) t.trace

/-- The source job has this role and belongs to this task. -/
def SourceOf (job role task : String) (t : State) : Prop :=
  ∃ X, t.files.job (.named job) = some X ∧ X.role = some role ∧ X.taskId = some task

theorem lasting_noticedNow (job : String) : Lasting (NoticedNow S job) := by
  rintro s t ⟨X, hX, hn⟩ hg
  obtain ⟨X', hX', hgX⟩ := hg.jobs job X hX
  refine ⟨X', hX', ?_⟩
  rcases lasting_noticed S.hexdigest job X hn hg with hp | ⟨role, task, N, hr, ht, hN⟩
  · exact Or.inl (hgX.role.trans hp)
  · exact Or.inr ⟨role, task, N, hgX.role.trans hr, hgX.taskId.trans ht, hN⟩

theorem lasting_excused (job : String) : Lasting (Excused S p job) := by
  intro s t h hg unique hset
  obtain ⟨X, task, hX, htask, hn⟩ := h unique hset
  obtain ⟨X', hX', hgX⟩ := hg.jobs job X hX
  exact ⟨X', task, hX', hgX.taskId.trans htask, lasting_unpublished _ _ _ hn hg⟩

theorem lasting_sourceOf (job role task : String) : Lasting (SourceOf job role task) := by
  rintro s t ⟨X, hX, hr, ht⟩ hg
  obtain ⟨X', hX', hgX⟩ := hg.jobs job X hX
  exact ⟨X', hX', hgX.role.trans hr, hgX.taskId.trans ht⟩

/-- What a process that settles `job` knows while it publishes the notice. -/
def Settling (S : Setting) (p : ℕ) (job : String) (P : State → Prop) : Prop :=
  (S.cmd p).settles = some job → ∀ t, P t → ∃ J st, HoldsJob t.files p (.named job) J ∧
    J.status = some st ∧ st.active = true ∧ (p, .locked (.job (.named job))) ∈ t.trace

/-- While the source is active its notice, once published, is there and pending. -/
theorem Settling.notice {job role task : String} (h : Settling S p job P) (hne : role ≠ "planner")
    (unique : S.Unique) (hset : (S.cmd p).settles = some job) {t : State} (ht : P t)
    (hv : S.Visited t) (hsrc : SourceOf job role task t) {N : Job}
    (hN : t.files.job (.named (plannerNotificationId S.hexdigest task job)) = some N) :
    NoticeFor N task job role ∧ N.status = some .pending := by
  obtain ⟨X, hX, hr, htask⟩ := hsrc
  have hi := hv.notice_of_id unique hX hr hne htask hN
  refine ⟨hi.notice, ?_⟩
  by_contra hst
  obtain ⟨st, hstX, hterm⟩ := hi.claimed hst
  obtain ⟨J, st', hold, hJ, hact, -⟩ := h hset t ht
  rw [hold.present] at hX
  cases hX
  rw [hJ] at hstX
  cases hstX
  cases st <;> simp_all [Status.active, Status.terminal]

/-- No notice is there, so none was there when the lock was taken. -/
theorem Settling.excused {job role task : String} (h : Settling S p job P) {t : State} (ht : P t)
    (hv : S.Visited t) (hsrc : SourceOf job role task t)
    (hn : t.files.job (.named (plannerNotificationId S.hexdigest task job)) = none) :
    Excused S p job t := by
  intro _ hset
  obtain ⟨X, hX, -, htask⟩ := hsrc
  obtain ⟨J, st, -, -, -, hlock⟩ := h hset t ht
  obtain ⟨later, earlier, htrace⟩ := List.append_of_mem hlock
  refine ⟨X, task, hX, htask, later, earlier, htrace, fun q build hq => ?_⟩
  refine (hv.jobOnce _).present q _ ?_ (Or.inl ⟨build, rfl⟩) hn
  rw [htrace]
  simp [hq]

/-- The publisher leaves a notice behind, or a settlement that failed had found none. -/
theorem ensurePlannerNotification_safe (hP : Carried S p P) (hs : P s) {job : String}
    (notifies : (S.cmd p).notifies = some job)
    (valid : (S.cmd p).settles = some job → validName job = true) (settling : Settling S p job P) :
    S.Safe p (ensurePlannerNotification S.hexdigest job)
      (fun r t => P t ∧ (∀ o, r = .ok o → NoticedNow S job t) ∧
        (∀ e, r = .error e → Excused S p job t)) s := by
  have present : ∀ t, P t → S.Visited t → (S.cmd p).settles = some job →
      ∃ J st, t.files.job (.named job) = some J ∧ J.Whole job ∧ J.status = some st ∧
        st.active = true := by
    intro t ht hv hset
    obtain ⟨J, st, hold, hst, hact, -⟩ := settling hset t ht
    exact ⟨J, st, hold.present, hv.whole hold.present, hst, hact⟩
  unfold ensurePlannerNotification
  split
  · rename_i hbad
    exact ⟨hs, by rintro o ⟨⟩, fun _ _ _ hset => by simp [valid hset] at hbad⟩
  refine Safe.get hP.stable hs fun t ht hv => ?_
  split
  · rename_i hbad
    refine ⟨ht, by rintro o ⟨⟩, fun _ _ _ hset => ?_⟩
    obtain ⟨J, st, hJ, -⟩ := present t ht hv hset
    simp [hJ] at hbad
  refine Safe.get hP.stable ht fun t₁ ht hv => ?_
  have role₁ : (S.cmd p).settles = some job →
      validName (t₁.files.catJob (.named job) (·.role)) = true := by
    intro hset
    obtain ⟨J, st, hJ, whole, -⟩ := present t₁ ht hv hset
    obtain ⟨role, hr, hvalid⟩ := whole.role
    simpa [Files.catJob, Files.jobFile, hJ, hr] using hvalid
  generalize hrole : t₁.files.catJob (.named job) (·.role) = role at role₁ ⊢
  have isRole : role ≠ "" → ∃ X, t₁.files.job (.named job) = some X ∧ X.role = some role := by
    rintro hne
    rw [← hrole] at hne ⊢
    exact Files.catJob_some hne
  have hP₁ := hP.and (Lasting.carried (lasting_job (fun {J J'} (h : J.role = some role) hg =>
    hg.role.trans h) (role ≠ "") job))
  refine Safe.get hP₁.stable ⟨ht, isRole⟩ fun t₂ ht hv => ?_
  have task₂ : (S.cmd p).settles = some job →
      validName (t₂.files.catJob (.named job) (·.taskId)) = true := by
    intro hset
    obtain ⟨J, st, hJ, whole, -⟩ := present t₂ ht.1 hv hset
    obtain ⟨task, htask, hvalid⟩ := whole.taskId
    simpa [Files.catJob, Files.jobFile, hJ, htask] using hvalid
  generalize htask : t₂.files.catJob (.named job) (·.taskId) = task at task₂ ⊢
  have isSource : role ≠ "" → task ≠ "" → SourceOf job role task t₂ := by
    intro hr hne
    rw [← htask] at hne ⊢
    obtain ⟨X, hX, hXr⟩ := ht.2 hr
    obtain ⟨X', hX', hXt⟩ := Files.catJob_some hne
    rw [hX] at hX'
    cases hX'
    exact ⟨X, hX, hXr, hXt⟩
  have hP₂ : Carried S p fun t => P t ∧ (role ≠ "" → task ≠ "" → SourceOf job role task t) := by
    refine hP.and (Lasting.carried fun s t h hg hr ht => ?_)
    exact lasting_sourceOf job role task (h hr ht) hg
  refine Safe.get hP₂.stable ⟨ht.1, isSource⟩ fun t₃ ht hv => ?_
  have active₃ : (S.cmd p).settles = some job → (t₃.files.readStatus (.named job)).active = true := by
    intro hset
    obtain ⟨J, st, hJ, -, hst, hact⟩ := present t₃ ht.1 hv hset
    simpa [Files.readStatus, Files.jobFile, hJ, hst] using hact
  split
  · rename_i hbad
    refine ⟨ht.1, by rintro o ⟨⟩, fun _ _ _ hset => ?_⟩
    simp [role₁ hset, task₂ hset] at hbad
  rename_i hvalid
  simp only [Bool.or_eq_true, Bool.not_eq_true', not_or, Bool.not_eq_false] at hvalid
  have source : SourceOf job role task t₃ :=
    ht.2 (validName_ne hvalid.1) (validName_ne hvalid.2)
  split
  · rename_i hplanner
    obtain ⟨X, hX, hr, -⟩ := source
    exact ⟨ht.1, fun _ _ => ⟨X, hX, Or.inl (hplanner ▸ hr)⟩, by rintro e ⟨⟩⟩
  rename_i hne
  split
  · rename_i hbad
    refine ⟨ht.1, by rintro o ⟨⟩, fun _ _ _ hset => ?_⟩
    simp [active₃ hset] at hbad
  have hP₃ : Carried S p fun t => P t ∧ SourceOf job role task t :=
    hP.and (lasting_sourceOf job role task).carried
  have noticed : ∀ t, SourceOf job role task t →
      (∃ N, t.files.job (.named (plannerNotificationId S.hexdigest task job)) = some N ∧
        NoticeFor N task job role) → NoticedNow S job t := by
    rintro t ⟨X, hX, hr, htask⟩ ⟨N, hN, hn⟩
    exact ⟨X, hX, Or.inr ⟨role, task, N, hr, htask, hN, hn⟩⟩
  refine Safe.get hP₃.stable ⟨ht.1, source⟩ fun t₄ ht hv => ?_
  split
  · rename_i hsome
    obtain ⟨N, hN⟩ := Option.isSome_iff_exists.1 hsome
    have hP₄ := hP₃.and (Lasting.carried (lasting_job (R := fun _ => True) (fun _ _ => trivial) True
      (plannerNotificationId S.hexdigest task job)))
    refine Safe.call (notificationMatches_safe hP₄.stable ⟨ht, fun _ => ⟨N, hN, trivial⟩⟩
      (S.Unique ∧ (S.cmd p).settles = some job) ?_) ?_
    · rintro ⟨unique, hset⟩ t ht hv
      obtain ⟨N, hN, -⟩ := ht.2 trivial
      exact ⟨N, hN, settling.notice hne unique hset ht.1.1 hv ht.1.2 hN⟩
    · rintro r t ⟨ht, hgood, htrue⟩
      cases r with
      | true => exact ⟨ht.1.1, fun _ _ => noticed t ht.1.2 (htrue rfl), by rintro e ⟨⟩⟩
      | false =>
        refine ⟨ht.1.1, by rintro o ⟨⟩, fun _ _ unique hset => ?_⟩
        exact absurd (hgood ⟨unique, hset⟩) (by simp)
  · rename_i hnone
    have excused : Excused S p job t₄ :=
      settling.excused ht.1 hv ht.2 (by simpa using hnone)
    have hP₄ := hP₃.and (lasting_excused (S := S) (p := p) job).carried
    have created := jobCreate_safe hP₄.stable ⟨ht, excused⟩
      (a := noticeArgs S.hexdigest task job role) (by
        rintro t ⟨⟨-, X, hX, hr, htask⟩, -⟩
        exact Or.inr ⟨job, role, task, X, notifies, rfl, hne, hX, hr, htask⟩)
    refine Safe.call (Safe.child hP₄ ⟨ht, excused⟩ (jobCreate_adds _) created) ?_
    rintro r t ⟨ht, -⟩
    -- however the child ended, the notice is looked at
    have look : ∀ (e : NoticeError), S.Safe p (do
        if ← notificationMatches (.named (plannerNotificationId S.hexdigest task job)) task job
          (plannerNotificationSpec task job role)
        then pure (.ok (some (plannerNotificationId S.hexdigest task job)))
        else pure (.error e) : Script (Except NoticeError (Option String)))
        (fun r t => P t ∧ (∀ o, r = .ok o → NoticedNow S job t) ∧
          (∀ e, r = .error e → Excused S p job t)) t := by
      intro e
      refine Safe.call (notificationMatches_safe hP₄.stable ht False False.elim) ?_
      rintro r t ⟨ht, -, htrue⟩
      cases r with
      | true => exact ⟨ht.1.1, fun _ _ => noticed t ht.1.2 (htrue rfl), by rintro e ⟨⟩⟩
      | false => exact ⟨ht.1.1, by rintro o ⟨⟩, fun _ _ => ht.2⟩
    cases r with
    | timedOut => exact ⟨ht.1.1, by rintro o ⟨⟩, fun _ _ => ht.2⟩
    | killed => exact look _
    | exited code message => exact look _

theorem notificationMatches_adds (n : Entry) (task job spec : String) :
    Adds (notificationMatches n task job spec) := by
  refine .get fun _ => ?_
  split
  · trivial
  refine .get fun _ => ?_
  split
  · trivial
  exact .get fun _ => .get fun _ => .get fun _ => .get fun _ => .get fun _ => .get fun _ =>
    .get fun _ => trivial

theorem ensurePlannerNotification_adds (hexdigest : String → String) (job : String) :
    Adds (ensurePlannerNotification hexdigest job) := by
  unfold ensurePlannerNotification
  split
  · trivial
  refine .get fun _ => ?_
  split
  · trivial
  refine .get fun _ => .get fun _ => .get fun _ => ?_
  split
  · trivial
  split
  · trivial
  split
  · trivial
  refine .get fun _ => ?_
  split
  · refine .bind (notificationMatches_adds ..) fun b => ?_
    cases b <;> trivial
  · refine .bind (.child (jobCreate_adds _)) fun r => ?_
    cases r with
    | timedOut => trivial
    | killed | exited =>
      refine .bind (notificationMatches_adds ..) fun b => ?_
      cases b <;> trivial

theorem jobNotifyPlanner_adds (hexdigest : String → String) (job : String) :
    Adds (jobNotifyPlanner hexdigest job) := by
  refine .bind (ensurePlannerNotification_adds hexdigest job) fun r => ?_
  cases r with
  | ok o => trivial
  | error e => exact ⟨trivial, fun _ => Nat.one_ne_zero⟩

/-- `job-notify-planner` succeeds only when the notice is there. -/
theorem jobNotifyPlanner_safe (hP : Carried S p P) (hs : P s) {job : String}
    (notifies : (S.cmd p).notifies = some job)
    (valid : (S.cmd p).settles = some job → validName job = true) (settling : Settling S p job P) :
    S.Safe p (jobNotifyPlanner S.hexdigest job) (fun _ t => P t ∧ NoticedNow S job t) s := by
  refine Safe.call (ensurePlannerNotification_safe hP hs notifies valid settling) ?_
  rintro r t ⟨ht, hok, herr⟩
  cases r with
  | ok o => exact ⟨ht, hok o rfl⟩
  | error e =>
    have hP' := hP.and (lasting_excused (S := S) (p := p) job).carried
    exact Safe.say hP'.stable ⟨ht, herr e rfl⟩ (fun t ht _ => ht.2) fun _ _ => trivial

end

end Cyclo.AgentWs
