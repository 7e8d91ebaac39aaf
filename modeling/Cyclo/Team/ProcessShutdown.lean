import Cyclo.Team.ProcessSupervisor

/-! That a supervisor has one process at a time, and which stops leave none. -/
namespace Cyclo.Team.ProcessSupervisor
open Process

variable {s t : State}

/-- What a step does. -/
inductive Steps (s : State) : Action → State → Prop
  | exit (p : ℕ) (h : p < s.count) :
    Steps s (.exit p) { s with exited := Function.update s.exited p true }
  | start (h : s.main = .starting) :
    Steps s (.main .returns) { s with count := s.count + 1, main := .storing s.count }
  | unstarted (ending : Ending) (h : s.main = .starting) :
    Steps s (.main ending) { s with main := .raised }
  | store (ending : Ending) (p : ℕ) (h : s.main = .storing p) :
    Steps s (.main ending) { s with proc := some p, main := .launching }
  | launch (ending : Ending) (h : s.main = .launching) :
    Steps s (.main ending) { s with watcher := .waiting, main := .running }
  | signal (ending : Ending) (h : s.main = .running) :
    Steps s (.main ending) { s with stopEvent := true, main := .reading }
  | read (ending : Ending) (h : s.main = .reading) :
    Steps s (.main ending) { s with main := .clearing s.proc }
  | clear (ending : Ending) (proc : Option ℕ) (h : s.main = .clearing proc) :
    Steps s (.main ending) { s with proc := none, main := .stopping proc }
  | stopNone (ending : Ending) (h : s.main = .stopping none) :
    Steps s (.main ending) { s with main := .joining }
  | stop (ending : Ending) (p : ℕ) (main : Main) (h : s.main = .stopping (some p))
    (hmain : main = .joining ∨ main = .raised) :
    Steps s (.main ending) { s.stopTeam p ending with main := main }
  | join (ending : Ending) (h : s.main = .joining) :
    Steps s (.main ending) { s with main := .returned }
  | wait (ending : Ending) (watcher : Watcher) (h : s.watcher = .waiting)
    (hw : watcher = .ended ∨ watcher = .reading) :
    Steps s (.watch ending) { s with watcher := watcher }
  | current (ending : Ending) (watcher : Watcher) (h : s.watcher = .reading)
    (hw : watcher = .waiting ∨ ∃ p, s.proc = some p ∧ watcher = .polling p) :
    Steps s (.watch ending) { s with watcher := watcher }
  | poll (ending : Ending) (p : ℕ) (watcher : Watcher) (h : s.watcher = .polling p)
    (hw : watcher = .waiting ∨ s.exited p = true ∧ watcher = .clearing p) :
    Steps s (.watch ending) { s with watcher := watcher }
  | forget (ending : Ending) (p : ℕ) (h : s.watcher = .clearing p) :
    Steps s (.watch ending) { s with proc := none, watcher := .cleared p }
  | check (ending : Ending) (p : ℕ) (watcher : Watcher) (h : s.watcher = .cleared p)
    (hw : watcher = .ended ∨ watcher = .cleaning p) :
    Steps s (.watch ending) { s with watcher := watcher }
  | clean (ending : Ending) (p : ℕ) (watcher : Watcher) (h : s.watcher = .cleaning p)
    (hw : watcher = .restarting ∨ watcher = .ended) :
    Steps s (.watch ending) { s.stopTeam p ending with watcher := watcher }
  | restart (ending : Ending) (watcher : Watcher) (h : s.watcher = .restarting)
    (hw : watcher = .waiting ∨ watcher = .starting) :
    Steps s (.watch ending) { s with watcher := watcher }
  | started (h : s.watcher = .starting) :
    Steps s (.watch .returns) { s with count := s.count + 1, watcher := .started s.count }
  | failed (ending : Ending) (watcher : Watcher) (h : s.watcher = .starting)
    (hw : watcher = .pausing ∨ watcher = .ended) :
    Steps s (.watch ending) { s with watcher := watcher }
  | pause (ending : Ending) (h : s.watcher = .pausing) :
    Steps s (.watch ending) { s with watcher := .restarting }
  | late (ending : Ending) (p : ℕ) (h : s.watcher = .started p) :
    Steps s (.watch ending) { s with watcher := .discarding p }
  | timely (ending : Ending) (p : ℕ) (h : s.watcher = .started p) (hevent : s.stopEvent = false) :
    Steps s (.watch ending) { s with watcher := .storing p }
  | discard (ending : Ending) (p : ℕ) (watcher : Watcher) (h : s.watcher = .discarding p)
    (hw : watcher = .waiting ∨ watcher = .ended) :
    Steps s (.watch ending) { s.stopTeam p ending with watcher := watcher }
  | keep (ending : Ending) (p : ℕ) (h : s.watcher = .storing p) :
    Steps s (.watch ending) { s with proc := some p, watcher := .waiting }

theorem steps_of_mainStep {ending : Ending} (h : mainStep s ending = some t) :
    Steps s (.main ending) t := by
  unfold mainStep at h
  split at h
  case h_1 hm =>
    split_ifs at h with he <;> cases h
    · subst he
      exact .start hm
    · exact .unstarted ending hm
  case h_2 p hm =>
    cases h
    exact .store ending p hm
  case h_3 hm =>
    cases h
    exact .launch ending hm
  case h_4 hm =>
    cases h
    exact .signal ending hm
  case h_5 hm =>
    cases h
    exact .read ending hm
  case h_6 proc hm =>
    cases h
    exact .clear ending proc hm
  case h_7 hm =>
    cases h
    exact .stopNone ending hm
  case h_8 p hm =>
    cases h
    refine .stop ending p _ hm ?_
    split_ifs
    · exact .inl rfl
    · exact .inr rfl
  case h_9 hm =>
    cases h
    exact .join ending hm
  case h_10 => cases h
  case h_11 => cases h

theorem steps_of_watchStep {ending : Ending} (h : watchStep s ending = some t) :
    Steps s (.watch ending) t := by
  unfold watchStep at h
  split at h
  case h_1 => cases h
  case h_2 hw =>
    cases h
    refine .wait ending _ hw ?_
    split_ifs
    · exact .inl rfl
    · exact .inr rfl
  case h_3 hw =>
    split at h <;> cases h
    · exact .current ending _ hw (.inl rfl)
    · rename_i p hp
      exact .current ending _ hw (.inr ⟨p, hp, rfl⟩)
  case h_4 p hw =>
    cases h
    refine .poll ending p _ hw ?_
    split_ifs with he
    · exact .inr ⟨he, rfl⟩
    · exact .inl rfl
  case h_5 p hw =>
    cases h
    exact .forget ending p hw
  case h_6 p hw =>
    cases h
    refine .check ending p _ hw ?_
    split_ifs
    · exact .inl rfl
    · exact .inr rfl
  case h_7 p hw =>
    cases h
    refine .clean ending p _ hw ?_
    split_ifs
    · exact .inl rfl
    · exact .inr rfl
  case h_8 hw =>
    cases h
    refine .restart ending _ hw ?_
    split_ifs
    · exact .inl rfl
    · exact .inr rfl
  case h_9 hw =>
    cases ending with
    | returns =>
      cases h
      exact .started hw
    | fails =>
      cases h
      exact .failed .fails _ hw (.inl rfl)
    | raises =>
      cases h
      exact .failed .raises _ hw (.inr rfl)
  case h_10 hw =>
    cases h
    exact .pause ending hw
  case h_11 p hw =>
    cases h
    by_cases he : s.stopEvent = true
    · rw [if_pos he]
      exact .late ending p hw
    · rw [if_neg he]
      exact .timely ending p hw (Bool.not_eq_true _ ▸ he)
  case h_12 p hw =>
    cases h
    refine .discard ending p _ hw ?_
    split_ifs
    · exact .inl rfl
    · exact .inr rfl
  case h_13 p hw =>
    cases h
    exact .keep ending p hw
  case h_14 => cases h

theorem steps_of_step {a : Action} (h : step s a = some t) : Steps s a t := by
  cases a with
  | exit p =>
    obtain ⟨hp, h⟩ := Option.ite_none_right_eq_some.mp h
    cases h
    exact .exit p hp
  | main ending => exact steps_of_mainStep h
  | watch ending => exact steps_of_watchStep h

/-- The process is gone: it has exited, or has been passed to `stop_team`. -/
def State.Gone (s : State) (proc : ℕ) : Prop := s.exited proc = true ∨ s.passed proc = true

/-- The process that the watcher holds. -/
def Watcher.proc? : Watcher → Option ℕ
  | .polling proc => some proc
  | .clearing proc => some proc
  | .cleared proc => some proc
  | .cleaning proc => some proc
  | .started proc => some proc
  | .discarding proc => some proc
  | .storing proc => some proc
  | _ => none

/-- The watcher has seen the last process exit, and has started no other. -/
def Watcher.isBetween : Watcher → Bool
  | .clearing _ => true
  | .cleared _ => true
  | .cleaning _ => true
  | .restarting => true
  | .starting => true
  | .pausing => true
  | _ => false

/-- The watcher has taken the last process out of the supervisor, and has stored no other. -/
def Watcher.hasCleared : Watcher → Bool
  | .cleared _ => true
  | .cleaning _ => true
  | .restarting => true
  | .starting => true
  | .pausing => true
  | .started _ => true
  | .discarding _ => true
  | .storing _ => true
  | _ => false

/-- `start` is under way. -/
def Main.isStarting : Main → Bool
  | .starting => true
  | .storing _ => true
  | .launching => true
  | _ => false

/-- Only the newest process is about, and it is gone where the watcher starts another. -/
structure Single (s : State) : Prop where
  unstarted : s.main.isStarting = true → s.watcher = .unstarted
  first : s.main = .starting → s.count = 0
  storing : ∀ p, s.main = .storing p → p + 1 = s.count
  proc : ∀ p, s.proc = some p → p + 1 = s.count
  held : ∀ p, s.watcher.proc? = some p → p + 1 = s.count
  cleared : s.watcher.hasCleared = true → s.proc = none
  old : ∀ p, p + 1 < s.count → s.Gone p
  between : s.watcher.isBetween = true → ∀ p < s.count, s.Gone p

theorem single_initial : Single .initial where
  unstarted _ := rfl
  first _ := rfl
  storing := nofun
  proc := nofun
  held := nofun
  cleared _ := rfl
  old := nofun
  between := nofun

/-- Gone processes may become more. -/
theorem Single.of_gone (h : Single s) {exited passed : ℕ → Bool}
    (hgone : ∀ p, s.Gone p → exited p = true ∨ passed p = true) :
    Single { s with exited := exited, passed := passed } := by
  refine { h with old := ?_, between := ?_ }
  · intro p hp
    exact hgone p (h.old p hp)
  · intro hbetween p hp
    exact hgone p (h.between hbetween p hp)

theorem update_true {f : ℕ → Bool} {p q : ℕ} (h : f q = true) :
    Function.update f p true q = true := by
  by_cases hq : q = p
  · rw [hq, Function.update_self]
  · rw [Function.update_of_ne hq]
    exact h

theorem gone_stopTeam (s : State) (p : ℕ) (ending : Ending) : (s.stopTeam p ending).Gone p := by
  right
  exact Function.update_self p true s.passed

theorem State.Gone.stopTeam {q : ℕ} (h : s.Gone q) (p : ℕ) (ending : Ending) :
    (s.stopTeam p ending).Gone q := by
  rcases h with h | h
  · left
    unfold State.stopTeam
    dsimp only
    split_ifs
    · exact update_true h
    · exact h
  · right
    exact update_true h

theorem Single.stopTeam (h : Single s) (p : ℕ) (ending : Ending) :
    Single (s.stopTeam p ending) := by
  apply h.of_gone
  intro q hq
  exact hq.stopTeam p ending

theorem Single.exit (h : Single s) (p : ℕ) :
    Single { s with exited := Function.update s.exited p true } := by
  apply h.of_gone
  intro q hq
  rcases hq with hq | hq
  · exact .inl (update_true hq)
  · exact .inr hq

theorem Single.forget (h : Single s) : Single { s with proc := none } :=
  { h with proc := nofun, cleared := fun _ => rfl }

theorem Single.move (h : Single s) {main : Main} (hmain : main.isStarting = false) :
    Single { s with main := main } := by
  refine { h with unstarted := ?_, first := ?_, storing := ?_ }
  · intro hs
    rw [show main.isStarting = true from hs] at hmain
    cases hmain
  · rintro rfl
    cases hmain
  · rintro p rfl
    cases hmain

/-- All processes are gone once the one that the watcher holds is. -/
theorem Single.all_gone (h : Single s) {p : ℕ} (hp : s.watcher.proc? = some p) (hgone : s.Gone p) :
    ∀ q < s.count, s.Gone q := by
  intro q hq
  have hlast := h.held p hp
  by_cases he : q = p
  · rw [he]
    exact hgone
  · exact h.old q (by omega)

theorem Single.watch (h : Single s) {watcher : Watcher} (hs : s.watcher ≠ .unstarted)
    (hheld : ∀ p, watcher.proc? = some p → s.watcher.proc? = some p ∨ s.proc = some p)
    (hcleared : watcher.hasCleared = true → s.watcher.hasCleared = true ∨ s.proc = none)
    (hbetween : watcher.isBetween = true →
      s.watcher.isBetween = true ∨ ∃ p, s.watcher.proc? = some p ∧ s.Gone p) :
    Single { s with watcher := watcher } := by
  refine { h with unstarted := ?_, held := ?_, cleared := ?_, between := ?_ }
  · intro hmain
    exact absurd (h.unstarted hmain) hs
  · intro p hp
    rcases hheld p hp with hp | hp
    · exact h.held p hp
    · exact h.proc p hp
  · intro hw
    rcases hcleared hw with hw | hw
    · exact h.cleared hw
    · exact hw
  · intro hw
    rcases hbetween hw with hw | ⟨p, hp, hgone⟩
    · exact h.between hw
    · exact h.all_gone hp hgone

/-- The watcher waits for the next check, or has ended. -/
theorem Single.rest (h : Single s) {watcher : Watcher} (hs : s.watcher ≠ .unstarted)
    (hw : watcher = .waiting ∨ watcher = .ended) : Single { s with watcher := watcher } := by
  rcases hw with rfl | rfl <;> exact h.watch hs nofun nofun nofun

theorem Single.step {a : Action} (h : Single s) (hs : Steps s a t) : Single t := by
  cases hs with
  | exit p _ => exact h.exit p
  | start hm =>
    have hw := h.unstarted (by rw [hm]; rfl)
    have hzero := h.first hm
    have hnone : s.proc = none := by
      by_contra hp
      obtain ⟨p, hp⟩ := Option.ne_none_iff_exists'.mp hp
      have := h.proc p hp
      omega
    constructor
    case unstarted => exact fun _ => hw
    case first => nofun
    case storing =>
      intro p hp
      cases hp
      rfl
    case proc =>
      intro p hp
      rw [show s.proc = some p from hp] at hnone
      cases hnone
    case held =>
      intro p hp
      rw [show s.watcher = .unstarted from hw] at hp
      cases hp
    case cleared => exact fun _ => hnone
    case old =>
      intro p hp
      dsimp only at hp
      omega
    case between =>
      intro hb
      rw [show s.watcher = .unstarted from hw] at hb
      cases hb
  | unstarted ending _ => exact h.move rfl
  | store ending p hm =>
    have hw := h.unstarted (by rw [hm]; rfl)
    have hp := h.storing p hm
    refine { h with unstarted := ?_, first := nofun, storing := nofun, proc := ?_, cleared := ?_ }
    · exact fun _ => hw
    · intro q hq
      cases hq
      exact hp
    · intro hc
      rw [show s.watcher = .unstarted from hw] at hc
      cases hc
  | launch ending hm =>
    have hmove : Single { s with main := .running } := h.move rfl
    refine { hmove with
      unstarted := nofun, held := nofun, cleared := nofun, between := nofun }
  | signal ending _ =>
    have hmove : Single { s with main := .reading } := h.move rfl
    exact { hmove with }
  | read ending _ => exact h.move rfl
  | clear ending proc _ => exact h.forget.move rfl
  | stopNone ending _ => exact h.move rfl
  | stop ending p main _ hmain =>
    apply (h.stopTeam p ending).move
    rcases hmain with rfl | rfl <;> rfl
  | join ending _ => exact h.move rfl
  | wait ending watcher hw hnext =>
    rcases hnext with rfl | rfl
    · exact h.rest (by rw [hw]; nofun) (.inr rfl)
    · exact h.watch (by rw [hw]; nofun) nofun nofun nofun
  | current ending watcher hw hnext =>
    rcases hnext with rfl | ⟨p, hp, rfl⟩
    · exact h.rest (by rw [hw]; nofun) (.inl rfl)
    · refine h.watch (by rw [hw]; nofun) ?_ nofun nofun
      intro q hq
      cases hq
      exact .inr hp
  | poll ending p watcher hw hnext =>
    rcases hnext with rfl | ⟨hexited, rfl⟩
    · exact h.rest (by rw [hw]; nofun) (.inl rfl)
    · refine h.watch (by rw [hw]; nofun) ?_ nofun ?_
      · intro q hq
        rw [hw]
        exact .inl hq
      · intro _
        rw [hw]
        exact .inr ⟨p, rfl, .inl hexited⟩
  | forget ending p hw =>
    refine h.forget.watch ?_ ?_ ?_ ?_
    all_goals dsimp only
    all_goals rw [hw]
    · nofun
    · exact fun _ => .inl
    · exact fun _ => .inr rfl
    · exact fun _ => .inl rfl
  | check ending p watcher hw hnext =>
    rcases hnext with rfl | rfl
    · exact h.rest (by rw [hw]; nofun) (.inr rfl)
    · refine h.watch ?_ ?_ ?_ ?_ <;> rw [hw]
      · nofun
      · exact fun _ => .inl
      · exact fun _ => .inl rfl
      · exact fun _ => .inl rfl
  | clean ending p watcher hw hnext =>
    have hstop := h.stopTeam p ending
    have hne : (s.stopTeam p ending).watcher = .cleaning p := hw
    rcases hnext with rfl | rfl
    · refine hstop.watch ?_ nofun ?_ ?_ <;> rw [hne]
      · nofun
      · exact fun _ => .inl rfl
      · exact fun _ => .inl rfl
    · exact hstop.rest (by rw [hne]; nofun) (.inr rfl)
  | restart ending watcher hw hnext =>
    rcases hnext with rfl | rfl
    · exact h.rest (by rw [hw]; nofun) (.inl rfl)
    · refine h.watch ?_ nofun ?_ ?_ <;> rw [hw]
      · nofun
      · exact fun _ => .inl rfl
      · exact fun _ => .inl rfl
  | started hw =>
    have hnone := h.cleared (by rw [hw]; rfl)
    have hall := h.between (by rw [hw]; rfl)
    constructor
    case unstarted =>
      intro hm
      have := h.unstarted hm
      rw [hw] at this
      cases this
    case first =>
      intro hm
      have hmain : s.main = .starting := hm
      have := h.unstarted (by rw [hmain]; rfl)
      rw [hw] at this
      cases this
    case storing =>
      intro p hm
      have hmain : s.main = .storing p := hm
      have := h.unstarted (by rw [hmain]; rfl)
      rw [hw] at this
      cases this
    case proc =>
      intro p hp
      rw [show s.proc = some p from hp] at hnone
      cases hnone
    case held =>
      intro p hp
      cases hp
      rfl
    case cleared => exact fun _ => hnone
    case old =>
      intro p hp
      exact hall p (Nat.lt_of_succ_lt_succ hp)
    case between => nofun
  | failed ending watcher hw hnext =>
    rcases hnext with rfl | rfl
    · refine h.watch ?_ nofun ?_ ?_ <;> rw [hw]
      · nofun
      · exact fun _ => .inl rfl
      · exact fun _ => .inl rfl
    · exact h.rest (by rw [hw]; nofun) (.inr rfl)
  | pause ending hw =>
    refine h.watch ?_ nofun ?_ ?_ <;> rw [hw]
    · nofun
    · exact fun _ => .inl rfl
    · exact fun _ => .inl rfl
  | late ending p hw =>
    refine h.watch ?_ ?_ ?_ nofun <;> rw [hw]
    · nofun
    · exact fun _ => .inl
    · exact fun _ => .inl rfl
  | timely ending p hw _ =>
    refine h.watch ?_ ?_ ?_ nofun <;> rw [hw]
    · nofun
    · exact fun _ => .inl
    · exact fun _ => .inl rfl
  | discard ending p watcher hw hnext =>
    have hne : (s.stopTeam p ending).watcher = .discarding p := hw
    exact (h.stopTeam p ending).rest (by rw [hne]; nofun) hnext
  | keep ending p hw =>
    have hp := h.held p (by rw [hw]; rfl)
    have hrest : Single { s with watcher := .waiting } := h.rest (by rw [hw]; nofun) (.inl rfl)
    refine { hrest with proc := ?_, cleared := nofun }
    intro q hq
    cases hq
    exact hp

/-- At most one process is alive that has not been passed to `stop_team`. -/
theorem Single.unique (h : Single s) {p q : ℕ} (hp : p < s.count) (hq : q < s.count)
    (hpgone : ¬ s.Gone p) (hqgone : ¬ s.Gone q) : p = q := by
  have hplast : ¬ p + 1 < s.count := fun hlt => hpgone (h.old p hlt)
  have hqlast : ¬ q + 1 < s.count := fun hlt => hqgone (h.old q hlt)
  omega

/-- `stop` has not been called yet. -/
def Main.isBeforeStop : Main → Bool
  | .starting => true
  | .storing _ => true
  | .launching => true
  | .running => true
  | _ => false

/-- `stop` has not read the current process yet. -/
def Main.isBeforeRead : Main → Bool
  | .starting => true
  | .storing _ => true
  | .launching => true
  | .running => true
  | .reading => true
  | _ => false

/-- The process is one that the thread of `start` and `stop` will store or stop, if it is the
current one. -/
def Main.Keeps (proc : Option ℕ) (p : ℕ) : Main → Prop
  | .storing q => q = p
  | .launching => proc = some p
  | .running => proc = some p
  | .reading => proc = some p
  | .clearing q => q = some p
  | .stopping q => q = some p
  | _ => False

/-- The process is one that the watcher will stop, or will store in time. -/
def Watcher.Keeps (beforeRead : Bool) (p : ℕ) : Watcher → Prop
  | .started q => q = p
  | .discarding q => q = p
  | .storing q => q = p ∧ beforeRead = true
  | _ => False

def State.Kept (s : State) (p : ℕ) : Prop :=
  s.Gone p ∨ s.main.Keeps s.proc p ∨ s.watcher.Keeps s.main.isBeforeRead p

structure Keeping (s : State) : Prop where
  event : s.stopEvent = false → s.main.isBeforeStop = true ∨ s.watcher = .unstarted
  kept : ∀ p < s.count, s.Kept p

theorem keeping_initial : Keeping .initial where
  event _ := .inl rfl
  kept := nofun

theorem Keeping.of_gone (h : Keeping s) {exited passed : ℕ → Bool}
    (hgone : ∀ p, s.Gone p → exited p = true ∨ passed p = true) :
    Keeping { s with exited := exited, passed := passed } := by
  refine { h with kept := ?_ }
  intro p hp
  rcases h.kept p hp with hp | hp
  · exact .inl (hgone p hp)
  · exact .inr hp

theorem Keeping.stopTeam (h : Keeping s) (p : ℕ) (ending : Ending) :
    Keeping (s.stopTeam p ending) := by
  apply h.of_gone
  intro q hq
  exact hq.stopTeam p ending

theorem Keeping.watch (h : Keeping s) (hs : s.watcher ≠ .unstarted) {watcher : Watcher}
    (hkeeps : ∀ p < s.count, s.watcher.Keeps s.main.isBeforeRead p →
      s.Gone p ∨ watcher.Keeps s.main.isBeforeRead p) : Keeping { s with watcher := watcher } := by
  constructor
  · intro hevent
    exact .inl ((h.event hevent).resolve_right hs)
  · intro p hp
    rcases h.kept p hp with hkept | hkept | hkept
    · exact .inl hkept
    · exact .inr (.inl hkept)
    · rcases hkeeps p hp hkept with hkept | hkept
      · exact .inl hkept
      · exact .inr (.inr hkept)

/-- A step of the watcher that holds no new process. -/
theorem Keeping.idle (h : Keeping s) {w watcher : Watcher} (hw : s.watcher = w)
    (hne : w ≠ .unstarted) (hidle : ∀ p, ¬ w.Keeps s.main.isBeforeRead p) :
    Keeping { s with watcher := watcher } := by
  apply h.watch
  · rw [hw]
    exact hne
  · intro p _ hp
    rw [hw] at hp
    exact absurd hp (hidle p)

/-- A step of the thread of `start` and `stop`. -/
theorem Keeping.move (h : Keeping s) {main : Main}
    (hevent : s.stopEvent = true ∨ s.watcher = .unstarted)
    (hmain : ∀ p < s.count, s.main.Keeps s.proc p → s.Gone p ∨ main.Keeps s.proc p)
    (hwatcher : ∀ p, s.watcher.Keeps s.main.isBeforeRead p →
      s.watcher.Keeps main.isBeforeRead p) : Keeping { s with main := main } := by
  constructor
  · intro he
    rw [show s.stopEvent = false from he] at hevent
    exact .inr (hevent.resolve_left nofun)
  · intro p hp
    rcases h.kept p hp with hkept | hkept | hkept
    · exact .inl hkept
    · rcases hmain p hp hkept with hkept | hkept
      · exact .inl hkept
      · exact .inr (.inl hkept)
    · exact .inr (.inr (hwatcher p hkept))

/-- Once the watcher has started, `stop` goes on only with the event set. -/
theorem Keeping.stopEvent (h : Keeping s) {main : Main} (hm : s.main = main)
    (hstop : main.isBeforeStop = false) : s.stopEvent = true ∨ s.watcher = .unstarted := by
  by_cases he : s.stopEvent = true
  · exact .inl he
  · right
    have hevent := h.event (by rw [Bool.not_eq_true] at he; exact he)
    rw [hm, hstop] at hevent
    exact hevent.resolve_left nofun

theorem isBeforeRead_of_isBeforeStop {main : Main} (h : main.isBeforeStop = true) :
    main.isBeforeRead = true := by
  cases main <;> first | rfl | cases h

theorem Keeping.step {a : Action} (hsingle : Single s) (h : Keeping s) (hsettled : Settled s a)
    (hs : Steps s a t) : Keeping t := by
  cases hs with
  | exit p _ =>
    apply h.of_gone
    intro q hq
    rcases hq with hq | hq
    · exact .inl (update_true hq)
    · exact .inr hq
  | start hm =>
    have hzero := hsingle.first hm
    constructor
    · exact fun _ => .inl rfl
    · intro p hp
      have he : s.count = p := by
        dsimp only at hp
        omega
      exact .inr (.inl he)
  | unstarted ending hm =>
    have hzero := hsingle.first hm
    have hw := hsingle.unstarted (by rw [hm]; rfl)
    constructor
    · exact fun _ => .inr hw
    · intro p hp
      dsimp only at hp
      omega
  | store ending p hm =>
    have hw := hsingle.unstarted (by rw [hm]; rfl)
    constructor
    · exact fun _ => .inl rfl
    · intro q hq
      rcases h.kept q hq with hkept | hkept | hkept
      · exact .inl hkept
      · rw [hm] at hkept
        have he : p = q := hkept
        exact .inr (.inl (congrArg some he))
      · rw [hw] at hkept
        cases hkept
  | launch ending hm =>
    have hw := hsingle.unstarted (by rw [hm]; rfl)
    constructor
    · exact fun _ => .inl rfl
    · intro q hq
      rcases h.kept q hq with hkept | hkept | hkept
      · exact .inl hkept
      · rw [hm] at hkept
        exact .inr (.inl hkept)
      · rw [hw] at hkept
        cases hkept
  | signal ending hm =>
    constructor
    · nofun
    · intro q hq
      have hkept := h.kept q hq
      unfold State.Kept at hkept
      rw [hm] at hkept
      exact hkept
  | read ending hm =>
    apply h.move (h.stopEvent hm rfl)
    · intro p _ hp
      rw [hm] at hp
      exact .inr hp
    · intro p hp
      -- the watcher is not about to store its process
      have hstoring := hsettled hm
      cases hw : s.watcher <;> rw [hw] at hp hstoring <;> first | exact hp | cases hstoring
  | clear ending proc hm =>
    have hmove : Keeping { s with main := .stopping proc } := h.move (h.stopEvent hm rfl) ?_ ?_
    · refine { hmove with }
    · intro p _ hp
      rw [hm] at hp
      exact .inr hp
    · intro p hp
      rw [hm] at hp
      exact hp
  | stopNone ending hm =>
    apply h.move (h.stopEvent hm rfl)
    · intro p _ hp
      rw [hm] at hp
      cases hp
    · intro p hp
      rw [hm] at hp
      exact hp
  | stop ending p main hm hmain =>
    have hmain' : (s.stopTeam p ending).main = .stopping (some p) := hm
    apply (h.stopTeam p ending).move ((h.stopTeam p ending).stopEvent hmain' rfl)
    · intro q _ hq
      rw [hmain'] at hq
      have he : p = q := Option.some.inj hq
      rw [← he]
      exact .inl (gone_stopTeam s p ending)
    · intro q hq
      rw [hmain'] at hq
      rcases hmain with rfl | rfl <;> exact hq
  | join ending hm =>
    apply h.move (h.stopEvent hm rfl)
    · intro p _ hp
      rw [hm] at hp
      cases hp
    · intro p hp
      rw [hm] at hp
      exact hp
  | wait ending watcher hw _ => exact h.idle hw nofun nofun
  | current ending watcher hw _ => exact h.idle hw nofun nofun
  | poll ending p watcher hw _ => exact h.idle hw nofun nofun
  | forget ending p hw =>
    have hall := hsingle.between (by rw [hw]; rfl)
    constructor
    · intro he
      have hevent := h.event he
      rw [hw] at hevent
      exact .inl (hevent.resolve_right nofun)
    · intro q hq
      exact .inl (hall q hq)
  | check ending p watcher hw _ => exact h.idle hw nofun nofun
  | clean ending p watcher hw _ => exact (h.stopTeam p ending).idle hw nofun nofun
  | restart ending watcher hw _ => exact h.idle hw nofun nofun
  | started hw =>
    have hall := hsingle.between (by rw [hw]; rfl)
    constructor
    · intro he
      have hevent := h.event he
      rw [hw] at hevent
      exact .inl (hevent.resolve_right nofun)
    · intro q hq
      by_cases he : q = s.count
      · exact .inr (.inr he.symm)
      · have hlt : q < s.count + 1 := hq
        exact .inl (hall q (by omega))
  | failed ending watcher hw _ => exact h.idle hw nofun nofun
  | pause ending hw => exact h.idle hw nofun nofun
  | late ending p hw =>
    apply h.watch
    · rw [hw]
      nofun
    · intro q _ hq
      rw [hw] at hq
      exact .inr hq
  | timely ending p hw he =>
    have hevent := h.event he
    rw [hw] at hevent
    have hread := isBeforeRead_of_isBeforeStop (hevent.resolve_right nofun)
    apply h.watch
    · rw [hw]
      nofun
    · intro q _ hq
      rw [hw] at hq
      exact .inr ⟨hq, hread⟩
  | discard ending p watcher hw _ =>
    have hw' : (s.stopTeam p ending).watcher = .discarding p := hw
    apply (h.stopTeam p ending).watch
    · rw [hw']
      nofun
    · intro q _ hq
      rw [hw'] at hq
      have he : p = q := hq
      rw [← he]
      exact .inl (gone_stopTeam s p ending)
  | keep ending p hw =>
    have hnone := hsingle.cleared (by rw [hw]; rfl)
    have hstarted : s.main.isStarting ≠ true := by
      intro hm
      have := hsingle.unstarted hm
      rw [hw] at this
      cases this
    constructor
    · intro he
      have hevent := h.event he
      rw [hw] at hevent
      exact .inl (hevent.resolve_right nofun)
    · intro q hq
      rcases h.kept q hq with hkept | hkept | hkept
      · exact .inl hkept
      · right
        left
        cases hm : s.main <;> rw [hm] at hkept <;> first | exact hkept | skip
        all_goals
          rw [show s.proc = some q from hkept] at hnone
          cases hnone
      · rw [hw] at hkept
        obtain ⟨rfl, hread⟩ := hkept
        right
        left
        cases hm : s.main <;> rw [hm] at hread hstarted <;>
          first | exact absurd rfl hstarted | exact rfl | cases hread

theorem single_run {actions : List Action} (hrun : run step State.initial actions = some s) :
    Single s :=
  run_invariant (fun _ _ _ h hstep => h.step (steps_of_step hstep)) single_initial hrun

theorem keeping_run {actions : List Action} (hrun : run step State.initial actions = some s)
    (hsettled : Throughout step Settled State.initial actions) : Keeping s := by
  have hinv : Single s ∧ Keeping s := by
    refine @run_history_invariant _ _ step Settled (fun _ s => Single s ∧ Keeping s) ?_ [] actions
      State.initial s ⟨single_initial, keeping_initial⟩ hsettled hrun
    intro past s a t h hallowed hstep
    have hs := steps_of_step hstep
    exact ⟨h.1.step hs, h.2.step h.1 hallowed hs⟩
  exact hinv.2

/-- No two processes are alive and not passed to `stop_team`, in any run; and once `stop` has
returned and the watcher has ended there is none, unless `stop` has read the current process just
before the watcher stored it. -/
theorem stopped_of_settled {actions : List Action}
    (hrun : run step State.initial actions = some s) :
    (∀ p < s.count, ∀ q < s.count, ¬ s.Gone p → ¬ s.Gone q → p = q) ∧
    (Throughout step Settled State.initial actions → s.main = .returned → s.watcher = .ended →
      ∀ p < s.count, s.Gone p) := by
  constructor
  · intro p hp q hq
    exact (single_run hrun).unique hp hq
  · intro hsettled hmain hwatcher p hp
    have hkept := (keeping_run hrun hsettled).kept p hp
    unfold State.Kept at hkept
    rw [hmain, hwatcher] at hkept
    rcases hkept with hkept | hkept | hkept
    · exact hkept
    · cases hkept
    · cases hkept

/-- The first process exits and is restarted, after a failed attempt; then the second is stopped. -/
def restarted : List Action :=
  [.main .returns, .main .returns, .main .returns, .exit 0, .watch .returns, .watch .returns,
    .watch .returns, .watch .returns, .watch .returns, .watch .returns, .watch .returns,
    .watch .fails, .watch .returns, .watch .returns, .watch .returns, .watch .returns,
    .watch .returns, .main .returns, .main .returns, .main .returns, .main .returns,
    .watch .returns, .main .returns]

theorem restarted_stops : ∃ s, run step State.initial restarted = some s ∧ s.count = 2 ∧
    s.main = .returned ∧ s.watcher = .ended ∧ ∀ p < s.count, s.Gone p := by
  have hends : (run step State.initial restarted).map (fun s => (s.count, s.main, s.watcher)) =
      some (2, .returned, .ended) := by decide
  obtain ⟨s, hrun, hends⟩ := Option.map_eq_some_iff.mp hends
  obtain ⟨hcount, hends⟩ := Prod.mk.inj hends
  obtain ⟨hmain, hwatcher⟩ := Prod.mk.inj hends
  have hsettled : Throughout step Settled State.initial restarted := by decide
  exact ⟨s, hrun, hcount, hmain, hwatcher,
    (stopped_of_settled hrun).2 hsettled hmain hwatcher⟩

/-- The same, but `stop` comes between the last check of the watcher and its store. -/
def lost : List Action :=
  [.main .returns, .main .returns, .main .returns, .exit 0, .watch .returns, .watch .returns,
    .watch .returns, .watch .returns, .watch .returns, .watch .returns, .watch .returns,
    .watch .returns, .watch .returns, .main .returns, .main .returns, .main .returns,
    .main .returns, .watch .returns, .watch .returns, .main .returns]

theorem lost_survives : ∃ s, run step State.initial lost = some s ∧
    s.main = .returned ∧ s.watcher = .ended ∧ 1 < s.count ∧ ¬ s.Gone 1 := by
  have hends : (run step State.initial lost).map
      (fun s => (s.main, s.watcher, s.count, s.exited 1, s.passed 1)) =
      some (.returned, .ended, 2, false, false) := by decide
  obtain ⟨s, hrun, hends⟩ := Option.map_eq_some_iff.mp hends
  simp only [Prod.mk.injEq] at hends
  obtain ⟨hmain, hwatcher, hcount, hexited, hpassed⟩ := hends
  refine ⟨s, hrun, hmain, hwatcher, by omega, ?_⟩
  unfold State.Gone
  rw [hexited, hpassed]
  decide

end Cyclo.Team.ProcessSupervisor
