import Mathlib.Data.List.Basic

/-! Machines given by a partial step function, and invariants of their runs. -/
namespace Cyclo.Process

variable {σ ι : Type*} (step : σ → ι → Option σ)

/-- The state after a sequence of steps, if each of them is enabled where it is taken. -/
def run (s : σ) (labels : List ι) : Option σ := labels.foldlM step s

@[simp] theorem run_nil (s : σ) : run step s [] = some s := rfl

@[simp] theorem run_cons (s : σ) (l : ι) (ls : List ι) :
    run step s (l :: ls) = (step s l).bind fun t => run step t ls := rfl

theorem run_append (s : σ) (ls ks : List ι) :
    run step s (ls ++ ks) = (run step s ls).bind fun t => run step t ks := by
  simp [run, List.foldlM_append]

variable {step}

/-- What every step preserves holds after every run. -/
theorem run_invariant {I : σ → Prop} (hstep : ∀ s l t, I s → step s l = some t → I t)
    {s t : σ} {ls : List ι} (hs : I s) (h : run step s ls = some t) : I t := by
  induction ls generalizing s with
  | nil =>
    cases h
    exact hs
  | cons l ls ih =>
    obtain ⟨u, hu, h⟩ := Option.bind_eq_some_iff.mp h
    exact ih (hstep s l u hs hu) h

/-- Every step of the run is taken in a state that allows it. -/
def Throughout (step : σ → ι → Option σ) (allowed : σ → ι → Prop) : σ → List ι → Prop
  | _, [] => True
  | s, l :: ls => allowed s l ∧ ∀ t, step s l = some t → Throughout step allowed t ls

theorem throughout_cons_of_none {allowed : σ → ι → Prop} {s : σ} {l : ι} {ls : List ι}
    (h : step s l = none) : allowed s l ↔ Throughout step allowed s (l :: ls) := by
  constructor
  · intro ha
    refine ⟨ha, fun t ht => ?_⟩
    rw [h] at ht
    cases ht
  · exact And.left

theorem throughout_cons_of_some {allowed : σ → ι → Prop} {s t : σ} {l : ι} {ls : List ι}
    (h : step s l = some t) :
    allowed s l ∧ Throughout step allowed t ls ↔ Throughout step allowed s (l :: ls) := by
  constructor
  · intro ha
    refine ⟨ha.1, fun u hu => ?_⟩
    rw [h] at hu
    cases hu
    exact ha.2
  · intro ha
    exact ⟨ha.1, ha.2 t h⟩

instance decidableThroughout {allowed : σ → ι → Prop} [hd : ∀ s l, Decidable (allowed s l)] :
    ∀ s ls, Decidable (Throughout step allowed s ls)
  | _, [] => .isTrue trivial
  | s, l :: ls =>
    match h : step s l with
    | none => @decidable_of_iff _ (allowed s l) (throughout_cons_of_none h) (hd s l)
    | some t =>
      have := @decidableThroughout allowed hd t ls
      decidable_of_iff (allowed s l ∧ Throughout step allowed t ls) (throughout_cons_of_some h)

/-- What every allowed step preserves, knowing the steps before it, holds after every run of such
steps. -/
theorem run_history_invariant {allowed : σ → ι → Prop} {I : List ι → σ → Prop}
    (hstep : ∀ past s l t, I past s → allowed s l → step s l = some t → I (past ++ [l]) t)
    {past ls : List ι} {s t : σ} (hs : I past s) (hall : Throughout step allowed s ls)
    (h : run step s ls = some t) : I (past ++ ls) t := by
  induction ls generalizing past s with
  | nil =>
    cases h
    rw [List.append_nil]
    exact hs
  | cons l ls ih =>
    obtain ⟨u, hu, h⟩ := Option.bind_eq_some_iff.mp h
    have hnext := ih (hstep past s l u hs hall.1 hu) (hall.2 u hu) h
    rw [List.append_assoc, List.singleton_append] at hnext
    exact hnext

/-- What every allowed step preserves holds after every run of allowed steps. -/
theorem run_allowed_invariant {allowed : σ → ι → Prop} {I : σ → Prop}
    (hstep : ∀ s l t, I s → allowed s l → step s l = some t → I t) {s t : σ} {ls : List ι}
    (hs : I s) (hall : Throughout step allowed s ls) (h : run step s ls = some t) : I t := by
  induction ls generalizing s with
  | nil =>
    cases h
    exact hs
  | cons l ls ih =>
    obtain ⟨u, hu, h⟩ := Option.bind_eq_some_iff.mp h
    exact ih (hstep s l u hs hall.1 hu) (hall.2 u hu) h

/-- A run is begun by the runs of its prefixes. -/
theorem throughout_of_append {allowed : σ → ι → Prop} {s : σ} {ls ks : List ι}
    (h : Throughout step allowed s (ls ++ ks)) : Throughout step allowed s ls := by
  induction ls generalizing s with
  | nil => trivial
  | cons l ls ih => exact ⟨h.1, fun t ht => ih (h.2 t ht)⟩

end Cyclo.Process
