import Cyclo.Process.Program

/-! Refinement of interleaved programs by a step relation of guarded actions.

`A p s s'` says what process `p` may do to the shared state. A program refines `A` when
each of its operations is an `A`-step in every state the other processes can bring about,
so the run of any number of refining programs is a run of `A`, and the invariants are
proved of `A` alone. -/
namespace Cyclo.Process

variable {E : Type → Type 1} {σ α β : Type}

/-- What the other processes may do between two operations of `p`. -/
def Others (A : ℕ → σ → σ → Prop) (p : ℕ) : σ → σ → Prop :=
  Relation.ReflTransGen fun s s' => ∃ q, q ≠ p ∧ A q s s'

/-- The states of the step relation reached from an initial one. -/
def Visits (A : ℕ → σ → σ → Prop) (s₀ : σ) : σ → Prop :=
  Relation.ReflTransGen (fun s s' => ∃ p, A p s s') s₀

theorem Others.refl {A : ℕ → σ → σ → Prop} {p : ℕ} (s : σ) : Others A p s s :=
  Relation.ReflTransGen.refl

theorem Others.trans {A : ℕ → σ → σ → Prop} {p : ℕ} {s t u : σ}
    (h : Others A p s t) (h' : Others A p t u) : Others A p s u :=
  Relation.ReflTransGen.trans h h'

theorem Others.step {A : ℕ → σ → σ → Prop} {p q : ℕ} {s t : σ} (hq : q ≠ p) (h : A q s t) :
    Others A p s t :=
  Relation.ReflTransGen.single ⟨q, hq, h⟩

/-- A relation that holds of every single action holds of everything the others do. -/
theorem Others.lift {A : ℕ → σ → σ → Prop} {p : ℕ} {s t : σ} {R : σ → σ → Prop}
    (refl : ∀ s, R s s) (trans : ∀ {s t u}, R s t → R t u → R s u)
    (act : ∀ {q s t}, q ≠ p → A q s t → R s t) (h : Others A p s t) : R s t := by
  induction h with
  | refl => exact refl s
  | tail _ hstep ih =>
    obtain ⟨q, hq, ha⟩ := hstep
    exact trans ih (act hq ha)

/-- The invariant rule of the step relation. -/
theorem Visits.invariant {A : ℕ → σ → σ → Prop} {s₀ s : σ} {I : σ → Prop} (h : Visits A s₀ s)
    (init : I s₀) (act : ∀ {p s t}, Visits A s₀ s → I s → A p s t → I t) : I s := by
  induction h with
  | refl => exact init
  | tail hv hstep ih =>
    obtain ⟨p, ha⟩ := hstep
    exact act hv ih ha

/-- From `s` on, every operation of the program is an action of `p`, whatever the others do in
between; `Q` holds where the program returns. `I` is an invariant the proof may use. -/
def Refines (K : Kernel E σ) (A : ℕ → σ → σ → Prop) (I : σ → Prop) (p : ℕ) :
    Prog E α → (α → σ → Prop) → σ → Prop
  | .ret a, Q, s => Q a s
  | .exit _ _, _, _ => True
  | .op e next, Q, s => ∀ s₁, Others A p s s₁ → I s₁ → ∀ r s₂, K.exec p e s₁ r s₂ →
      A p s₁ s₂ ∧ Refines K A I p (next r) Q s₂

namespace Refines
variable {K : Kernel E σ} {A : ℕ → σ → σ → Prop} {I : σ → Prop} {p : ℕ}

theorem bind {x : Prog E α} {f : α → Prog E β} {Q : β → σ → Prop} {s : σ}
    (h : Refines K A I p x (fun a t => Refines K A I p (f a) Q t) s) :
    Refines K A I p (x >>= f) Q s := by
  induction x generalizing s with
  | ret a => exact h
  | exit c m => trivial
  | op e next ih =>
    intro s₁ ho hi r s₂ hx
    obtain ⟨ha, hn⟩ := h s₁ ho hi r s₂ hx
    exact ⟨ha, ih r hn⟩

theorem weaken {x : Prog E α} {Q Q' : α → σ → Prop} {s : σ} (hq : ∀ a t, Q a t → Q' a t)
    (h : Refines K A I p x Q s) : Refines K A I p x Q' s := by
  induction x generalizing s with
  | ret a => exact hq a s h
  | exit c m => trivial
  | op e next ih =>
    intro s₁ ho hi r s₂ hx
    obtain ⟨ha, hn⟩ := h s₁ ho hi r s₂ hx
    exact ⟨ha, ih r hn⟩

/-- What a process still has to do is not disturbed by the others. -/
theorem stable {x : Prog E α} {Q : α → σ → Prop} {s t : σ}
    (hQ : ∀ a s t, Q a s → Others A p s t → Q a t)
    (h : Refines K A I p x Q s) (ho : Others A p s t) : Refines K A I p x Q t := by
  cases x with
  | ret a => exact hQ a s t h ho
  | exit c m => trivial
  | op e next => exact fun s₁ ho₁ hi => h s₁ (ho.trans ho₁) hi

end Refines

/-- The shared state is one the actions reach, and every process still refines them. -/
structure Conforms (K : Kernel E σ) (A : ℕ → σ → σ → Prop) (I : σ → Prop) (s₀ : σ)
    (c : Config E σ) : Prop where
  visits : Visits A s₀ c.shared
  refines : ∀ p x, c.proc p = some x → Refines K A I p x (fun _ _ => True) c.shared

section
variable {K : Kernel E σ} {A : ℕ → σ → σ → Prop} {I : σ → Prop} {s₀ : σ}
  (hI : ∀ s, Visits A s₀ s → I s) (hquit : ∀ p s, A p s (K.quit p s))
include hI hquit

/-- A step of the interleaved programs is an action of one process. -/
theorem Step.conforms {c d : Config E σ} (h : Conforms K A I s₀ c) (hstep : Step K c d) :
    (∃ p, A p c.shared d.shared) ∧ Conforms K A I s₀ d := by
  -- the others keep their obligations because the step just taken is one they expect
  have keep : ∀ (q : ℕ) (s : σ), A q c.shared s → ∀ p x, p ≠ q → c.proc p = some x →
      Refines K A I p x (fun _ _ => True) s := fun q s ha p x hp hx =>
    (h.refines p x hx).stable (fun _ _ _ _ _ => trivial) (.step (Ne.symm hp) ha)
  cases hstep with
  | @op q _ e next r s hproc hexec =>
    obtain ⟨ha, hn⟩ := h.refines q _ hproc c.shared (.refl _) (hI _ h.visits) r s hexec
    refine ⟨⟨q, ha⟩, h.visits.tail ⟨q, ha⟩, fun p x hx => ?_⟩
    by_cases hp : p = q
    · subst hp
      rw [Config.setProc_same] at hx
      cases hx
      exact hn
    · rw [Config.setProc_other _ hp] at hx
      exact keep q s ha p x hp hx
  | @stop q x hproc =>
    have ha := hquit q c.shared
    refine ⟨⟨q, ha⟩, h.visits.tail ⟨q, ha⟩, fun p y hy => ?_⟩
    by_cases hp : p = q
    · subst hp
      rw [Config.setProc_same] at hy
      cases hy
    · rw [Config.setProc_other _ hp] at hy
      exact keep q _ ha p y hp hy

/-- Interleaved programs that refine the actions run as the actions do. -/
theorem Conforms.run {c d : Config E σ} (h : Conforms K A I s₀ c)
    (hrun : Relation.ReflTransGen (Step K) c d) :
    Visits A c.shared d.shared ∧ Conforms K A I s₀ d := by
  induction hrun with
  | refl => exact ⟨.refl, h⟩
  | tail _ hstep ih =>
    obtain ⟨ha, hd⟩ := Step.conforms hI hquit ih.2 hstep
    exact ⟨ih.1.tail ha, hd⟩

theorem Reachable.conforms {prog : ℕ → Prog E Unit}
    (hprog : ∀ p, Refines K A I p (prog p) (fun _ _ => True) s₀) {c : Config E σ}
    (h : Reachable K prog s₀ c) : Conforms K A I s₀ c := by
  have initial : Conforms K A I s₀ (start prog s₀) := by
    refine ⟨.refl, ?_⟩
    rintro p x ⟨⟩
    exact hprog p
  exact (Conforms.run hI hquit initial h).2

end

end Cyclo.Process
