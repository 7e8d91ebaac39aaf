import Cyclo.Process.Alone

/-! Programs over some of the operations of a larger system. -/
namespace Cyclo.Process

variable {E F : Type → Type 1} {σ τ α β : Type}

/-- The program with its operations taken as operations of the larger system. -/
def Prog.embed (incl : {β : Type} → E β → F β) : Prog E α → Prog F α
  | .ret a => .ret a
  | .exit c m => .exit c m
  | .op e next => .op (incl e) fun r => (next r).embed incl

/-- What holds along a program holds of the part of the larger system that its operations act on. -/
theorem Along.embed {K : Kernel E σ} {L : Kernel F τ} {p : ℕ} {I : τ → Prop}
    (incl : {β : Type} → E β → F β) (view : τ → σ)
    (step : ∀ {β : Type} (e : E β) t r t', I t → L.exec p (incl e) t r t' →
      K.exec p e (view t) r (view t') ∧ I t')
    {R X : σ → Prop} {x : Prog E α} {Q : α → σ → Prop} {t : τ}
    (h : Along K p False R X x Q (view t)) (ht : I t) :
    Along L p False (fun t => R (view t)) (fun t => X (view t)) (x.embed incl)
      (fun a t => I t ∧ Q a (view t)) t := by
  induction x generalizing t with
  | ret a => exact ⟨h.1, ht, h.2⟩
  | exit c m => exact h
  | op e next ih =>
    refine ⟨h.1, False.elim, ?_⟩
    intro r t' hx
    obtain ⟨hexec, ht'⟩ := step e t r t' ht hx
    exact ih r (h.2.2 r (view t') hexec) ht'

end Cyclo.Process
