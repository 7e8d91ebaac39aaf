import Mathlib.Tactic.Common

/-! Calls that change a state and return a value or raise; what was changed before stays changed. -/
namespace Cyclo.Process

variable {σ ε α β : Type} {s t u : σ}

abbrev Stateful (σ ε α : Type) := ExceptT ε (StateM σ) α

namespace Stateful

theorem run_get (s : σ) : (get : Stateful σ ε σ).run s = (.ok s, s) := rfl

theorem run_bind (x : Stateful σ ε α) (f : α → Stateful σ ε β) (s : σ) :
    (x >>= f).run s =
      match x.run s with
      | (.ok a, t) => (f a).run t
      | (.error failure, t) => (.error failure, t) := by
  change (match x.run s with
    | (result, t) => (ExceptT.bindCont f result : StateM σ (Except ε β)) t) = _
  rcases x.run s with ⟨result, t⟩
  cases result <;> rfl

theorem run_map (f : α → β) (x : Stateful σ ε α) (s : σ) :
    (f <$> x).run s = ((x.run s).1.map f, (x.run s).2) := by
  change (x >>= fun a => pure (f a)).run s = _
  rw [run_bind]
  rcases x.run s with ⟨result, t⟩
  cases result <;> rfl

theorem run_tryCatch (x : Stateful σ ε α) (f : ε → Stateful σ ε α) (s : σ) :
    (tryCatch x f).run s =
      match x.run s with
      | (.ok a, t) => (.ok a, t)
      | (.error failure, t) => (f failure).run t := by
  rcases hrun : x.run s with ⟨result, t⟩
  have hstate : StateT.run x.run s = (result, t) := hrun
  rw [ExceptT.run_tryCatch]
  show StateT.run (ExceptT.run x >>= _) s = _
  rw [StateT.run_bind, hstate]
  cases result <;> rfl

theorem run_bind_ok {x : Stateful σ ε α} {f : α → Stateful σ ε β} {b : β}
    (h : (x >>= f).run s = (.ok b, u)) : ∃ a t, x.run s = (.ok a, t) ∧ (f a).run t = (.ok b, u) := by
  rw [run_bind] at h
  rcases hrun : x.run s with ⟨result, t⟩
  rw [hrun] at h
  cases result with
  | error failure => cases h
  | ok a => exact ⟨a, t, rfl, h⟩

/-- `Q` of what a call returns and the state then, `X` of what it raises. -/
def Yields (x : Stateful σ ε α) (s : σ) (Q : α → σ → Prop) (X : ε → σ → Prop) : Prop :=
  match x.run s with
  | (.ok a, t) => Q a t
  | (.error failure, t) => X failure t

namespace Yields
variable {x : Stateful σ ε α} {Q Q' : α → σ → Prop} {X X' : ε → σ → Prop}

theorem pure {a : α} (h : Q a s) : Yields (pure a) s Q X := h

theorem bind {f : α → Stateful σ ε β} {R : β → σ → Prop}
    (h : Yields x s (fun a t => Yields (f a) t R X) X) : Yields (x >>= f) s R X := by
  unfold Yields at h ⊢
  rw [run_bind]
  rcases hrun : x.run s with ⟨result, t⟩
  rw [hrun] at h
  cases result with
  | ok a => exact h
  | error failure => exact h

theorem get {R : σ → σ → Prop} (h : R s s) : Yields (MonadState.get : Stateful σ ε σ) s R X := h

theorem modify {f : σ → σ} {R : Unit → σ → Prop} (h : R () (f s)) :
    Yields (modify f : Stateful σ ε Unit) s R X := h

theorem weaken (h : Yields x s Q X) (hQ : ∀ a t, Q a t → Q' a t) (hX : ∀ e t, X e t → X' e t) :
    Yields x s Q' X' := by
  unfold Yields at h ⊢
  rcases hrun : x.run s with ⟨result, t⟩
  rw [hrun] at h
  cases result with
  | ok a => exact hQ a t h
  | error failure => exact hX failure t h

end Yields
end Stateful
end Cyclo.Process
