import Cyclo.Process.Alone

/-! Programs that raise exceptions, with handlers and with cleanup that always runs, and what holds
along their runs. -/
namespace Cyclo.Process

variable {E : Type → Type 1} {σ ε α β : Type}

/-- A program that returns a value or raises. -/
abbrev Raising (E : Type → Type 1) (ε α : Type) : Type 1 := ExceptT ε (Prog E) α

namespace Raising

/-- One operation that may fail. -/
def perform (e : E (Except ε α)) : Raising E ε α := ExceptT.mk (Prog.perform e)

/-- One operation that does not. -/
def ask (e : E α) : Raising E ε α := ExceptT.mk (Prog.perform e >>= fun a => pure (.ok a))

def ofExcept (r : Except ε α) : Raising E ε α := ExceptT.mk (pure r)

/-- An exception leaves the program as another one. -/
def mapError (f : ε → ε) (x : Raising E ε α) : Raising E ε α :=
  ExceptT.mk (x.run >>= fun r => pure (r.mapError f))

/-- The cleanup runs after the program, and an exception of its own is the one that leaves. -/
def protect (x : Raising E ε α) (cleanup : Raising E ε Unit) : Raising E ε α :=
  ExceptT.mk (x.run >>= fun r => cleanup.run >>= fun
    | .ok _ => pure r
    | .error e => pure (.error e))

end Raising

/-- `Q` where a value is returned, and `X` where an exception leaves. -/
def Ends (Q : α → σ → Prop) (X : ε → σ → Prop) : Except ε α → σ → Prop
  | .ok a => Q a
  | .error e => X e

namespace Along
variable {K : Kernel E σ} {p : ℕ} {T : Prop} {R X : σ → Prop} {s : σ}

/-- The rest of a program runs where its beginning returns. -/
theorem raising {x : Raising E ε β} {f : β → Raising E ε α} {Q : Except ε α → σ → Prop}
    (h : Along K p T R X x.run (Ends (fun b => Along K p T R X (f b).run Q) fun e => Q (.error e))
      s) :
    Along K p T R X (x >>= f).run Q s := by
  refine Along.bind (h.weaken (fun _ ht => ht) (fun _ _ hx => hx) ?_)
  intro r t hR hr
  cases r with
  | ok b => exact hr
  | error e => exact ⟨hR, hr⟩

theorem perform {e : E (Except ε α)} {Q : Except ε α → σ → Prop} (hR : R s)
    (hT : T → ∃ r t, K.exec p e s r t) (h : ∀ r t, K.exec p e s r t → R t ∧ Q r t) :
    Along K p T R X (Raising.perform e).run Q s := ⟨hR, hT, h⟩

theorem ask {e : E α} {Q : Except ε α → σ → Prop} (hR : R s) (hT : T → ∃ r t, K.exec p e s r t)
    (h : ∀ r t, K.exec p e s r t → R t ∧ Q (.ok r) t) :
    Along K p T R X (Raising.ask e).run Q s := ⟨hR, hT, h⟩

theorem ofExcept {r : Except ε α} {Q : Except ε α → σ → Prop} (hR : R s) (hQ : Q r s) :
    Along K p T R X (Raising.ofExcept r : Raising E ε α).run Q s := ⟨hR, hQ⟩

theorem mapError {f : ε → ε} {x : Raising E ε α} {Q : Except ε α → σ → Prop}
    (h : Along K p T R X x.run (fun r t => Q (r.mapError f) t) s) :
    Along K p T R X (Raising.mapError f x).run Q s :=
  Along.bind (h.weaken (fun _ ht => ht) (fun _ _ hx => hx) fun _ _ hR hQ => ⟨hR, hQ⟩)

theorem protect {x : Raising E ε α} {cleanup : Raising E ε Unit} {Q : Except ε α → σ → Prop}
    (h : Along K p T R X x.run
      (fun r => Along K p T R X cleanup.run (Ends (fun _ => Q r) fun e => Q (.error e))) s) :
    Along K p T R X (Raising.protect x cleanup).run Q s := by
  refine Along.bind (h.weaken (fun _ ht => ht) (fun _ _ hx => hx) ?_)
  intro r t _ hc
  refine Along.bind (hc.weaken (fun _ ht => ht) (fun _ _ hx => hx) ?_)
  intro c u hR hQ
  cases c with
  | ok _ => exact ⟨hR, hQ⟩
  | error e => exact ⟨hR, hQ⟩

end Along

/-- Alone from `s`, `R` holds at every operation of the program, `P` where it returns, and it raises
only exceptions with `X`. -/
abbrev Holds (K : Kernel E σ) (p : ℕ) (R : σ → Prop) (X : ε → Prop) (x : Raising E ε α)
    (P : α → σ → Prop) (s : σ) : Prop :=
  Along K p True R (fun _ => False) x.run (Ends P fun e _ => X e) s

namespace Holds
variable {K : Kernel E σ} {p : ℕ} {R : σ → Prop} {X : ε → Prop} {s t : σ}

theorem weaken {X' : ε → Prop} {x : Raising E ε α} {P P' : α → σ → Prop}
    (h : Holds K p R X x P s) (hX : ∀ e, X e → X' e) (hP : ∀ a t, R t → P a t → P' a t) :
    Holds K p R X' x P' s := by
  refine Along.weaken h (fun _ ht => ht) (fun _ _ hx => hx) fun r t hR hr => ?_
  cases r with
  | ok a => exact hP a t hR hr
  | error e => exact hX e hr

theorem bind {x : Raising E ε β} {f : β → Raising E ε α} {P : β → σ → Prop} {Q : α → σ → Prop}
    (h : Holds K p R X x P s) (hf : ∀ b t, R t → P b t → Holds K p R X (f b) Q t) :
    Holds K p R X (x >>= f) Q s :=
  Along.raising (h.weaken (fun _ he => he) hf)

theorem pure {a : α} {P : α → σ → Prop} (hR : R s) (h : P a s) :
    Holds K p R X (Pure.pure a : Raising E ε α) P s := ⟨hR, h⟩

theorem raise {e : ε} {P : α → σ → Prop} (hR : R s) (hX : X e) :
    Holds K p R X (throw e : Raising E ε α) P s := ⟨hR, hX⟩

theorem ofExcept {r : Except ε α} {P : α → σ → Prop} (hR : R s)
    (hok : ∀ a, r = .ok a → P a s) (herror : ∀ e, r = .error e → X e) :
    Holds K p R X (.ofExcept r) P s := by
  refine Along.ofExcept hR ?_
  cases hr : r with
  | ok a => exact hok a hr
  | error e => exact herror e hr

theorem mapError {f : ε → ε} {x : Raising E ε α} {P : α → σ → Prop}
    (h : Holds K p R (fun e => X (f e)) x P s) : Holds K p R X (.mapError f x) P s := by
  refine Along.mapError (Along.weaken h (fun _ ht => ht) (fun _ _ hx => hx) fun r t _ hr => ?_)
  cases r with
  | ok a => exact hr
  | error e => exact hr

/-- The cleanup runs after the program, and after its failure. -/
theorem protect {x : Raising E ε α} {cleanup : Raising E ε Unit} {P Q : α → σ → Prop}
    (h : Holds K p R X x P s)
    (hok : ∀ a t, R t → P a t → Holds K p R X cleanup (fun _ => Q a) t)
    (herror : ∀ e t, R t → X e → Holds K p R X cleanup (fun _ _ => True) t) :
    Holds K p R X (.protect x cleanup) Q s := by
  refine Along.protect (Along.weaken h (fun _ ht => ht) (fun _ _ hx => hx) fun r t hR hr => ?_)
  cases r with
  | ok a => exact hok a t hR hr
  | error e =>
    refine Along.weaken (herror e t hR hr) (fun _ ht => ht) (fun _ _ hx => hx) fun c _ _ hc => ?_
    cases c with
    | ok _ => exact hr
    | error _ => exact hc

/-- What is left of an interrupted program is in a state that `R` holds of. -/
theorem reaches {x : Raising E ε α} {P : α → σ → Prop} (h : Holds K p R X x P s)
    {y : Prog E (Except ε α)} (hreach : Reaches K p x.run s y t) : R t :=
  (Along.reached h hreach).here

end Holds

end Cyclo.Process
