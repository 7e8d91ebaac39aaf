import Cyclo.Process.Program

/-! A program run alone on a shared state: complete runs, the points where it can be killed, what
holds along a run, and an interpreter that finds a complete run. -/
namespace Cyclo.Process

variable {E : Type → Type 1} {σ α β : Type}

/-- A program run alone, with no operation interrupted: its outcome and the state it leaves. -/
inductive Runs (K : Kernel E σ) (p : ℕ) : Prog E α → σ → Option α → σ → Prop
  | ret (a : α) (s : σ) : Runs K p (.ret a) s (some a) s
  | exit (c : ℕ) (m : String) (s : σ) : Runs K p (.exit c m) s none s
  | op {β : Type} {e : E β} {next : β → Prog E α} {s s' t : σ} {r : β} {out : Option α} :
      K.exec p e s r s' → Runs K p (next r) s' out t → Runs K p (.op e next) s out t

/-- The points a program run alone passes, with what is left of it: it can be killed there. -/
inductive Reaches (K : Kernel E σ) (p : ℕ) : Prog E α → σ → Prog E α → σ → Prop
  | here (x : Prog E α) (s : σ) : Reaches K p x s x s
  | op {β : Type} {e : E β} {next : β → Prog E α} {y : Prog E α} {s s' t : σ} {r : β} :
      K.exec p e s r s' → Reaches K p (next r) s' y t → Reaches K p (.op e next) s y t

/-- A run alone is one interleaving of the process with the others, who wait. -/
theorem Runs.steps {K : Kernel E σ} {p : ℕ} {x : Prog E Unit} {s t : σ} {out : Option Unit}
    (h : Runs K p x s out t) {c : Config E σ} (hs : c.shared = s) (hx : c.proc p = some x) :
    ∃ y, Relation.ReflTransGen (Step K) c (c.setProc p (some y) t) := by
  induction h generalizing c with
  | ret a s =>
    subst hs
    refine ⟨.ret a, ?_⟩
    have same : c.setProc p (some (.ret a)) c.shared = c := by
      cases c
      simp only [Config.setProc, Config.mk.injEq, true_and]
      funext q
      split <;> simp_all
    rw [same]
  | exit code m s =>
    subst hs
    refine ⟨.exit code m, ?_⟩
    have same : c.setProc p (some (.exit code m)) c.shared = c := by
      cases c
      simp only [Config.setProc, Config.mk.injEq, true_and]
      funext q
      split <;> simp_all
    rw [same]
  | @op _ e next s s' t r out hexec _ ih =>
    subst hs
    obtain ⟨y, hy⟩ := ih (c := c.setProc p (some (next r)) s') rfl (by simp)
    refine ⟨y, .head (.op hx hexec) ?_⟩
    have twice : (c.setProc p (some (next r)) s').setProc p (some y) t = c.setProc p (some y) t := by
      simp only [Config.setProc, Config.mk.injEq, true_and]
      funext q
      split <;> rfl
    rwa [twice] at hy

section
variable {K : Kernel E σ} {p : ℕ}

/-- A complete run reaches its end. -/
theorem Runs.reaches {x : Prog E α} {s t : σ} {out : Option α} (h : Runs K p x s out t) :
    ∃ y, Reaches K p x s y t := by
  induction h with
  | ret a s => exact ⟨_, .here _ s⟩
  | exit c m s => exact ⟨_, .here _ s⟩
  | op hexec _ ih =>
    obtain ⟨y, hy⟩ := ih
    exact ⟨y, .op hexec hy⟩

/-- Alone from `s`, `R` holds at every point of the program, `X` where it exits and `Q` where it
returns. Under `T` it is never blocked. -/
def Along (K : Kernel E σ) (p : ℕ) (T : Prop) (R X : σ → Prop) :
    Prog E α → (α → σ → Prop) → σ → Prop
  | .ret a, Q, s => R s ∧ Q a s
  | .exit _ _, _, s => R s ∧ X s
  | .op e next, Q, s => R s ∧ (T → ∃ r s', K.exec p e s r s') ∧
      ∀ r s', K.exec p e s r s' → Along K p T R X (next r) Q s'

namespace Along
variable {T : Prop} {R X : σ → Prop} {Q : α → σ → Prop}

theorem here {x : Prog E α} {s : σ} (h : Along K p T R X x Q s) : R s := by
  cases x with
  | ret a => exact h.1
  | exit c m => exact h.1
  | op e next => exact h.1

theorem bind {x : Prog E β} {f : β → Prog E α} {s : σ}
    (h : Along K p T R X x (fun b t => Along K p T R X (f b) Q t) s) :
    Along K p T R X (x >>= f) Q s := by
  induction x generalizing s with
  | ret b => exact h.2
  | exit c m => exact h
  | op e next ih => exact ⟨h.1, h.2.1, fun r s' hx => ih r (h.2.2 r s' hx)⟩

theorem weaken {R' X' : σ → Prop} {Q' : α → σ → Prop} {x : Prog E α} {s : σ}
    (h : Along K p T R X x Q s) (hR : ∀ t, R t → R' t) (hX : ∀ t, R t → X t → X' t)
    (hQ : ∀ a t, R t → Q a t → Q' a t) : Along K p T R' X' x Q' s := by
  induction x generalizing s with
  | ret a => exact ⟨hR s h.1, hQ a s h.1 h.2⟩
  | exit c m => exact ⟨hR s h.1, hX s h.1 h.2⟩
  | op e next ih => exact ⟨hR s h.1, h.2.1, fun r s' hx => ih r (h.2.2 r s' hx)⟩

/-- It is enough to be never blocked where that is asked for. -/
theorem relax {T' : Prop} (hT : T' → T) {x : Prog E α} {s : σ} (h : Along K p T R X x Q s) :
    Along K p T' R X x Q s := by
  induction x generalizing s with
  | ret a => exact h
  | exit c m => exact h
  | op e next ih => exact ⟨h.1, fun hT' => h.2.1 (hT hT'), fun r s' hx => ih r (h.2.2 r s' hx)⟩

theorem reached {x : Prog E α} {s : σ} (h : Along K p T R X x Q s) {y : Prog E α} {t : σ}
    (hr : Reaches K p x s y t) : Along K p T R X y Q t := by
  induction hr with
  | here => exact h
  | op hexec _ ih => exact ih (h.2.2 _ _ hexec)

theorem returned {x : Prog E α} {s t : σ} {a : α} (h : Along K p T R X x Q s)
    (hr : Runs K p x s (some a) t) : Q a t := by
  generalize ho : some a = o at hr
  induction hr with
  | ret b s =>
    cases ho
    exact h.2
  | exit c m s => cases ho
  | op hexec _ ih => exact ih (h.2.2 _ _ hexec) ho

theorem exited {x : Prog E α} {s t : σ} (h : Along K p T R X x Q s)
    (hr : Runs K p x s none t) : X t := by
  generalize ho : (none : Option α) = o at hr
  induction hr with
  | ret b s => cases ho
  | exit c m s => exact h.2
  | op hexec _ ih => exact ih (h.2.2 _ _ hexec) ho

/-- A program that is never blocked ends. -/
theorem ends (hT : T) {x : Prog E α} {s : σ} (h : Along K p T R X x Q s) :
    ∃ out t, Runs K p x s out t := by
  induction x generalizing s with
  | ret a => exact ⟨_, _, .ret a s⟩
  | exit c m => exact ⟨_, _, .exit c m s⟩
  | op e next ih =>
    obtain ⟨r, s', hx⟩ := h.2.1 hT
    obtain ⟨out, t, hr⟩ := ih r (h.2.2 r s' hx)
    exact ⟨out, t, .op hx hr⟩

end Along
end

/-- A run stays one when more operations are possible. -/
theorem Runs.mono {K K' : Kernel E σ} {p : ℕ}
    (more : ∀ {β : Type} (e : E β) s r s', K.exec p e s r s' → K'.exec p e s r s') {x : Prog E α}
    {s t : σ} {out : Option α} (h : Runs K p x s out t) : Runs K' p x s out t := by
  induction h with
  | ret a s => exact .ret a s
  | exit c m s => exact .exit c m s
  | op hexec _ ih => exact .op (more _ _ _ _ hexec) ih

theorem Reaches.mono {K K' : Kernel E σ} {p : ℕ}
    (more : ∀ {β : Type} (e : E β) s r s', K.exec p e s r s' → K'.exec p e s r s')
    {x y : Prog E α} {s t : σ} (h : Reaches K p x s y t) : Reaches K' p x s y t := by
  induction h with
  | here x s => exact .here x s
  | op hexec _ ih => exact .op (more _ _ _ _ hexec) ih

/-- Every operation the program may perform satisfies `P`. -/
def Prog.All (P : {β : Type} → E β → Prop) : Prog E α → Prop
  | .ret _ => True
  | .exit _ _ => True
  | .op e next => P e ∧ ∀ r, Prog.All P (next r)

theorem Prog.All.bind {P : {β : Type} → E β → Prop} {x : Prog E β} {f : β → Prog E α}
    (h : x.All P) (hf : ∀ b, (f b).All P) : (x >>= f).All P := by
  induction x with
  | ret b => exact hf b
  | exit c m => trivial
  | op e next ih => exact ⟨h.1, fun r => ih r (h.2 r)⟩

/-- What each operation of a program preserves holds all along. -/
theorem Prog.All.along {K : Kernel E σ} {p : ℕ} {P : {β : Type} → E β → Prop} {I : σ → Prop}
    (step : ∀ {β : Type} (e : E β) s r s', P e → I s → K.exec p e s r s' → I s') {x : Prog E α}
    (h : x.All P) {s : σ} (hs : I s) : Along K p False I I x (fun _ => I) s := by
  induction x generalizing s with
  | ret a => exact ⟨hs, hs⟩
  | exit c m => exact ⟨hs, hs⟩
  | op e next ih =>
    exact ⟨hs, False.elim, fun r s' hx => ih r (h.2 r) (step e s r s' h.1 hs hx)⟩

/-- An interpreter of one operation; `none` when it blocks. -/
abbrev Interp (E : Type → Type 1) (σ : Type) := {β : Type} → E β → σ → Option (β × σ)

def Interp.run (eval : Interp E σ) : Prog E α → σ → Option (Option α × σ)
  | .ret a, s => some (some a, s)
  | .exit _ _, s => some (none, s)
  | .op e next, s => (eval e s).bind fun (r, s') => Interp.run eval (next r) s'

/-- What a sound interpreter computes is a run. -/
theorem Interp.run_sound {K : Kernel E σ} {p : ℕ} {eval : Interp E σ}
    (sound : ∀ {β : Type} (e : E β) s r s', eval e s = some (r, s') → K.exec p e s r s')
    {x : Prog E α} {s t : σ} {out : Option α} (h : Interp.run eval x s = some (out, t)) :
    Runs K p x s out t := by
  induction x generalizing s with
  | ret a => cases h; exact .ret a _
  | exit c m => cases h; exact .exit c m _
  | op e next ih =>
    obtain ⟨⟨r, s'⟩, he, hr⟩ := Option.bind_eq_some_iff.1 h
    exact .op (sound e s r s' he) (ih r hr)

/-- The first operations of a program, and what is left of it. -/
def Interp.advance (eval : Interp E σ) : ℕ → Prog E α → σ → Option (Prog E α × σ)
  | n + 1, .op e next, s =>
    (eval e s).bind fun (r, s') => Interp.advance eval n (next r) s'
  | _, x, s => some (x, s)

/-- A program that is stopped after some operations has reached that point. -/
theorem Interp.advance_sound {K : Kernel E σ} {p : ℕ} {eval : Interp E σ}
    (sound : ∀ {β : Type} (e : E β) s r s', eval e s = some (r, s') → K.exec p e s r s') {n : ℕ}
    {x y : Prog E α} {s t : σ} (h : Interp.advance eval n x s = some (y, t)) :
    Reaches K p x s y t := by
  induction n generalizing x s with
  | zero =>
    rw [Interp.advance] at h
    · cases h
      exact .here _ _
    · simp
  | succ n ih =>
    cases x with
    | ret a =>
      cases h
      exact .here _ _
    | exit c m =>
      cases h
      exact .here _ _
    | op e next =>
      obtain ⟨⟨r, s'⟩, he, hr⟩ := Option.bind_eq_some_iff.1 h
      exact .op (sound e s r s' he) (ih hr)

end Cyclo.Process
