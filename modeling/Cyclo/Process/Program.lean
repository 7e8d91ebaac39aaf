import Mathlib.Logic.Relation
import Mathlib.Data.Set.Basic

/-! Programs whose effects are single atomic operations on a shared state, the
interleavings of any number of them, and the loss of a process at any point. -/
namespace Cyclo.Process

/-- A program over the operations `E`. `exit` leaves every enclosing call at once. -/
inductive Prog (E : Type → Type 1) (α : Type) : Type 1 where
  | ret (a : α)
  | exit (code : ℕ) (message : String)
  | op {β : Type} (e : E β) (next : β → Prog E α)

namespace Prog
variable {E : Type → Type 1} {α β γ : Type}

def bind : Prog E α → (α → Prog E β) → Prog E β
  | .ret a, f => f a
  | .exit c m, _ => .exit c m
  | .op e next, f => .op e fun r => (next r).bind f

instance : Monad (Prog E) where
  pure := .ret
  bind := Prog.bind

/-- One operation as a program. -/
def perform (e : E β) : Prog E β := .op e .ret

@[simp] theorem ret_bind (a : α) (f : α → Prog E β) : (Prog.ret a >>= f) = f a := rfl

@[simp] theorem pure_bind' (a : α) (f : α → Prog E β) : ((pure a : Prog E α) >>= f) = f a := rfl

@[simp] theorem exit_bind (c : ℕ) (m : String) (f : α → Prog E β) :
    (Prog.exit c m >>= f) = .exit c m := rfl

@[simp] theorem op_bind (e : E γ) (next : γ → Prog E α) (f : α → Prog E β) :
    (Prog.op e next >>= f) = .op e fun r => next r >>= f := rfl

@[simp] theorem perform_bind (e : E β) (f : β → Prog E α) : (perform e >>= f) = .op e f := rfl

theorem bind_assoc (x : Prog E α) (f : α → Prog E β) (g : β → Prog E γ) :
    (x >>= f) >>= g = x >>= fun a => f a >>= g := by
  induction x with
  | ret a => rfl
  | exit c m => rfl
  | op e next ih =>
    simp only [op_bind]
    exact congrArg _ (funext ih)

end Prog

/-- What the operations do to a shared state, and what the kernel does when a process ends. -/
structure Kernel (E : Type → Type 1) (σ : Type) where
  exec : ℕ → {β : Type} → E β → σ → β → σ → Prop
  quit : ℕ → σ → σ

variable {E : Type → Type 1} {σ α β : Type}

/-- The shared state and what is left of every process; `none` has ended. -/
structure Config (E : Type → Type 1) (σ : Type) where
  shared : σ
  proc : ℕ → Option (Prog E Unit)

namespace Config

def setProc (c : Config E σ) (p : ℕ) (x : Option (Prog E Unit)) (s : σ) : Config E σ :=
  ⟨s, fun q => if q = p then x else c.proc q⟩

@[simp] theorem setProc_shared (c : Config E σ) (p : ℕ) (x : Option (Prog E Unit)) (s : σ) :
    (c.setProc p x s).shared = s := rfl

@[simp] theorem setProc_same (c : Config E σ) (p : ℕ) (x : Option (Prog E Unit)) (s : σ) :
    (c.setProc p x s).proc p = x := by simp [setProc]

theorem setProc_other (c : Config E σ) {p q : ℕ} (h : q ≠ p) (x : Option (Prog E Unit)) (s : σ) :
    (c.setProc p x s).proc q = c.proc q := by simp [setProc, h]

end Config

/-- One process performs its next operation, or ends: by itself, or killed at any point. -/
inductive Step (K : Kernel E σ) : Config E σ → Config E σ → Prop
  | op {c : Config E σ} {p : ℕ} {β : Type} {e : E β} {next : β → Prog E Unit} {r : β} {s : σ} :
      c.proc p = some (.op e next) → K.exec p e c.shared r s →
      Step K c (c.setProc p (some (next r)) s)
  | stop {c : Config E σ} {p : ℕ} {x : Prog E Unit} :
      c.proc p = some x → Step K c (c.setProc p none (K.quit p c.shared))

/-- Every process is about to run its own program; none has taken a step. -/
def start (prog : ℕ → Prog E Unit) (s : σ) : Config E σ := ⟨s, fun p => some (prog p)⟩

/-- The states some interleaving of the programs reaches. -/
def Reachable (K : Kernel E σ) (prog : ℕ → Prog E Unit) (s₀ : σ) (c : Config E σ) : Prop :=
  Relation.ReflTransGen (Step K) (start prog s₀) c

end Cyclo.Process
