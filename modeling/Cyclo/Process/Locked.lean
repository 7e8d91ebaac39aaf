import Cyclo.Process.Alone

/-! Any number of processes that run their calls under one exclusive lock, each of which can be lost
at any operation; the lock is then free again. -/
namespace Cyclo.Process

variable {E : Type → Type 1} {σ ι ρ α : Type}

/-- The shared state, and the process in its section with the call and what is left of it. -/
structure Locked (E : Type → Type 1) (σ ι ρ : Type) where
  shared : σ
  holder : Option (ℕ × ι × Prog E ρ)

/-- One section: who held the lock for which call, and what it returned unless it was lost. -/
structure Event (ι ρ : Type) where
  process : ℕ
  call : ι
  outcome : Option ρ

/-- The processes wait until the lock is free; only its holder operates. -/
inductive LockStep (K : Kernel E σ) (program : ι → Prog E ρ) :
    Locked E σ ι ρ → List (Event ι ρ) → Locked E σ ι ρ → Prop
  | enter (p : ℕ) (i : ι) {s : σ} : LockStep K program ⟨s, none⟩ [] ⟨s, some (p, i, program i)⟩
  | operate {p : ℕ} {i : ι} {β : Type} {e : E β} {next : β → Prog E ρ} {s t : σ} {r : β} :
      K.exec p e s r t →
      LockStep K program ⟨s, some (p, i, .op e next)⟩ [] ⟨t, some (p, i, next r)⟩
  | leave {p : ℕ} {i : ι} {r : ρ} {s : σ} :
      LockStep K program ⟨s, some (p, i, .ret r)⟩ [⟨p, i, some r⟩] ⟨s, none⟩
  | lose {p : ℕ} {i : ι} {x : Prog E ρ} {s : σ} :
      LockStep K program ⟨s, some (p, i, x)⟩ [⟨p, i, none⟩] ⟨s, none⟩

/-- The interleavings, with the sections in the order in which they ended. -/
inductive LockRuns (K : Kernel E σ) (program : ι → Prog E ρ) (c : Locked E σ ι ρ) :
    List (Event ι ρ) → Locked E σ ι ρ → Prop
  | refl : LockRuns K program c [] c
  | tail {h l : List (Event ι ρ)} {d e : Locked E σ ι ρ} :
      LockRuns K program c h d → LockStep K program d l e → LockRuns K program c (h ++ l) e

/-- Events one after the other. -/
inductive Serial (step : Event ι ρ → α → α → Prop) : α → List (Event ι ρ) → α → Prop
  | nil {a : α} : Serial step a [] a
  | cons {a b c : α} {event : Event ι ρ} {later : List (Event ι ρ)} :
      step event a b → Serial step b later c → Serial step a (event :: later) c

/-- A section that nobody else disturbs. -/
def Section (K : Kernel E σ) (program : ι → Prog E ρ) (event : Event ι ρ) (s t : σ) : Prop :=
  match event.outcome with
  | some r => Runs K event.process (program event.call) s (some r) t
  | none => ∃ rest, Reaches K event.process (program event.call) s rest t

section
variable {K : Kernel E σ} {p : ℕ} {s t u : σ}

theorem Reaches.tail {x : Prog E α} {β : Type} {e : E β} {next : β → Prog E α} {r : β}
    (h : Reaches K p x s (.op e next) t) (hexec : K.exec p e t r u) :
    Reaches K p x s (next r) u := by
  generalize hy : Prog.op e next = y at h
  induction h with
  | here x s =>
    subst hy
    exact .op hexec (.here _ _)
  | op hfirst _ ih => exact .op hfirst (ih hexec hy)

theorem Reaches.returns {x : Prog E α} {a : α} (h : Reaches K p x s (.ret a) t) :
    Runs K p x s (some a) t := by
  generalize hy : Prog.ret a = y at h
  induction h with
  | here x s =>
    subst hy
    exact .ret a _
  | op hfirst _ ih => exact .op hfirst (ih hy)

end

namespace Serial
variable {step : Event ι ρ → α → α → Prop} {a b c : α}

theorem append {h k : List (Event ι ρ)} (first : Serial step a h b) (second : Serial step b k c) :
    Serial step a (h ++ k) c := by
  induction first with
  | nil => exact second
  | cons hstep _ ih => exact .cons hstep (ih second)

/-- What every event preserves holds after all of them. -/
theorem invariant {I : α → Prop} {P : Event ι ρ → Prop}
    (hstep : ∀ event a b, P event → step event a b → I a → I b) {h : List (Event ι ρ)}
    (hall : ∀ event ∈ h, P event) (ha : I a) (hrun : Serial step a h b) : I b := by
  induction hrun with
  | nil => exact ha
  | cons hfirst _ ih =>
    obtain ⟨hevent, hlater⟩ := List.forall_mem_cons.mp hall
    exact ih hlater (hstep _ _ _ hevent hfirst ha)

theorem map {α' : Type} {step' : Event ι ρ → α' → α' → Prop} {f : α → α'}
    (hstep : ∀ event a b, step event a b → step' event (f a) (f b)) {h : List (Event ι ρ)}
    (hrun : Serial step a h b) : Serial step' (f a) h (f b) := by
  induction hrun with
  | nil => exact .nil
  | cons hfirst _ ih => exact .cons (hstep _ _ _ hfirst) ih

end Serial

/-- The sections of any interleaving happen one after the other, and the one that is not over yet
has come some way from where they left the state. -/
theorem LockRuns.serial {K : Kernel E σ} {program : ι → Prog E ρ} {s : σ} {h : List (Event ι ρ)}
    {c : Locked E σ ι ρ} (hrun : LockRuns K program ⟨s, none⟩ h c) :
    match c.holder with
    | none => Serial (Section K program) s h c.shared
    | some (p, i, x) => ∃ u, Serial (Section K program) s h u ∧ Reaches K p (program i) u x c.shared
    := by
  induction hrun with
  | refl => exact .nil
  | tail _ hstep ih =>
    cases hstep with
    | enter p i =>
      rw [List.append_nil]
      exact ⟨_, ih, .here _ _⟩
    | operate hexec =>
      obtain ⟨u, hserial, hreach⟩ := ih
      rw [List.append_nil]
      exact ⟨u, hserial, hreach.tail hexec⟩
    | leave =>
      obtain ⟨u, hserial, hreach⟩ := ih
      exact hserial.append (.cons hreach.returns .nil)
    | lose =>
      obtain ⟨u, hserial, hreach⟩ := ih
      exact hserial.append (.cons ⟨_, hreach⟩ .nil)

section
variable {K : Kernel E σ} {program : ι → Prog E ρ} {p : ℕ} {i : ι} {s t : σ}

theorem LockRuns.trans {c d e : Locked E σ ι ρ} {h k : List (Event ι ρ)}
    (first : LockRuns K program c h d)
    (second : LockRuns K program d k e) : LockRuns K program c (h ++ k) e := by
  induction second with
  | refl =>
    rw [List.append_nil]
    exact first
  | tail _ hstep ih =>
    rw [← List.append_assoc]
    exact .tail ih hstep

/-- The holder of the lock goes on. -/
theorem Reaches.lockRuns {x y : Prog E ρ} (h : Reaches K p x s y t) :
    LockRuns K program ⟨s, some (p, i, x)⟩ [] ⟨t, some (p, i, y)⟩ := by
  induction h with
  | here => exact .refl
  | op hexec _ ih => exact LockRuns.trans (.tail .refl (.operate hexec)) ih

theorem Reaches.of_returns {x : Prog E α} {a : α} (h : Runs K p x s (some a) t) :
    Reaches K p x s (.ret a) t := by
  generalize hout : some a = out at h
  induction h with
  | ret b s =>
    cases hout
    exact .here _ _
  | exit c m s => cases hout
  | op hexec _ ih => exact .op hexec (ih hout)

/-- A section that nobody disturbs is one of the interleavings. -/
theorem Section.lockRuns {event : Event ι ρ} (h : Section K program event s t) :
    LockRuns K program ⟨s, none⟩ [event] ⟨t, none⟩ := by
  obtain ⟨p, i, outcome⟩ := event
  have henter : LockRuns K program ⟨s, none⟩ [] ⟨s, some (p, i, program i)⟩ := .tail .refl (.enter p i)
  cases outcome with
  | some r => exact .tail (henter.trans (Reaches.of_returns h).lockRuns) .leave
  | none =>
    obtain ⟨rest, hreach⟩ := h
    exact .tail (henter.trans hreach.lockRuns) .lose

/-- The section in progress is the first that ends. -/
theorem LockRuns.holder {x : Prog E ρ} {h : List (Event ι ρ)} {c : Locked E σ ι ρ}
    (hrun : LockRuns K program ⟨s, some (p, i, x)⟩ h c) :
    (h = [] ∧ ∃ y, c.holder = some (p, i, y)) ∨ ∃ outcome later, h = ⟨p, i, outcome⟩ :: later := by
  induction hrun with
  | refl => exact Or.inl ⟨rfl, x, rfl⟩
  | tail _ hstep ih =>
    rcases ih with ⟨rfl, y, hholder⟩ | ⟨outcome, later, rfl⟩
    · cases hstep with
      | enter => cases hholder
      | operate =>
        cases hholder
        exact Or.inl ⟨rfl, _, rfl⟩
      | leave =>
        cases hholder
        exact Or.inr ⟨_, [], rfl⟩
      | lose =>
        cases hholder
        exact Or.inr ⟨none, [], rfl⟩
    · exact Or.inr ⟨outcome, later ++ _, List.cons_append⟩

end

end Cyclo.Process
