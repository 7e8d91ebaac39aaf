import Cyclo.Process.Exceptions

/-! Programs over a store that is read and changed atomically, where any operation may fail. -/
namespace Cyclo.Process

variable {σ δ ε α β : Type} {Q : Type → Type}

/-- The operations on a store `σ`. Its changes are `δ`, and the questions `Q` are those that the
store alone does not settle. -/
inductive StoreOp (σ δ ε : Type) (Q : Type → Type) : Type → Type 1 where
  | get {β : Type} (read : σ → β) : StoreOp σ δ ε Q (Except ε β)
  | change (change : δ) : StoreOp σ δ ε Q (Except ε Unit)
  | ask {β : Type} (question : Q β) : StoreOp σ δ ε Q (Except ε β)

/-- What the operations do. A change is refused where `apply` is undefined; a refusal and a fault
raise a `fault`, and a program may turn that into any exception that `surfaces`. -/
structure Storage (σ δ ε : Type) (Q : Type → Type) where
  apply : δ → σ → Option σ
  answers : {β : Type} → Q β → σ → β → Prop
  fault : ε → Prop
  refusal : ε
  fault_refusal : fault refusal
  surfaces : ε → Prop
  surfaces_fault : ∀ e, fault e → surfaces e

namespace Storage

/-- An operation takes effect or is refused; with `faulty`, it may also fail without an effect. -/
def exec (S : Storage σ δ ε Q) (faulty : Prop) {β : Type} (op : StoreOp σ δ ε Q β) (s : σ) (r : β)
    (t : σ) : Prop :=
  match op, r with
  | .get read, .ok value => value = read s ∧ t = s
  | .get _, .error e => faulty ∧ S.fault e ∧ t = s
  | .change change, .ok () => S.apply change s = some t
  | .change change, .error e => (S.apply change s = none ∨ faulty) ∧ S.fault e ∧ t = s
  | .ask question, .ok answer => S.answers question s answer ∧ t = s
  | .ask _, .error e => faulty ∧ S.fault e ∧ t = s

/-- The exception can be that of a fault. -/
def Blames (S : Storage σ δ ε Q) (faulty : Prop) (e : ε) : Prop := faulty ∧ S.surfaces e

def kernel (S : Storage σ δ ε Q) (faulty : Prop) : Kernel (StoreOp σ δ ε Q) σ where
  exec _ _ op s r t := S.exec faulty op s r t
  quit _ s := s

/-- The operations without faults, the questions answered by `answer`. -/
def eval (S : Storage σ δ ε Q) (answer : {β : Type} → Q β → σ → β) : Interp (StoreOp σ δ ε Q) σ
  | _, .get read, s => some (.ok (read s), s)
  | _, .change change, s =>
    match S.apply change s with
    | some t => some (.ok (), t)
    | none => some (.error S.refusal, s)
  | _, .ask question, s => some (.ok (answer question s), s)

/-- A computed operation is one of the store, where its questions were answered rightly. -/
theorem eval_sound (S : Storage σ δ ε Q) {answer : {β : Type} → Q β → σ → β} {faulty : Prop} {p : ℕ}
    (right : ∀ {β : Type} (question : Q β) s, S.answers question s (answer question s)) {β : Type}
    (op : StoreOp σ δ ε Q β) (s : σ) (r : β) (t : σ) (h : S.eval answer op s = some (r, t)) :
    (S.kernel faulty).exec p op s r t := by
  cases op with
  | get read =>
    cases h
    exact ⟨rfl, rfl⟩
  | change change =>
    change (match S.apply change s with
      | some t => some (.ok (), t)
      | none => some (.error S.refusal, s)) = some (r, t) at h
    cases happly : S.apply change s with
    | some u =>
      rw [happly] at h
      cases h
      exact happly
    | none =>
      rw [happly] at h
      cases h
      exact ⟨.inl happly, S.fault_refusal, rfl⟩
  | ask question =>
    cases h
    exact ⟨right question s, rfl⟩

end Storage

namespace Raising

/-- What the handler answers to an exception. -/
def rescue {E : Type → Type 1} (x : Raising E ε α) (handler : ε → Raising E ε α) :
    Raising E ε α :=
  ExceptT.mk (x.run >>= fun
    | .ok a => pure (.ok a)
    | .error e => (handler e).run)

end Raising

/-- Alone from `s`, `R` holds at every operation of the program, `P` where it returns, and `X` where
an exception leaves that is not one of a fault. -/
abbrev Leads (S : Storage σ δ ε Q) (faulty : Prop) (R : σ → Prop)
    (x : Raising (StoreOp σ δ ε Q) ε α) (P : α → σ → Prop) (X : ε → σ → Prop) (s : σ) : Prop :=
  Along (S.kernel faulty) 0 True R (fun _ => False) x.run
    (Ends P fun e t => S.Blames faulty e ∨ X e t) s

namespace Leads
variable {S : Storage σ δ ε Q} {faulty : Prop} {R : σ → Prop} {X : ε → σ → Prop} {s t : σ}

theorem weaken {R' : σ → Prop} {x : Raising (StoreOp σ δ ε Q) ε α} {P P' : α → σ → Prop}
    {X' : ε → σ → Prop} (h : Leads S faulty R x P X s) (hR : ∀ t, R t → R' t)
    (hP : ∀ a t, R t → P a t → P' a t) (hX : ∀ e t, R t → X e t → X' e t) :
    Leads S faulty R' x P' X' s := by
  refine Along.weaken h hR (fun _ _ hx => hx) fun r t hRt hr => ?_
  cases r with
  | ok a => exact hP a t hRt hr
  | error e => exact hr.imp_right (hX e t hRt)

theorem bind {x : Raising (StoreOp σ δ ε Q) ε β} {f : β → Raising (StoreOp σ δ ε Q) ε α}
    {P : β → σ → Prop} {P' : α → σ → Prop} {Y : ε → σ → Prop} (h : Leads S faulty R x P Y s)
    (hX : ∀ e t, R t → Y e t → X e t)
    (hf : ∀ b t, R t → P b t → Leads S faulty R (f b) P' X t) :
    Leads S faulty R (x >>= f) P' X s :=
  Along.raising (h.weaken (fun _ ht => ht) hf hX)

theorem pure {a : α} {P : α → σ → Prop} (hR : R s) (h : P a s) :
    Leads S faulty R (Pure.pure a : Raising (StoreOp σ δ ε Q) ε α) P X s := ⟨hR, h⟩

theorem raise {e : ε} {P : α → σ → Prop} (hR : R s) (h : X e s) :
    Leads S faulty R (throw e : Raising (StoreOp σ δ ε Q) ε α) P X s := ⟨hR, .inr h⟩

theorem ofExcept {r : Except ε α} {P : α → σ → Prop} (hR : R s) (hok : ∀ a, r = .ok a → P a s)
    (herror : ∀ e, r = .error e → X e s) : Leads S faulty R (.ofExcept r) P X s := by
  refine Along.ofExcept hR ?_
  cases hr : r with
  | ok a => exact hok a hr
  | error e => exact .inr (herror e hr)

theorem mapError {f : ε → ε} {x : Raising (StoreOp σ δ ε Q) ε α} {P : α → σ → Prop}
    (hf : ∀ e, S.surfaces e → S.surfaces (f e))
    (h : Leads S faulty R x P (fun e t => X (f e) t) s) : Leads S faulty R (.mapError f x) P X s := by
  refine Along.mapError (Along.weaken h (fun _ ht => ht) (fun _ _ hx => hx) fun r t _ hr => ?_)
  cases r with
  | ok a => exact hr
  | error e => exact hr.imp_left (And.imp_right (hf e))

/-- The cleanup keeps what was reached; only a fault can stop it. -/
theorem protect {x : Raising (StoreOp σ δ ε Q) ε α} {cleanup : Raising (StoreOp σ δ ε Q) ε Unit}
    {P P' : α → σ → Prop} {Y : ε → σ → Prop} (h : Leads S faulty R x P Y s)
    (hok : ∀ a t, R t → P a t → Leads S faulty R cleanup (fun _ => P' a) X t)
    (herror : ∀ e t, R t → Y e t →
      Leads S faulty R cleanup (fun _ => X e) X t)
    (hfault : faulty → ∀ t, R t →
      Leads S faulty R cleanup (fun _ _ => True) (fun e _ => S.surfaces e) t) :
    Leads S faulty R (.protect x cleanup) P' X s := by
  refine Along.protect (Along.weaken h (fun _ ht => ht) (fun _ _ hx => hx) fun r t hR hr => ?_)
  cases r with
  | ok a => exact hok a t hR hr
  | error e =>
    cases hr with
    | inl hf =>
      refine Along.weaken (hfault hf.1 t hR) (fun _ ht => ht) (fun _ _ hx => hx) fun c _ _ hc => ?_
      cases c with
      | ok _ => exact .inl hf
      | error _ => exact .inl ⟨hf.1, hc.elim And.right id⟩
    | inr hx =>
      refine Along.weaken (herror e t hR hx) (fun _ ht => ht) (fun _ _ hx => hx) fun c _ _ hc => ?_
      cases c with
      | ok _ => exact .inr hc
      | error _ => exact hc

/-- The handler goes on from where the exception was raised, also after a fault. -/
theorem rescue {x : Raising (StoreOp σ δ ε Q) ε α} {handler : ε → Raising (StoreOp σ δ ε Q) ε α}
    {P : α → σ → Prop} {Y : ε → σ → Prop} (h : Leads S faulty R x P Y s)
    (herror : ∀ e t, R t → S.Blames faulty e ∨ Y e t → Leads S faulty R (handler e) P X t) :
    Leads S faulty R (.rescue x handler) P X s := by
  refine Along.bind (Along.weaken h (fun _ ht => ht) (fun _ _ hx => hx) fun r t hR hr => ?_)
  cases r with
  | ok a => exact ⟨hR, hr⟩
  | error e => exact herror e t hR hr

theorem get {read : σ → β} {f : β → Raising (StoreOp σ δ ε Q) ε α} {P : α → σ → Prop} (hR : R s)
    (h : Leads S faulty R (f (read s)) P X s) :
    Leads S faulty R (Raising.perform (.get read) >>= f) P X s := by
  refine Along.raising (Along.perform hR (fun _ => ⟨.ok (read s), s, rfl, rfl⟩) fun r t hexec => ?_)
  cases r with
  | ok value =>
    obtain ⟨rfl, rfl⟩ := hexec
    exact ⟨hR, h⟩
  | error e =>
    obtain ⟨hf, he, rfl⟩ := hexec
    exact ⟨hR, .inl ⟨hf, S.surfaces_fault e he⟩⟩

theorem ask {question : Q β} {f : β → Raising (StoreOp σ δ ε Q) ε α} {P : α → σ → Prop}
    (hR : R s) (hanswer : ∃ answer, S.answers question s answer)
    (h : ∀ answer, S.answers question s answer → Leads S faulty R (f answer) P X s) :
    Leads S faulty R (Raising.perform (.ask question) >>= f) P X s := by
  obtain ⟨answer, hanswer⟩ := hanswer
  refine Along.raising (Along.perform hR (fun _ => ⟨.ok answer, s, hanswer, rfl⟩) fun r t hexec => ?_)
  cases r with
  | ok given =>
    obtain ⟨hgiven, rfl⟩ := hexec
    exact ⟨hR, h given hgiven⟩
  | error e =>
    obtain ⟨hf, he, rfl⟩ := hexec
    exact ⟨hR, .inl ⟨hf, S.surfaces_fault e he⟩⟩

/-- A change that may be refused. -/
theorem change {change : δ} {P : Unit → σ → Prop} (hR : R s)
    (hX : S.apply change s = none → ∀ e, S.fault e → X e s)
    (h : ∀ t, S.apply change s = some t → R t ∧ P () t) :
    Leads S faulty R (Raising.perform (.change change)) P X s := by
  refine Along.perform hR (fun _ => ?_) fun r t hexec => ?_
  · cases happly : S.apply change s with
    | none => exact ⟨.error S.refusal, s, .inl happly, S.fault_refusal, rfl⟩
    | some t => exact ⟨.ok (), t, happly⟩
  · cases r with
    | ok _ => exact h t hexec
    | error e =>
      obtain ⟨hf, he, rfl⟩ := hexec
      exact ⟨hR, hf.symm.imp (fun hf => ⟨hf, S.surfaces_fault e he⟩) fun hnone => hX hnone e he⟩

/-- A change that is not refused. -/
theorem changeTo {change : δ} {P : Unit → σ → Prop} (hR : R s) (ht : S.apply change s = some t)
    (hRt : R t) (h : P () t) : Leads S faulty R (Raising.perform (.change change)) P X s := by
  refine Leads.change hR (fun hnone => ?_) fun u hu => ?_
  · rw [ht] at hnone
    cases hnone
  · rw [ht] at hu
    cases hu
    exact ⟨hRt, h⟩

/-- What is left of an interrupted program is in a state that `R` holds of. -/
theorem reaches {x : Raising (StoreOp σ δ ε Q) ε α} {P : α → σ → Prop}
    (h : Leads S faulty R x P X s) {y : Prog (StoreOp σ δ ε Q) (Except ε α)}
    (hreach : Reaches (S.kernel faulty) 0 x.run s y t) : R t :=
  (Along.reached h hreach).here

theorem returns {x : Raising (StoreOp σ δ ε Q) ε α} {P : α → σ → Prop}
    (h : Leads S faulty R x P X s) {a : α}
    (hrun : Runs (S.kernel faulty) 0 x.run s (some (.ok a)) t) : P a t := by
  have hends := Along.returned h hrun
  exact hends

theorem raises {x : Raising (StoreOp σ δ ε Q) ε α} {P : α → σ → Prop}
    (h : Leads S faulty R x P X s) {e : ε}
    (hrun : Runs (S.kernel faulty) 0 x.run s (some (.error e)) t) :
    S.Blames faulty e ∨ X e t := by
  have hends := Along.returned h hrun
  exact hends

/-- It ends with an outcome: it never leaves the enclosing call. -/
theorem total {x : Raising (StoreOp σ δ ε Q) ε α} {P : α → σ → Prop}
    (h : Leads S faulty R x P X s) : ∃ r t, Runs (S.kernel faulty) 0 x.run s (some r) t := by
  obtain ⟨out, t, hrun⟩ := Along.ends trivial h
  cases out with
  | none => exact (Along.exited h hrun).elim
  | some r => exact ⟨r, t, hrun⟩

end Leads

/-- The program changes nothing, and its outcome is `r`. -/
abbrev Reads (S : Storage σ δ ε Q) (faulty : Prop) (R : σ → Prop)
    (x : Raising (StoreOp σ δ ε Q) ε α) (r : Except ε α) (s : σ) : Prop :=
  Leads S faulty R x (fun a t => s = t ∧ r = .ok a) (fun e t => s = t ∧ r = .error e) s

namespace Reads
variable {S : Storage σ δ ε Q} {faulty : Prop} {R : σ → Prop} {s : σ}

theorem pure {a : α} (hR : R s) :
    Reads S faulty R (Pure.pure a : Raising (StoreOp σ δ ε Q) ε α) (.ok a) s :=
  Leads.pure hR ⟨rfl, rfl⟩

theorem raise {e : ε} (hR : R s) :
    Reads S faulty R (throw e : Raising (StoreOp σ δ ε Q) ε α) (.error e) s :=
  Leads.raise hR ⟨rfl, rfl⟩

theorem ofExcept {r : Except ε α} (hR : R s) : Reads S faulty R (.ofExcept r) r s :=
  Leads.ofExcept hR (fun _ h => ⟨rfl, h⟩) fun _ h => ⟨rfl, h⟩

theorem get {read : σ → β} {f : β → Raising (StoreOp σ δ ε Q) ε α} {r : Except ε α} (hR : R s)
    (h : Reads S faulty R (f (read s)) r s) :
    Reads S faulty R (Raising.perform (.get read) >>= f) r s :=
  Leads.get hR h

theorem bind {x : Raising (StoreOp σ δ ε Q) ε β} {f : β → Raising (StoreOp σ δ ε Q) ε α}
    {r : Except ε β} {g : β → Except ε α} (h : Reads S faulty R x r s)
    (hf : ∀ b, r = .ok b → Reads S faulty R (f b) (g b) s) :
    Reads S faulty R (x >>= f) (r >>= g) s := by
  refine Leads.bind h (fun e t _ hX => ?_) fun b t _ hP => ?_
  · obtain ⟨hst, rfl⟩ := hX
    exact ⟨hst, rfl⟩
  · obtain ⟨rfl, rfl⟩ := hP
    exact hf b rfl

theorem mapError {f : ε → ε} {x : Raising (StoreOp σ δ ε Q) ε α} {r : Except ε α}
    (hf : ∀ e, S.surfaces e → S.surfaces (f e)) (h : Reads S faulty R x r s) :
    Reads S faulty R (.mapError f x) (r.mapError f) s := by
  refine Leads.mapError hf (h.weaken (fun _ ht => ht) (fun a t _ hP => ?_) fun e t _ hX => ?_)
  · obtain ⟨hst, rfl⟩ := hP
    exact ⟨hst, rfl⟩
  · obtain ⟨hst, rfl⟩ := hX
    exact ⟨hst, rfl⟩

end Reads

namespace Storage
variable {S : Storage σ δ ε Q} {faulty : Prop}

/-- The store does not tell the processes apart. -/
theorem runs_any {p q : ℕ} {x : Prog (StoreOp σ δ ε Q) α} {s t : σ} {out : Option α}
    (h : Runs (S.kernel faulty) p x s out t) : Runs (S.kernel faulty) q x s out t := by
  induction h with
  | ret a s => exact .ret a s
  | exit c m s => exact .exit c m s
  | op hexec _ ih => exact .op hexec ih

theorem reaches_any {p q : ℕ} {x y : Prog (StoreOp σ δ ε Q) α} {s t : σ}
    (h : Reaches (S.kernel faulty) p x s y t) : Reaches (S.kernel faulty) q x s y t := by
  induction h with
  | here x s => exact .here x s
  | op hexec _ ih => exact .op hexec ih

end Storage

end Cyclo.Process
