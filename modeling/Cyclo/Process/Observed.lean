import Cyclo.Process.Locked
import Cyclo.Process.Storage

/-! What programs over a store do to the part of it that others observe, alone and under a lock. -/
namespace Cyclo.Process

variable {σ τ δ ε α β : Type} {Q : Type → Type}

/-- Alone from a store, `I` holds of what is observed of it at every operation of the program, `P`
where the program returns, and `X` where an exception leaves that is not one of a fault. -/
def Observed (S : Storage σ δ ε Q) (faulty : Prop) (view : σ → τ) (I : τ → Prop)
    (x : Raising (StoreOp σ δ ε Q) ε α) (P : α → τ → Prop) (X : τ → Prop) (w : τ) : Prop :=
  ∀ s : σ, view s = w →
    Leads S faulty (fun t => I (view t)) x (fun a t => P a (view t)) (fun _ t => X (view t)) s

namespace Observed
variable {S : Storage σ δ ε Q} {F : Prop} {view : σ → τ} {I X : τ → Prop} {P : α → τ → Prop} {w : τ}

theorem bind {x : Raising (StoreOp σ δ ε Q) ε β} {f : β → Raising (StoreOp σ δ ε Q) ε α}
    {M : β → τ → Prop} (h : Observed S F view I x M X w)
    (hf : ∀ b v, I v → M b v → Observed S F view I (f b) P X v) :
    Observed S F view I (x >>= f) P X w := by
  intro s hs
  exact Leads.bind (h s hs) (fun _ _ _ hX => hX) fun b t ht hM => hf b (view t) ht hM t rfl

theorem pure {a : α} (hI : I w) (h : P a w) :
    Observed S F view I (Pure.pure a : Raising (StoreOp σ δ ε Q) ε α) P X w := by
  intro s hs
  rw [← hs] at hI h
  exact Leads.pure hI h

theorem raise {e : ε} (hI : I w) (h : X w) :
    Observed S F view I (throw e : Raising (StoreOp σ δ ε Q) ε α) P X w := by
  intro s hs
  rw [← hs] at hI h
  exact Leads.raise hI h

theorem weaken {x : Raising (StoreOp σ δ ε Q) ε α} {P' : α → τ → Prop}
    (h : Observed S F view I x P X w) (hP : ∀ a v, I v → P a v → P' a v) :
    Observed S F view I x P' X w :=
  fun s hs => Leads.weaken (h s hs) (fun _ ht => ht) (fun a t ht ha => hP a (view t) ht ha)
    fun _ _ _ hX => hX

/-- What a value is computed from does not change. -/
theorem ofExcept {r : Except ε β} {f : β → Raising (StoreOp σ δ ε Q) ε α} (hI : I w)
    (hX : ∀ e, r = .error e → X w) (h : ∀ b, r = .ok b → Observed S F view I (f b) P X w) :
    Observed S F view I (.ofExcept r >>= f) P X w := by
  have hr : Observed S F view I (.ofExcept r) (fun b v => v = w ∧ r = .ok b) X w := by
    intro s hs
    rw [← hs] at hI hX
    exact Leads.ofExcept hI (fun b hb => ⟨hs, hb⟩) hX
  refine bind hr fun b v _ hv => ?_
  rw [hv.1]
  exact h b hv.2

theorem get {read : σ → β} (seen : τ → β) {f : β → Raising (StoreOp σ δ ε Q) ε α}
    (hread : ∀ s, read s = seen (view s)) (hI : I w) (h : Observed S F view I (f (seen w)) P X w) :
    Observed S F view I (Raising.perform (.get read) >>= f) P X w := by
  intro s hs
  rw [← hs] at hI
  refine Leads.get hI ?_
  rw [hread, hs]
  exact h s hs

/-- A question that can be answered in any way. -/
theorem ask {question : Q β} {f : β → Raising (StoreOp σ δ ε Q) ε α} (hI : I w)
    (hanswer : ∀ s, ∃ answer, S.answers question s answer)
    (h : ∀ answer, Observed S F view I (f answer) P X w) :
    Observed S F view I (Raising.perform (.ask question) >>= f) P X w := by
  intro s hs
  rw [← hs] at hI
  exact Leads.ask hI (hanswer s) fun answer _ => h answer s hs

theorem change {c : δ} {P : Unit → τ → Prop} (hI : I w)
    (h : ∀ s, view s = w → ∃ t, S.apply c s = some t ∧ I (view t) ∧ P () (view t)) :
    Observed S F view I (Raising.perform (.change c)) P X w := by
  intro s hs
  obtain ⟨t, happly, ht, hP⟩ := h s hs
  rw [← hs] at hI
  exact Leads.changeTo hI happly ht hP

/-- The cleanup keeps what is observed. -/
theorem protect {x : Raising (StoreOp σ δ ε Q) ε α} {cleanup : Raising (StoreOp σ δ ε Q) ε Unit}
    (h : Observed S F view I x P X w)
    (hcleanup : ∀ v, I v → Observed S F view I cleanup (fun _ u => v = u) (fun _ => False) v) :
    Observed S F view I (.protect x cleanup) P X w := by
  have hkept : ∀ (t : σ) (M : τ → Prop) (Y : ε → σ → Prop), I (view t) → M (view t) →
      Leads S F (fun t => I (view t)) cleanup (fun _ u => M (view u)) Y t := by
    intro t M Y hI hM
    refine Leads.weaken (hcleanup (view t) hI t rfl) (fun _ hu => hu) (fun _ u _ hsame => ?_)
      fun _ _ _ hX => hX.elim
    rw [← hsame]
    exact hM
  intro s hs
  exact Leads.protect (h s hs) (fun a t hI hP => hkept t (P a) _ hI hP)
    (fun e t hI hX => hkept t X _ hI hX) fun _ t hI => hkept t (fun _ => True) _ hI trivial

end Observed

variable {ι ρ : Type}

/-- What the calls do to what is observed: when they return, when they raise an exception of their
own, and wherever they are stopped. -/
structure Effects (ι ρ τ : Type) where
  takes : ι → τ → ρ → τ → Prop
  fails : ι → τ → τ → Prop
  passes : ι → τ → τ → Prop

namespace Effects
variable {S : Storage σ δ ε Q} {F : Prop} {view : σ → τ}

/-- What a section has done. Only with an exception of a fault does a call end after its first
effects without having returned. -/
def Took (E : Effects ι ρ τ) (faults : ε → Prop) (event : Event ι (Except ε ρ)) (w v : τ) : Prop :=
  match event.outcome with
  | some (.ok r) => E.takes event.call w r v
  | some (.error e) => E.fails event.call w v ∨ faults e ∧ E.passes event.call w v
  | none => E.passes event.call w v

/-- What is observed where the sections that are over have left `w`: the one in progress may have
come some way. -/
def Progress (E : Effects ι ρ τ) (view : σ → τ) (c : Locked (StoreOp σ δ ε Q) σ ι (Except ε ρ))
    (w : τ) : Prop :=
  match c.holder with
  | none => view c.shared = w
  | some (_, i, _) => E.passes i w (view c.shared)

/-- Calls that return or raise have come as far as a stopped one can come. -/
structure Covered (E : Effects ι ρ τ) : Prop where
  takes {i : ι} {w v : τ} {r : ρ} : E.takes i w r v → E.passes i w v
  fails {i : ι} {w v : τ} : E.fails i w v → E.passes i w v

/-- Each of the programs does alone what its call says. -/
def Sound (E : Effects ι ρ τ) (S : Storage σ δ ε Q) (faulty : Prop) (view : σ → τ)
    (program : ι → Raising (StoreOp σ δ ε Q) ε ρ) : Prop :=
  ∀ i w, Observed S faulty view (E.passes i w) (program i) (fun r v => E.takes i w r v) (E.fails i w) w

variable {E : Effects ι ρ τ} {program : ι → Raising (StoreOp σ δ ε Q) ε ρ}

theorem Sound.section_took (h : E.Sound S F view program) {event : Event ι (Except ε ρ)} {s t : σ}
    (hsection : Section (S.kernel F) (fun i => (program i).run) event s t) :
    E.Took (S.Blames F) event (view s) (view t) := by
  obtain ⟨p, i, outcome⟩ := event
  have hlead := h i (view s) s rfl
  unfold Took
  cases outcome with
  | none =>
    obtain ⟨rest, hreach⟩ := hsection
    exact hlead.reaches (Storage.reaches_any hreach)
  | some r =>
    have hrun : Runs (S.kernel F) 0 (program i).run s (some r) t := Storage.runs_any hsection
    cases r with
    | ok a => exact hlead.returns hrun
    | error e =>
      obtain ⟨y, hreach⟩ := hrun.reaches
      have hpasses : E.passes i (view s) (view t) := hlead.reaches hreach
      rcases hlead.raises hrun with hfault | hfails
      · exact Or.inr ⟨hfault, hpasses⟩
      · exact Or.inl hfails

theorem Covered.took (h : E.Covered) {faults : ε → Prop} {event : Event ι (Except ε ρ)} {w v : τ}
    (htook : E.Took faults event w v) :
    E.passes event.call w v := by
  obtain ⟨p, i, outcome⟩ := event
  cases outcome with
  | none => exact htook
  | some r =>
    cases r with
    | ok a => exact h.takes htook
    | error e => exact htook.elim h.fails And.right

theorem Sound.sections_took (h : E.Sound S F view program) {s t : σ}
    {history : List (Event ι (Except ε ρ))}
    (hserial : Serial (Section (S.kernel F) fun i => (program i).run) s history t) :
    Serial (E.Took (S.Blames F)) (view s) history (view t) := by
  have hstep : ∀ (event : Event ι (Except ε ρ)) (a b : σ),
      Section (S.kernel F) (fun i => (program i).run) event a b →
      E.Took (S.Blames F) event (view a) (view b) :=
    fun _ _ _ => h.section_took
  exact hserial.map hstep

/-- The sections of any interleaving take effect one after the other, and the one that is not over
yet has come some way from where they left what is observed. -/
theorem Sound.serial (h : E.Sound S F view program) {s : σ} {history : List (Event ι (Except ε ρ))}
    {c : Locked (StoreOp σ δ ε Q) σ ι (Except ε ρ)}
    (hrun : LockRuns (S.kernel F) (fun i => (program i).run) ⟨s, none⟩ history c) :
    ∃ w, Serial (E.Took (S.Blames F)) (view s) history w ∧ E.Progress view c w := by
  unfold Progress
  have hserial := LockRuns.serial hrun
  cases hholder : c.holder with
  | none =>
    rw [hholder] at hserial
    exact ⟨_, h.sections_took hserial, rfl⟩
  | some holder =>
    obtain ⟨p, i, x⟩ := holder
    rw [hholder] at hserial
    obtain ⟨u, hbefore, hreach⟩ := hserial
    refine ⟨view u, h.sections_took hbefore, ?_⟩
    have hlead := h i (view u) u rfl
    exact hlead.reaches (Storage.reaches_any hreach)

/-- The call in progress, before and after one more of its operations. -/
theorem Sound.operates (h : E.Sound S F view program) {s t u : σ}
    {history : List (Event ι (Except ε ρ))} {p : ℕ} {i : ι}
    {op : StoreOp σ δ ε Q β} {next : β → Prog (StoreOp σ δ ε Q) (Except ε ρ)} {r : β}
    (hrun : LockRuns (S.kernel F) (fun i => (program i).run) ⟨s, none⟩ history
      ⟨t, some (p, i, .op op next)⟩)
    (hexec : S.exec F op t r u) :
    ∃ w, Serial (E.Took (S.Blames F)) (view s) history w ∧ E.passes i w (view t) ∧
    E.passes i w (view u) := by
  have hserial := LockRuns.serial hrun
  dsimp only at hserial
  obtain ⟨v, hbefore, hreach⟩ := hserial
  have hlead := h i (view v) v rfl
  have hafter : Reaches (S.kernel F) p (program i).run v (next r) u := hreach.tail hexec
  refine ⟨view v, h.sections_took hbefore, ?_, ?_⟩
  · exact hlead.reaches (Storage.reaches_any hreach)
  · exact hlead.reaches (Storage.reaches_any hafter)

/-- What a call preserves wherever it is stopped holds in every state of every interleaving. -/
theorem Sound.invariant (h : E.Sound S F view program) (hcovered : E.Covered) {J : τ → Prop}
    (hstep : ∀ i a b, E.passes i a b → J a → J b) {s : σ} {history : List (Event ι (Except ε ρ))}
    {c : Locked (StoreOp σ δ ε Q) σ ι (Except ε ρ)}
    (hrun : LockRuns (S.kernel F) (fun i => (program i).run) ⟨s, none⟩ history c) (hs : J (view s)) :
    J (view c.shared) := by
  obtain ⟨w, hserial, hprogress⟩ := h.serial hrun
  have hevent : ∀ (event : Event ι (Except ε ρ)) a b, True → E.Took (S.Blames F) event a b →
      J a → J b :=
    fun event a b _ htook => hstep event.call a b (hcovered.took htook)
  have hw : J w := Serial.invariant hevent (fun _ _ => trivial) hs hserial
  unfold Progress at hprogress
  cases hholder : c.holder with
  | none =>
    rw [hholder] at hprogress
    have hsame : view c.shared = w := hprogress
    rw [hsame]
    exact hw
  | some holder =>
    obtain ⟨p, i, rest⟩ := holder
    rw [hholder] at hprogress
    exact hstep i w (view c.shared) hprogress hw

end Effects

end Cyclo.Process
