import Cyclo.AgentWs.Inversion

/-! Who owns a job: the lock and the agent of an active job, the alternation of claims and resets,
and the permanence of a terminal status. -/
namespace Cyclo.AgentWs
open Cyclo.Process

/-- `p` writes `claimed`, or `pending`, to the status of the job `id`. -/
def claimEvent (p : ℕ) (id : String) : ℕ × Event := (p, .wrote (.setStatus (.named id) .claimed))
def pendingEvent (p : ℕ) (id : String) : ℕ × Event := (p, .wrote (.setStatus (.named id) .pending))

/-- `p` is the last process that wrote `claimed` to the status of `id`. -/
def LastClaim (id : String) (trace : List (ℕ × Event)) (p : ℕ) : Prop :=
  ∃ later earlier, trace = later ++ claimEvent p id :: earlier ∧ ∀ q, claimEvent q id ∉ later

/-- Since the last claim of `id` its status has been set back to `pending`. -/
def Returned (id : String) (trace : List (ℕ × Event)) : Prop :=
  ∀ later earlier q, trace = later ++ claimEvent q id :: earlier → ∃ r, pendingEvent r id ∈ later

/-- Between two claims of `id` its status has been set back to `pending`. -/
def Alternates (id : String) (trace : List (ℕ × Event)) : Prop :=
  ∀ later mid earlier p q, trace = later ++ claimEvent p id :: (mid ++ claimEvent q id :: earlier) →
    ∃ r, pendingEvent r id ∈ mid

theorem LastClaim.cons {id : String} {trace : List (ℕ × Event)} {p : ℕ} {e : ℕ × Event}
    (h : LastClaim id trace p) (he : ∀ q, e ≠ claimEvent q id) : LastClaim id (e :: trace) p := by
  obtain ⟨later, earlier, rfl, hl⟩ := h
  refine ⟨e :: later, earlier, rfl, fun q hq => ?_⟩
  rcases List.mem_cons.1 hq with hq | hq
  · exact he q hq.symm
  · exact hl q hq

theorem LastClaim.head (id : String) (trace : List (ℕ × Event)) (p : ℕ) :
    LastClaim id (claimEvent p id :: trace) p :=
  ⟨[], trace, rfl, by simp⟩

theorem Returned.cons {id : String} {trace : List (ℕ × Event)} {e : ℕ × Event}
    (h : Returned id trace) (he : ∀ q, e ≠ claimEvent q id) : Returned id (e :: trace) := by
  intro later earlier q htrace
  cases later with
  | nil => exact absurd (List.cons.inj htrace).1 (he q)
  | cons a later =>
    obtain ⟨rfl, ht⟩ := List.cons.inj htrace
    obtain ⟨r, hr⟩ := h later earlier q ht
    exact ⟨r, List.mem_cons_of_mem _ hr⟩

theorem Returned.head (id : String) (trace : List (ℕ × Event)) (p : ℕ) :
    Returned id (pendingEvent p id :: trace) := by
  intro later earlier q htrace
  cases later with
  | nil => simp [pendingEvent, claimEvent] at htrace
  | cons a later =>
    obtain ⟨rfl, -⟩ := List.cons.inj htrace
    exact ⟨p, List.mem_cons_self⟩

theorem Returned.of_none {id : String} {trace : List (ℕ × Event)}
    (h : ∀ q, claimEvent q id ∉ trace) : Returned id trace := by
  rintro later earlier q rfl
  exact absurd (by simp) (h q)

theorem Alternates.cons {id : String} {trace : List (ℕ × Event)} {e : ℕ × Event}
    (h : Alternates id trace) (he : ∀ q, e = claimEvent q id → Returned id trace) :
    Alternates id (e :: trace) := by
  intro later mid earlier p q htrace
  cases later with
  | nil =>
    obtain ⟨rfl, rfl⟩ := List.cons.inj htrace
    exact he p rfl mid earlier q rfl
  | cons a later =>
    obtain ⟨rfl, ht⟩ := List.cons.inj htrace
    exact h later mid earlier p q ht

/-- What holds of the published job `id` and of the writes of its status. -/
structure Owned (cmd : ℕ → Command) (s : State) (id : String) : Prop where
  active : ∀ J st, s.files.job (.named id) = some J → J.status = some st → st.active = true →
    J.lock = some [] ∧ ∃ p agent, LastClaim id s.trace p ∧ (cmd p).claimant = some agent ∧
      J.agentId = some agent
  returned : ∀ J, s.files.job (.named id) = some J → J.status = some .pending → Returned id s.trace
  absent : s.files.job (.named id) = none → ∀ q, claimEvent q id ∉ s.trace
  alternates : Alternates id s.trace

namespace Owned
variable {S : Setting} {p : ℕ} {s s' : State} {id : String}

theorem start (S : Setting) (id : String) : Owned S.cmd S.start id where
  active J st hJ hst hact := by
    obtain ⟨a, -, -, -, rfl⟩ := S.fresh.job id J hJ
    cases hst
    cases hact
  returned J _ _ := .of_none (by simp [S.fresh.trace])
  absent _ := by simp [S.fresh.trace]
  alternates := by
    intro later mid earlier p q h
    simp [S.fresh.trace] at h

/-- A step that adds no claim of `id` keeps its ownership when the job's owner files are kept. -/
theorem of_kept (h : Owned S.cmd s id) {e : ℕ × Event}
    (ht : s'.trace = s.trace ∨ s'.trace = e :: s.trace ∧ ∀ q, e ≠ claimEvent q id)
    (absent : s'.files.job (.named id) = none → s.files.job (.named id) = none)
    (active : ∀ J' st, s'.files.job (.named id) = some J' → J'.status = some st →
      st.active = true → ∃ J st₀, s.files.job (.named id) = some J ∧ J.status = some st₀ ∧
        st₀.active = true ∧ J'.lock = J.lock ∧ J'.agentId = J.agentId)
    (pending : ∀ J', s'.files.job (.named id) = some J' → J'.status = some .pending →
      Returned id s'.trace ∨ ∃ J, s.files.job (.named id) = some J ∧ J.status = some .pending) :
    Owned S.cmd s' id where
  active J' st hJ' hst hact := by
    obtain ⟨J, st₀, hJ, hst₀, hact₀, hlock, hagent⟩ := active J' st hJ' hst hact
    obtain ⟨hl, q, agent, last, hq, ha⟩ := h.active J st₀ hJ hst₀ hact₀
    refine ⟨hlock.trans hl, q, agent, ?_, hq, hagent.trans ha⟩
    rcases ht with ht | ⟨ht, he⟩
    · rwa [ht]
    · rw [ht]
      exact last.cons he
  returned J' hJ' hst := by
    rcases pending J' hJ' hst with hr | ⟨J, hJ, hst₀⟩
    · exact hr
    · have hr := h.returned J hJ hst₀
      rcases ht with ht | ⟨ht, he⟩
      · rwa [ht]
      · rw [ht]
        exact hr.cons he
  absent hn q := by
    have hq := h.absent (absent hn) q
    rcases ht with ht | ⟨ht, he⟩
    · rwa [ht]
    · rw [ht]
      rintro hm
      rcases List.mem_cons.1 hm with hm | hm
      · exact he q hm.symm
      · exact hq hm
  alternates := by
    rcases ht with ht | ⟨ht, he⟩
    · rw [ht]
      exact h.alternates
    · rw [ht]
      exact h.alternates.cons fun q hq => absurd hq (he q)

/-- One file of the job changes. -/
theorem of_change (h : Owned S.cmd s id) {w : Write} {J J' : Job}
    (hJ : s.files.job (.named id) = some J)
    (hc : JobChange S.hexdigest S.cmd p s.files (.named id) J w J')
    (hJ' : s'.files.job (.named id) = some J') (ht : s'.trace = (p, .wrote w) :: s.trace) :
    Owned S.cmd s' id := by
  have here : ∀ {J₁}, s'.files.job (.named id) = some J₁ → J' = J₁ := by
    intro J₁ h₁
    exact Option.some.inj (hJ'.symm.trans h₁)
  -- changes of a job whose status stays inactive or that leave the owner files alone
  have other : (∀ q, ((p, .wrote w) : ℕ × Event) ≠ claimEvent q id) →
      (∀ st, J'.status = some st → st.active = true →
        ∃ st₀, J.status = some st₀ ∧ st₀.active = true ∧ J'.lock = J.lock ∧ J'.agentId = J.agentId) →
      (J'.status = some .pending → Returned id s'.trace ∨ J.status = some .pending) →
      Owned S.cmd s' id := by
    intro he hact hpend
    refine h.of_kept (Or.inr ⟨ht, he⟩) (by simp [hJ']) ?_ ?_
    · intro J₁ st h₁ hst ha
      obtain rfl := here h₁
      obtain ⟨st₀, hst₀, ha₀, hl, hg⟩ := hact st hst ha
      exact ⟨J, st₀, hJ, hst₀, ha₀, hl, hg⟩
    · intro J₁ h₁ hst
      obtain rfl := here h₁
      exact (hpend hst).imp_right fun hp => ⟨J, hJ, hp⟩
  cases hc with
  | @status st may =>
    cases st with
    | claimed =>
      obtain ⟨hst, hlock, ⟨agent, hagent, hcmd⟩, -⟩ := may
      refine ⟨?_, ?_, by simp [hJ'], ?_⟩
      · intro J₁ st h₁ _ _
        obtain rfl := here h₁
        refine ⟨hlock, p, agent, ?_, hcmd, hagent⟩
        rw [ht]
        exact .head id s.trace p
      · intro J₁ h₁ hp
        obtain rfl := here h₁
        cases hp
      · rw [ht]
        exact h.alternates.cons fun _ _ => h.returned J hJ hst
    | running =>
      refine other (by simp [claimEvent]) (fun st _ _ => ?_) (by rintro ⟨⟩)
      exact ⟨.claimed, may, rfl, rfl, rfl⟩
    | done | failed =>
      exact other (by simp [claimEvent]) (by rintro st ⟨⟩ ⟨⟩) (by rintro ⟨⟩)
    | pending =>
      refine other (by simp [claimEvent]) (by rintro st ⟨⟩ ⟨⟩) fun _ => Or.inl ?_
      rw [ht]
      exact .head id s.trace p
    | other text => exact may.elim
  | agentId agent hst | noAgentId hst | lock hst _ =>
    refine other (by simp [claimEvent]) (fun st hs ha => ?_) (fun _ => Or.inr hst)
    obtain rfl := Option.some.inj (hst.symm.trans hs)
    cases ha
  | unlock hst _ =>
    refine other (by simp [claimEvent]) (fun st hs ha => ?_) Or.inr
    rw [hst st hs] at ha
    cases ha
  | log r => exact other (by simp [claimEvent]) (fun st hs ha => ⟨st, hs, ha, rfl, rfl⟩) Or.inr

/-- Ownership is kept by every action. -/
theorem step (h : Owned S.cmd s id) (ha : S.act p s s') : Owned S.cmd s' id := by
  cases Setting.namedStep ha id with
  | kept hdata htrace =>
    have back : ∀ J', s'.files.job (.named id) = some J' → ∃ J, s.files.job (.named id) = some J ∧
        J'.data = J.data := by
      intro J' hJ'
      rw [hJ'] at hdata
      obtain ⟨J, hJ, hd⟩ := Option.map_eq_some_iff.1 hdata.symm
      exact ⟨J, hJ, hd.symm⟩
    refine h.of_kept (e := (s'.trace.headD (p, .locked .create))) ?_ ?_ ?_ ?_
    · rcases htrace with ht | ⟨e, ht, he⟩
      · exact Or.inl ht
      · refine Or.inr ⟨by simp [ht], fun q hq => ?_⟩
        rw [ht] at hq
        exact he _ (Prod.mk.inj hq).2 (by simp [Write.jobs])
    · intro hn
      rw [hn] at hdata
      exact Option.map_eq_none_iff.1 hdata.symm
    · intro J' st hJ' hst hact
      obtain ⟨J, hJ, hd⟩ := back J' hJ'
      simp only [Job.data, Job.mk.injEq] at hd
      exact ⟨J, st, hJ, hd.1 ▸ hst, hact, by simp_all, by simp_all⟩
    · intro J' hJ' hst
      obtain ⟨J, hJ, hd⟩ := back J' hJ'
      simp only [Job.data, Job.mk.injEq] at hd
      exact Or.inr ⟨J, hJ, hd.1 ▸ hst⟩
  | changed hold hc hJ' ht => exact h.of_change hold.present hc hJ' ht
  | @published w J hn hp hJ ht =>
    have hst : J.status = some .pending := by
      cases hp with
      | create => rfl
      | plan hp => exact hp.status
    have none : ∀ q, claimEvent q id ∉ s'.trace := by
      intro q hq
      rw [ht] at hq
      rcases List.mem_cons.1 hq with hq | hq
      · cases hp <;> simp [claimEvent] at hq
      · exact h.absent hn q hq
    refine ⟨fun J₁ st h₁ hs ha => ?_, fun _ _ _ => .of_none none, fun _ => none, ?_⟩
    · rw [hJ] at h₁
      cases h₁
      rw [hst] at hs
      cases hs
      cases ha
    · intro later mid earlier a b he
      exact absurd (by simp [he]) (none a)

end Owned

/-- The ownership invariant of every state the actions reach. -/
theorem Setting.Visited.owned {S : Setting} {s : State} (h : S.Visited s) (id : String) :
    Owned S.cmd s id :=
  Visits.invariant (I := fun s => Owned S.cmd s id) h (.start S id) fun _ hi ha => hi.step ha

/-- Published jobs and tasks only grow, whoever acts. -/
theorem Setting.act_grows {S : Setting} {p : ℕ} {s s' : State} (h : S.act p s s') :
    Interference (p + 1) s s' :=
  Action.interference (Nat.ne_of_lt (Nat.lt_succ_self p)) h

end Cyclo.AgentWs
