import Cyclo.Js.SafeInteger
import Cyclo.Pooler.Failover
import Cyclo.Process.RoundRobin

/-! Fairness of the pool scheduler over whole sessions: the calls that any number of attempts
make on one scheduler, in any order. -/
namespace Cyclo.Pooler
open Js Protocol Process

/-- A member that a call of `next` returned, with what the call was made on. -/
structure Selected where
  member : Str
  attempt : Attempt
  scheduler : Scheduler
  now : Number

inductive Call where
  | begin (eligibleMembers : Option (List Str))
  | next (i : ℕ) (now : Number)
  | markExhausted (i : ℕ) (retryAt : Option TimeValue)

/-- A scheduler with the attempts begun on it and the selections made for them. -/
structure Session where
  scheduler : Scheduler
  attempts : List Attempt
  selections : List Selected

def Session.initial : Session := ⟨.initial, [], []⟩

namespace Session
variable (pool : Pool)

/-- One call; a call that throws changes nothing. -/
def perform (s : Session) : Call → Session
  | .begin eligibleMembers =>
    match pool.start eligibleMembers with
    | .error _ => s
    | .ok attempt => { s with attempts := s.attempts ++ [attempt] }
  | .next i now =>
    match s.attempts[i]? with
    | none => s
    | some attempt =>
      match pool.next s.scheduler attempt now with
      | .error _ => s
      | .ok (.retryAt _, attempt', scheduler') =>
        { s with scheduler := scheduler', attempts := s.attempts.set i attempt' }
      | .ok (.member member, attempt', scheduler') =>
        ⟨scheduler', s.attempts.set i attempt',
          s.selections ++ [⟨member, attempt, s.scheduler, now⟩]⟩
  | .markExhausted i retryAt =>
    match s.attempts[i]? with
    | none => s
    | some attempt =>
      match Pool.markExhausted s.scheduler attempt retryAt with
      | .error _ => s
      | .ok (attempt', scheduler') =>
        { s with scheduler := scheduler', attempts := s.attempts.set i attempt' }

def run (calls : List Call) : Session := calls.foldl (perform pool) .initial

end Session

/-- The member's cooldown ends after the current time. -/
def Cooling (scheduler : Scheduler) (now : Number) (member : Str) : Prop :=
  now.lt (scheduler.cooldowns member).toNumber = true

instance (scheduler : Scheduler) (now : Number) (member : Str) :
    Decidable (Cooling scheduler now member) :=
  inferInstanceAs (Decidable (_ = true))

/-- Eligible for the attempt, not yet attempted by it and not cooling. -/
def Available (scheduler : Scheduler) (attempt : Attempt) (now : Number) (member : Str) : Prop :=
  member ∈ attempt.eligibleMembers ∧ member ∉ attempt.attempted ∧ ¬ Cooling scheduler now member

instance (scheduler : Scheduler) (attempt : Attempt) (now : Number) (member : Str) :
    Decidable (Available scheduler attempt now member) :=
  inferInstanceAs (Decidable (_ ∧ _))

/-- The selection as a round-robin choice, with what was available to it. -/
def Selected.choice (selected : Selected) : Str × (Str → Bool) :=
  (selected.member, fun member =>
    decide (Available selected.scheduler selected.attempt selected.now member))

/-- The position in cyclic order behind the last selection of a session. -/
def Session.turn (pool : Pool) (s : Session) : ℕ :=
  Process.turn pool.members (s.selections.map Selected.member)

namespace Pool
variable {pool : Pool} {scheduler scheduler' : Scheduler} {attempt attempt' : Attempt}
  {eligible attempted : List Str} {nowMs : TimeValue} {now : Number}

/-- A valid clock reads the same as a number and as a date. -/
theorem timestamp_lt {label : String} (h : timestamp now label = .ok nowMs) (date : TimeValue) :
    now.lt date.toNumber = true ↔ nowMs.ms < date.ms := by
  unfold timestamp at h
  split at h
  · rename_i hn hd
    cases h
    rw [Bool.and_eq_true] at hn
    have hvalue := (Number.value_of_isSafeInteger hn.1).1
    unfold dateOf at hd
    split_ifs at hd with hf
    rw [dateOfInt_eq_some] at hd
    have hms : now.value = nowMs.ms := by
      rw [hd, hvalue, truncate_intCast]
    have hlt : now.lt date.toNumber = decide (now.value < date.ms) := by
      cases now with
      | nan => cases hf
      | infinite negative => cases hf
      | negativeZero => rfl
      | finite value => rfl
    rw [hlt, hms, decide_eq_true_iff]
    norm_cast
  · cases h

theorem selectable_eq {label : String} (h : timestamp now label = .ok nowMs) :
    selectable scheduler attempt.eligibleMembers attempt.attempted nowMs =
      fun member => decide (Available scheduler attempt now member) := by
  funext member
  have hlt := timestamp_lt h (scheduler.cooldowns member)
  simp only [selectable, Available, Cooling, hlt, not_lt]
  rw [Bool.decide_and, Bool.decide_and, Bool.and_assoc]

/-- The offsets from the cursor pass the members in cyclic order. -/
theorem memberAt_positions (scheduler : Scheduler) :
    (List.range pool.members.length).map (fun offset =>
        pool.memberAt (pool.position scheduler offset)) =
      pool.members.rotate scheduler.cursor := by
  apply List.ext_getElem
  · simp
  · intro i h h'
    have hi : i < pool.members.length := by simpa using h
    have hpos : (i + scheduler.cursor) % pool.members.length < pool.members.length :=
      Nat.mod_lt _ (by omega)
    rw [List.getElem_rotate, List.getElem_map, List.getElem_range, memberAt, position,
      Nat.add_comm, List.getD_eq_getElem _ _ hpos]

theorem idxOf_memberAt (i : ℕ) :
    pool.members.idxOf (pool.memberAt (i % pool.members.length)) = i % pool.members.length := by
  have htwo := pool.two
  have hlt : i % pool.members.length < pool.members.length := Nat.mod_lt _ (by omega)
  rw [memberAt, List.getD_eq_getElem _ _ hlt]
  exact pool.distinct.idxOf_getElem _ hlt

/-- `select` takes the first selectable member in cyclic order from the cursor, and leaves the
cursor behind it. -/
theorem select_eq (scheduler : Scheduler) (eligible attempted : List Str) (nowMs : TimeValue) :
    pool.select scheduler eligible attempted nowMs =
      (firstFrom pool.members scheduler.cursor
        (selectable scheduler eligible attempted nowMs)).map fun member =>
          (member, { scheduler with
            cursor := (pool.members.idxOf member + 1) % pool.members.length }) := by
  unfold select firstFrom
  rw [← memberAt_positions]
  generalize List.range pool.members.length = offsets
  induction offsets with
  | nil => rfl
  | cons offset offsets ih =>
    rw [List.findSome?_cons, List.map_cons, List.find?_cons]
    dsimp only
    cases hs : selectable scheduler eligible attempted nowMs
        (pool.memberAt (pool.position scheduler offset)) with
    | true =>
      have hidx : pool.members.idxOf (pool.memberAt
          ((scheduler.cursor + offset) % pool.members.length)) =
          (scheduler.cursor + offset) % pool.members.length := idxOf_memberAt _
      rw [← position] at hidx
      rw [if_pos rfl, Option.map_some, hidx]
    | false =>
      rw [if_neg (by simp)]
      exact ih

/-- Some member of the pool is eligible, and no other. -/
def Eligible (pool : Pool) (attempt : Attempt) : Prop :=
  attempt.eligibleMembers ≠ [] ∧ ∀ member ∈ attempt.eligibleMembers, member ∈ pool.members

theorem start_eligible {value : Option (List Str)} (h : pool.start value = .ok attempt) :
    Eligible pool attempt := by
  unfold start eligibleMemberIds at h
  cases value with
  | none =>
    cases h
    have hne : pool.members ≠ [] := by
      intro hnil
      have htwo := pool.two
      rw [hnil] at htwo
      simp at htwo
    exact ⟨hne, fun _ hm => hm⟩
  | some value =>
    dsimp only at h
    split_ifs at h with hv
    · cases h
      exact ⟨hv.1, hv.2.1⟩
    · cases h

theorem markExhausted_keeps {retryAt : Option TimeValue}
    (h : markExhausted scheduler attempt retryAt = .ok (attempt', scheduler')) :
    attempt'.eligibleMembers = attempt.eligibleMembers ∧ scheduler'.cursor = scheduler.cursor := by
  unfold markExhausted at h
  split at h
  · cases h
  · rename_i member hsel
    cases ht : timestamp (getTime retryAt) "retry time" with
    | error thrown =>
      rw [ht] at h
      cases h
    | ok date =>
      rw [ht] at h
      cases h
      exact ⟨rfl, rfl⟩

theorem le_maxTimeValue (s t : TimeValue) : s.ms ≤ (maxTimeValue s t).ms := by
  unfold maxTimeValue
  split_ifs <;> omega

theorem markExhausted_cooldowns {retryAt : Option TimeValue} {result : Attempt × Scheduler}
    (h : markExhausted scheduler attempt retryAt = .ok result) (member : Str) :
    (scheduler.cooldowns member).ms ≤ (result.2.cooldowns member).ms := by
  unfold markExhausted at h
  split at h
  · cases h
  · rename_i selected hsel
    cases ht : timestamp (getTime retryAt) "retry time" with
    | error thrown =>
      rw [ht] at h
      cases h
    | ok date =>
      rw [ht] at h
      cases h
      dsimp only
      by_cases hm : member = selected
      · rw [hm, cool_self]
        exact le_maxTimeValue ..
      · rw [cool_of_ne date hm]

/-- What an answer of `next` says about the members available to the attempt. -/
def Answers (pool : Pool) (scheduler : Scheduler) (attempt : Attempt) (now : Number) :
    Except Thrown (Selection × Attempt × Scheduler) → Prop
  | .ok (.member member, attempt', scheduler') =>
    firstFrom pool.members scheduler.cursor
        (fun member => decide (Available scheduler attempt now member)) = some member ∧
      attempt'.eligibleMembers = attempt.eligibleMembers ∧
      scheduler' = { scheduler with
        cursor := (pool.members.idxOf member + 1) % pool.members.length }
  | .ok (.retryAt _, attempt', scheduler') =>
    (∀ member, ¬ Available scheduler attempt now member) ∧ attempt' = attempt ∧
      scheduler' = scheduler
  | .error _ => attempt.selected ≠ none ∨ ∃ thrown, timestamp now "current time" = .error thrown

theorem next_answers (scheduler : Scheduler) (now : Number) (h : Eligible pool attempt) :
    Answers pool scheduler attempt now (pool.next scheduler attempt now) := by
  cases hsel : attempt.selected with
  | some member =>
    have hn : pool.next scheduler attempt now =
        .error (.error "selected member must be marked exhausted before selecting another") := by
      simp [next, hsel, throw, throwThe, MonadExceptOf.throw, bind, Except.bind]
    rw [hn]
    exact .inl (by simp [hsel])
  | none =>
    cases ht : timestamp now "current time" with
    | error thrown =>
      have hn : pool.next scheduler attempt now = .error thrown := by
        simp [next, hsel, ht, bind, Except.bind]
      rw [hn]
      exact .inr ⟨thrown, ht⟩
    | ok nowMs =>
      have hselect : pool.select scheduler attempt.eligibleMembers attempt.attempted nowMs = _ :=
        select_eq scheduler attempt.eligibleMembers attempt.attempted nowMs
      rw [selectable_eq ht] at hselect
      cases hf : firstFrom pool.members scheduler.cursor
          (fun member => decide (Available scheduler attempt now member)) with
      | some member =>
        rw [hf, Option.map_some] at hselect
        simp [next, hsel, ht, hselect, bind, Except.bind, pure, Except.pure, Answers, hf]
      | none =>
        rw [hf, Option.map_none] at hselect
        have hall : ∀ member, ¬ Available scheduler attempt now member := by
          intro member ha
          have hm := firstFrom_eq_none.mp hf member (h.2 member ha.1)
          exact absurd ha (of_decide_eq_false hm)
        rcases next_cases scheduler now hsel h.1 h.2 with
          ⟨message, -, hn⟩ | ⟨-, member, s, -, -, -, -, -, hn⟩ | ⟨_, retryAt, -, -, -, -, hn⟩
        · simp [next, hsel, ht, hselect, bind, Except.bind, pure, Except.pure] at hn
          split at hn <;> cases hn
        · simp [next, hsel, ht, hselect, bind, Except.bind, pure, Except.pure] at hn
          split at hn <;> cases hn
        · rw [hn]
          exact ⟨hall, rfl, rfl⟩

end Pool

namespace Session
variable {pool : Pool} {s : Session}

/-- The invariant of a session: the cursor stands behind the last selection, and every selection
was the first available member from where the cursor stood then. -/
structure Sound (pool : Pool) (s : Session) : Prop where
  eligible : ∀ attempt ∈ s.attempts, Pool.Eligible pool attempt
  cursor : s.scheduler.cursor = s.turn pool % pool.members.length
  inTurn : InTurn pool.members (s.selections.map Selected.choice)

theorem sound_initial : Sound pool .initial where
  eligible := by
    intro attempt ha
    cases ha
  cursor := (Nat.zero_mod _).symm
  inTurn := inTurn_nil pool.members

theorem Sound.firstFrom_cursor (h : Sound pool s) (suitable : Str → Bool) :
    firstFrom pool.members s.scheduler.cursor suitable =
      firstFrom pool.members (s.turn pool) suitable := by
  rw [h.cursor, firstFrom_mod]

theorem eligible_set {attempts : List Attempt} {i : ℕ} {attempt attempt' : Attempt}
    (h : ∀ attempt ∈ attempts, Pool.Eligible pool attempt) (hi : attempts[i]? = some attempt)
    (he : attempt'.eligibleMembers = attempt.eligibleMembers) :
    ∀ attempt ∈ attempts.set i attempt', Pool.Eligible pool attempt := by
  intro a ha
  rcases List.mem_or_eq_of_mem_set ha with ha | rfl
  · exact h a ha
  · have hold := h attempt (List.mem_of_getElem? hi)
    unfold Pool.Eligible at hold ⊢
    rwa [he]

theorem map_choice_fst (selections : List Selected) :
    (selections.map Selected.choice).map Prod.fst = selections.map Selected.member := by
  rw [List.map_map]
  rfl

theorem Sound.next (h : Sound pool s) (i : ℕ) (now : Number) :
    Sound pool (perform pool s (.next i now)) := by
  unfold perform
  dsimp only
  cases hi : s.attempts[i]? with
  | none => exact h
  | some attempt =>
    have hanswer := Pool.next_answers s.scheduler now
      (h.eligible attempt (List.mem_of_getElem? hi))
    dsimp only
    cases hn : pool.next s.scheduler attempt now with
    | error thrown => exact h
    | ok result =>
      rw [hn] at hanswer
      obtain ⟨selection, attempt', scheduler'⟩ := result
      cases selection with
      | retryAt date =>
        obtain ⟨-, hsame, hscheduler⟩ := hanswer
        constructor
        · exact eligible_set h.eligible hi (by rw [hsame])
        · dsimp only
          rw [hscheduler]
          exact h.cursor
        · exact h.inTurn
      | member member =>
        obtain ⟨hfirst, hsame, hscheduler⟩ := hanswer
        constructor
        · exact eligible_set h.eligible hi hsame
        · dsimp only
          rw [hscheduler]
          simp [turn]
        · rw [h.firstFrom_cursor] at hfirst
          dsimp only
          rw [List.map_append, List.map_singleton]
          apply h.inTurn.concat
          rw [map_choice_fst]
          exact hfirst

theorem Sound.perform (h : Sound pool s) (call : Call) : Sound pool (perform pool s call) := by
  cases call with
  | next i now => exact h.next i now
  | begin eligibleMembers =>
    unfold Session.perform
    dsimp only
    cases hs : pool.start eligibleMembers with
    | error thrown => exact h
    | ok attempt =>
      refine ⟨?_, h.cursor, h.inTurn⟩
      intro a ha
      rcases List.mem_append.mp ha with ha | ha
      · exact h.eligible a ha
      · rw [List.mem_singleton.mp ha]
        exact Pool.start_eligible hs
  | markExhausted i retryAt =>
    unfold Session.perform
    dsimp only
    cases hi : s.attempts[i]? with
    | none => exact h
    | some attempt =>
      dsimp only
      cases hm : Pool.markExhausted s.scheduler attempt retryAt with
      | error thrown => exact h
      | ok result =>
        obtain ⟨attempt', scheduler'⟩ := result
        obtain ⟨hsame, hcursor⟩ := Pool.markExhausted_keeps hm
        refine ⟨eligible_set h.eligible hi hsame, ?_, h.inTurn⟩
        dsimp only
        rw [hcursor]
        exact h.cursor

theorem sound_run (pool : Pool) (calls : List Call) : Sound pool (run pool calls) := by
  unfold run
  induction calls using List.reverseRecOn with
  | nil => exact sound_initial
  | append_singleton calls call ih =>
    rw [List.foldl_append]
    exact ih.perform call

theorem cooldowns_perform (pool : Pool) (s : Session) (hs : Sound pool s) (call : Call)
    (member : Str) : (s.scheduler.cooldowns member).ms ≤
      ((Session.perform pool s call).scheduler.cooldowns member).ms := by
  cases call with
  | begin eligibleMembers =>
    unfold Session.perform
    dsimp only
    split <;> exact le_rfl
  | next i now =>
    unfold Session.perform
    dsimp only
    cases hi : s.attempts[i]? with
    | none => exact le_rfl
    | some attempt =>
      have hanswer := Pool.next_answers s.scheduler now
        (hs.eligible attempt (List.mem_of_getElem? hi))
      dsimp only
      cases hn : pool.next s.scheduler attempt now with
      | error thrown => exact le_rfl
      | ok result =>
        rw [hn] at hanswer
        obtain ⟨selection, attempt', scheduler'⟩ := result
        cases selection with
        | retryAt date =>
          dsimp only
          rw [hanswer.2.2]
        | member selected =>
          dsimp only
          rw [hanswer.2.2]
  | markExhausted i retryAt =>
    unfold Session.perform
    dsimp only
    cases hi : s.attempts[i]? with
    | none => exact le_rfl
    | some attempt =>
      dsimp only
      cases hm : Pool.markExhausted s.scheduler attempt retryAt with
      | error thrown => exact le_rfl
      | ok result => exact Pool.markExhausted_cooldowns hm member

theorem cooldowns_run (pool : Pool) (calls more : List Call) (member : Str) :
    ((run pool calls).scheduler.cooldowns member).ms ≤
      ((run pool (calls ++ more)).scheduler.cooldowns member).ms := by
  induction more using List.reverseRecOn with
  | nil => rw [List.append_nil]
  | append_singleton more call ih =>
    have hstep := cooldowns_perform pool _ (sound_run pool (calls ++ more)) call member
    have hrun : run pool (calls ++ (more ++ [call])) =
        Session.perform pool (run pool (calls ++ more)) call := by
      unfold run
      rw [← List.append_assoc, List.foldl_concat]
    rw [hrun]
    exact ih.trans hstep

/-- Every member is eligible for the selection and none is cooling at it. -/
def Unrestricted (pool : Pool) (selected : Selected) : Prop :=
  ∀ member ∈ pool.members, member ∈ selected.attempt.eligibleMembers ∧
    ¬ Cooling selected.scheduler selected.now member

instance (selected : Selected) : Decidable (Unrestricted pool selected) :=
  inferInstanceAs (Decidable (∀ member ∈ _, _))

/-- The first selection of its attempt. -/
def First (selected : Selected) : Prop := selected.attempt.attempted = []

instance (selected : Selected) : Decidable (First selected) := inferInstanceAs (Decidable (_ = []))

/-- For an unrestricted first selection every member is available. -/
theorem available_of_first {selected : Selected} (hu : Unrestricted pool selected)
    (hf : First selected) {member : Str} (hm : member ∈ pool.members) :
    selected.choice.2 member = true := by
  unfold First at hf
  have havailable : Available selected.scheduler selected.attempt selected.now member := by
    refine ⟨(hu member hm).1, ?_, (hu member hm).2⟩
    rw [hf]
    exact List.not_mem_nil
  exact decide_eq_true havailable

theorem first_window (h : Sound pool s) {before window after : List Selected}
    (heq : s.selections = before ++ window ++ after)
    (hlen : window.length = pool.members.length)
    (hall : ∀ selected ∈ window, First selected ∧ Unrestricted pool selected) :
    (window.map Selected.member).Perm pool.members := by
  have hturn := h.inTurn
  rw [heq, List.map_append, List.map_append] at hturn
  rw [← map_choice_fst]
  apply hturn.round pool.distinct
  · rw [List.length_map, hlen]
  · intro entry he member hm
    obtain ⟨selected, hselected, rfl⟩ := List.mem_map.mp he
    exact available_of_first (hall selected hselected).2 (hall selected hselected).1 hm

/-- After any calls: cooldowns only grow, the next selection is the first available member in
cyclic order after the last one, nothing is selected only if no member is available, and as many
consecutive first selections as there are members reach each member once. -/
theorem scheduler_fairness (pool : Pool) (calls : List Call) :
    (∀ more member, ((run pool calls).scheduler.cooldowns member).ms ≤
      ((run pool (calls ++ more)).scheduler.cooldowns member).ms) ∧
    (∀ (i : ℕ) attempt now, (run pool calls).attempts[i]? = some attempt →
      match pool.next (run pool calls).scheduler attempt now with
      | .ok (.member member, _, _) =>
        Available (run pool calls).scheduler attempt now member ∧
          firstFrom pool.members ((run pool calls).turn pool) (fun member =>
            decide (Available (run pool calls).scheduler attempt now member)) = some member
      | .ok (.retryAt _, _, _) =>
        ∀ member, ¬ Available (run pool calls).scheduler attempt now member
      | .error _ =>
        attempt.selected ≠ none ∨ ∃ thrown, timestamp now "current time" = .error thrown) ∧
    ∀ before window after, (run pool calls).selections = before ++ window ++ after →
      window.length = pool.members.length →
      (∀ selected ∈ window, First selected ∧ Unrestricted pool selected) →
      (window.map Selected.member).Perm pool.members := by
  have hsound := sound_run pool calls
  refine ⟨fun more => cooldowns_run pool calls more, ?_, ?_⟩
  · intro i attempt now hi
    have hanswer := Pool.next_answers (run pool calls).scheduler now
      (hsound.eligible attempt (List.mem_of_getElem? hi))
    cases hn : pool.next (run pool calls).scheduler attempt now with
    | error thrown =>
      rw [hn] at hanswer
      exact hanswer
    | ok result =>
      rw [hn] at hanswer
      obtain ⟨selection, attempt', scheduler'⟩ := result
      cases selection with
      | retryAt date => exact hanswer.1
      | member member =>
        have hfirst := hanswer.1
        rw [hsound.firstFrom_cursor] at hfirst
        exact ⟨of_decide_eq_true (firstFrom_eq_some hfirst).2, hfirst⟩
  · intro before window after heq hlen hall
    exact first_window hsound heq hlen hall

/-- A request that retries between the first selections of two others. -/
def retriedCalls : List Call := [
  .begin none, .begin none,
  .next 0 (.finite 10),
  .markExhausted 0 (some ⟨5, by decide⟩),
  .next 0 (.finite 10),
  .next 1 (.finite 10)]

/-- The retry also moves the cursor, so that both first selections take the same member. -/
theorem first_selections_repeat :
    ¬ ∀ (pool : Pool) (calls : List Call) (before stretch after : List Selected),
      (run pool calls).selections = before ++ stretch ++ after →
      (∀ selected ∈ stretch, Unrestricted pool selected) →
      (stretch.filter fun selected => First selected).length = pool.members.length →
      ((stretch.filter fun selected => First selected).map Selected.member).Perm
        pool.members := by
  intro h
  have hperm := h pairPool retriedCalls [] (run pairPool retriedCalls).selections [] (by simp)
    (by decide +kernel) (by decide +kernel)
  exact absurd hperm (by decide +kernel)

end Session
end Cyclo.Pooler
