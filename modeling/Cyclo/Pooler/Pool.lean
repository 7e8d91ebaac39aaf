import Cyclo.Js.Text
import Cyclo.Protocol.Errors
import Mathlib.Data.List.GetD
import Mathlib.Logic.Function.Basic

/-! The pool scheduler: a round-robin cursor and cooldowns that all requests share, and the
attempt of one request. -/
namespace Cyclo.Pooler
open Js Protocol

/-- The members of a pool, as `memberIds` accepts them. -/
structure Pool where
  members : List Str
  two : 2 ≤ members.length
  named : ∀ member ∈ members, member ≠ []
  distinct : members.Nodup

def memberIds (value : List Str) : Except Thrown Pool :=
  if h : 2 ≤ value.length ∧ (∀ member ∈ value, member ≠ []) ∧ value.Nodup then
    .ok ⟨value, h.1, h.2.1, h.2.2⟩
  else .error (.typeError "pool members must be at least two distinct non-empty strings")

/-- `timestamp(value, label)` of a number, or of the `getTime()` of a date. -/
def timestamp (milliseconds : Number) (label : String) : Except Thrown TimeValue :=
  match milliseconds.isSafeInteger && !milliseconds.lt (.finite 0), dateOf milliseconds with
  | true, some date => .ok date
  | _, _ => .error (.typeError (label ++ " must be a valid absolute timestamp"))

/-- `getTime()`; an invalid date has none. -/
def getTime : Option TimeValue → Number
  | some date => date.toNumber
  | none => .nan

def epoch : TimeValue := ⟨0, TimeValue.zero_inRange⟩

/-- The state of a `PoolScheduler`; a cooldown of zero is none. -/
structure Scheduler where
  cursor : ℕ
  cooldowns : Str → TimeValue

def Scheduler.initial : Scheduler := ⟨0, fun _ => epoch⟩

/-- The attempt of one request, its eligible members already validated. -/
structure Attempt where
  eligibleMembers : List Str
  attempted : List Str
  selected : Option Str

inductive Selection where
  | member (memberModelId : Str)
  | retryAt (date : TimeValue)

def maxTimeValue (s t : TimeValue) : TimeValue := if s.ms < t.ms then t else s

def minTimeValue (s t : TimeValue) : TimeValue := if t.ms < s.ms then t else s

/-- `earliest === undefined ? retryAt : Math.min(earliest, retryAt)` -/
def leastOf : Option TimeValue → TimeValue → TimeValue
  | none, retryAt => retryAt
  | some earliest, retryAt => minTimeValue earliest retryAt

namespace Pool
variable (pool : Pool)

def eligibleMemberIds (value : Option (List Str)) : Except Thrown (List Str) :=
  match value with
  | none => .ok pool.members
  | some value =>
    if value ≠ [] ∧ (∀ member ∈ value, member ∈ pool.members) ∧ value.Nodup then .ok value
    else .error
      (.typeError "eligible pool members must be distinct members of the configured pool")

/-- `begin(eligibleMembers)`. -/
def start (value : Option (List Str)) : Except Thrown Attempt :=
  (pool.eligibleMemberIds value).map fun eligible => ⟨eligible, [], none⟩

/-- The member at an offset from the cursor. -/
def position (scheduler : Scheduler) (offset : ℕ) : ℕ :=
  (scheduler.cursor + offset) % pool.members.length

def memberAt (position : ℕ) : Str := pool.members.getD position []

def selectable (scheduler : Scheduler) (eligible attempted : List Str) (nowMs : TimeValue)
    (member : Str) : Bool :=
  member ∈ eligible && member ∉ attempted && (scheduler.cooldowns member).ms ≤ nowMs.ms

/-- The first selectable member from the cursor on, which then moves behind it. -/
def select (scheduler : Scheduler) (eligible attempted : List Str) (nowMs : TimeValue) :
    Option (Str × Scheduler) :=
  (List.range pool.members.length).findSome? fun offset =>
    let position := pool.position scheduler offset
    let member := pool.memberAt position
    if selectable scheduler eligible attempted nowMs member then
      some (member, { scheduler with cursor := (position + 1) % pool.members.length })
    else none

def cool (scheduler : Scheduler) (member : Str) (retryAt : TimeValue) : Scheduler :=
  { scheduler with
    cooldowns := Function.update scheduler.cooldowns member
      (maxTimeValue (scheduler.cooldowns member) retryAt) }

/-- One turn of the loop over the members in `earliestRetry`. -/
def earlier (scheduler : Scheduler) (eligible attempted : List Str) (earliest : Option TimeValue)
    (member : Str) : Option TimeValue :=
  if member ∉ eligible then earliest
  else if member ∉ attempted ∧ (scheduler.cooldowns member).ms = 0 then earliest
  else some (leastOf earliest (scheduler.cooldowns member))

def earliestRetry (scheduler : Scheduler) (eligible attempted : List Str) : Option TimeValue :=
  pool.members.foldl (earlier scheduler eligible attempted) none

/-- `next(now)`. -/
def next (scheduler : Scheduler) (attempt : Attempt) (now : Number) :
    Except Thrown (Selection × Attempt × Scheduler) := do
  if attempt.selected.isSome then
    throw (.error "selected member must be marked exhausted before selecting another")
  let nowMs ← timestamp now "current time"
  match pool.select scheduler attempt.eligibleMembers attempt.attempted nowMs with
  | some (member, scheduler) =>
    return (.member member,
      { attempt with attempted := attempt.attempted ++ [member], selected := some member },
      scheduler)
  | none =>
    match pool.earliestRetry scheduler attempt.eligibleMembers attempt.attempted with
    | none => throw (.error "pool attempt has no selectable or exhausted member")
    | some retryAt => return (.retryAt retryAt, attempt, scheduler)

/-- `markExhausted(retryAt)`. -/
def markExhausted (scheduler : Scheduler) (attempt : Attempt) (retryAt : Option TimeValue) :
    Except Thrown (Attempt × Scheduler) :=
  match attempt.selected with
  | none => throw (.error "no selected member to mark exhausted")
  | some member => do
    let retryAt ← timestamp (getTime retryAt) "retry time"
    return ({ attempt with selected := none }, cool scheduler member retryAt)

variable {pool} {scheduler scheduler' : Scheduler} {attempt attempt' : Attempt}
  {eligible attempted : List Str} {nowMs : TimeValue}

@[simp] theorem cool_self (member : Str) (retryAt : TimeValue) :
    (cool scheduler member retryAt).cooldowns member =
      maxTimeValue (scheduler.cooldowns member) retryAt :=
  Function.update_self ..

theorem cool_of_ne {member other : Str} (retryAt : TimeValue) (h : other ≠ member) :
    (cool scheduler member retryAt).cooldowns other = scheduler.cooldowns other :=
  Function.update_of_ne h ..

theorem memberAt_mem (i : ℕ) : pool.memberAt (i % pool.members.length) ∈ pool.members := by
  have hpos : 0 < pool.members.length := by
    have := pool.two
    omega
  have hlt := Nat.mod_lt i hpos
  rw [memberAt, List.getD_eq_getElem _ _ hlt]
  exact List.getElem_mem hlt

/-- The offsets reach every member, wherever the cursor stands. -/
theorem exists_offset (scheduler : Scheduler) {member : Str} (h : member ∈ pool.members) :
    ∃ offset ∈ List.range pool.members.length,
      pool.memberAt (pool.position scheduler offset) = member := by
  obtain ⟨i, hi, rfl⟩ := List.getElem_of_mem h
  set n := pool.members.length with hn
  have hmod : scheduler.cursor % n < n := Nat.mod_lt _ (by omega)
  refine ⟨(i + n - scheduler.cursor % n) % n, List.mem_range.mpr (Nat.mod_lt _ (by omega)), ?_⟩
  have hpos : pool.position scheduler ((i + n - scheduler.cursor % n) % n) = i := by
    unfold position
    rw [← hn, Nat.add_mod_mod, ← Nat.mod_add_mod,
      show scheduler.cursor % n + (i + n - scheduler.cursor % n) = i + n by omega,
      Nat.add_mod_right, Nat.mod_eq_of_lt hi]
  rw [hpos, memberAt, List.getD_eq_getElem _ _ hi]

theorem select_eq_none : pool.select scheduler eligible attempted nowMs = none ↔
    ∀ member ∈ pool.members, member ∈ eligible →
      member ∈ attempted ∨ nowMs.ms < (scheduler.cooldowns member).ms := by
  unfold select
  rw [List.findSome?_eq_none_iff]
  constructor
  · intro h member hm he
    obtain ⟨offset, ho, rfl⟩ := exists_offset scheduler hm
    have hs := h offset ho
    by_contra hno
    rw [not_or, not_lt] at hno
    simp [selectable, he, hno.1, hno.2] at hs
  · intro h offset ho
    dsimp only
    split_ifs with hs
    · simp only [selectable, Bool.and_eq_true, decide_eq_true_eq] at hs
      rcases h _ (memberAt_mem _) hs.1.1 with ha | hc
      · exact absurd ha hs.1.2
      · exact absurd hs.2 (not_le.mpr hc)
    · rfl

theorem select_eq_some {member : Str}
    (h : pool.select scheduler eligible attempted nowMs = some (member, scheduler')) :
    member ∈ pool.members ∧ member ∈ eligible ∧ member ∉ attempted ∧
      (scheduler.cooldowns member).ms ≤ nowMs.ms ∧
      scheduler'.cooldowns = scheduler.cooldowns := by
  obtain ⟨offset, -, hs⟩ := List.exists_of_findSome?_eq_some h
  dsimp only at hs
  split_ifs at hs with hsel
  cases hs
  simp only [selectable, Bool.and_eq_true, decide_eq_true_eq] at hsel
  exact ⟨memberAt_mem _, hsel.1.1, hsel.1.2, hsel.2, rfl⟩

/-- Members whose cooldown counts for the retry time. -/
def Counts (scheduler : Scheduler) (eligible attempted : List Str) (member : Str) : Prop :=
  member ∈ eligible ∧ (member ∈ attempted ∨ (scheduler.cooldowns member).ms ≠ 0)

/-- The least cooldown that counts among some members, nothing when none counts. -/
def IsEarliest (scheduler : Scheduler) (eligible attempted members : List Str) :
    Option TimeValue → Prop
  | none => ∀ member ∈ members, ¬ Counts scheduler eligible attempted member
  | some date =>
    (∃ member ∈ members, Counts scheduler eligible attempted member ∧
        date = scheduler.cooldowns member) ∧
      ∀ member ∈ members, Counts scheduler eligible attempted member →
        date.ms ≤ (scheduler.cooldowns member).ms

theorem IsEarliest.skip {members : List Str} {member : Str} {earliest : Option TimeValue}
    (h : IsEarliest scheduler eligible attempted members earliest)
    (hno : ¬ Counts scheduler eligible attempted member) :
    IsEarliest scheduler eligible attempted (members ++ [member]) earliest := by
  have hmem : ∀ m ∈ members ++ [member], Counts scheduler eligible attempted m → m ∈ members := by
    intro m hm hc
    rcases List.mem_append.mp hm with hm | hm
    · exact hm
    · rw [List.mem_singleton.mp hm] at hc
      exact absurd hc hno
  cases earliest with
  | none => exact fun m hm hc => h m (hmem m hm hc) hc
  | some date =>
    obtain ⟨⟨m, hm, hrest⟩, hle⟩ := h
    exact ⟨⟨m, by simp [hm], hrest⟩, fun m' hm' hc => hle m' (hmem m' hm' hc) hc⟩

theorem IsEarliest.count {members : List Str} {member : Str} {earliest : Option TimeValue}
    (h : IsEarliest scheduler eligible attempted members earliest)
    (hc : Counts scheduler eligible attempted member) :
    IsEarliest scheduler eligible attempted (members ++ [member])
      (some (leastOf earliest (scheduler.cooldowns member))) := by
  cases earliest with
  | none =>
    refine ⟨⟨member, by simp, hc, rfl⟩, ?_⟩
    intro m hm hcm
    rcases List.mem_append.mp hm with hm | hm
    · exact absurd hcm (h m hm)
    · rw [List.mem_singleton.mp hm, leastOf]
  | some date =>
    obtain ⟨⟨m, hm, hmc, hmd⟩, hle⟩ := h
    rw [leastOf, minTimeValue]
    split_ifs with hlt
    · refine ⟨⟨member, by simp, hc, rfl⟩, ?_⟩
      intro m' hm' hc'
      rcases List.mem_append.mp hm' with hm' | hm'
      · exact hlt.le.trans (hle m' hm' hc')
      · rw [List.mem_singleton.mp hm']
    · refine ⟨⟨m, by simp [hm], hmc, hmd⟩, ?_⟩
      intro m' hm' hc'
      rcases List.mem_append.mp hm' with hm' | hm'
      · exact hle m' hm' hc'
      · rw [List.mem_singleton.mp hm']
        exact not_lt.mp hlt

theorem isEarliest_earlier {members : List Str} {member : Str} {earliest : Option TimeValue}
    (h : IsEarliest scheduler eligible attempted members earliest) :
    IsEarliest scheduler eligible attempted (members ++ [member])
      (earlier scheduler eligible attempted earliest member) := by
  unfold earlier
  split_ifs with he hz
  · refine h.skip ?_
    rintro ⟨-, ha | hc⟩
    · exact hz.1 ha
    · exact hc hz.2
  · refine h.count ⟨he, ?_⟩
    by_contra hno
    rw [not_or, not_not] at hno
    exact hz hno
  · exact h.skip fun hc => he hc.1

theorem earliestRetry_spec (pool : Pool) (scheduler : Scheduler) (eligible attempted : List Str) :
    IsEarliest scheduler eligible attempted pool.members
      (pool.earliestRetry scheduler eligible attempted) := by
  unfold earliestRetry
  -- over the members already passed
  induction pool.members using List.reverseRecOn with
  | nil =>
    intro member hm
    cases hm
  | append_singleton members member ih =>
    rw [List.foldl_append]
    exact isEarliest_earlier ih

theorem timestamp_getTime {date : TimeValue} {label : String} (h : 0 ≤ date.ms) :
    timestamp (getTime (some date)) label = .ok date := by
  have hb := date.bounds
  unfold maxTime at hb
  have hsafe : date.toNumber.isSafeInteger = true := by
    have habs : |(date.ms : ℚ)| < 2 ^ 53 := by
      rw [abs_of_nonneg (by exact_mod_cast h)]
      exact_mod_cast (show date.ms < 2 ^ 53 by omega)
    simp [Number.isSafeInteger, Number.isInteger, TimeValue.toNumber, Number.isFinite,
      Number.value, habs]
  have hlt : date.toNumber.lt (.finite 0) = false := by
    simpa [TimeValue.toNumber, Number.lt, Number.value] using h
  simp only [timestamp, getTime]
  rw [hsafe, hlt]
  simp [TimeValue.toNumber, dateOf_intCast]

theorem timestamp_eq_ok {milliseconds : Number} {label : String} {date : TimeValue}
    (h : timestamp milliseconds label = .ok date) : 0 ≤ date.ms := by
  unfold timestamp at h
  split at h
  · rename_i hn hd
    cases h
    rw [Bool.and_eq_true, Bool.not_eq_true'] at hn
    unfold dateOf at hd
    split_ifs at hd with hf
    rw [dateOfInt_eq_some] at hd
    have hv : (0 : ℚ) ≤ milliseconds.value := by
      by_contra hneg
      have hlt : milliseconds.lt (.finite 0) = true := by
        cases milliseconds <;> simp_all [Number.lt, Number.value, Number.isFinite]
      rw [hn.2] at hlt
      cases hlt
    rw [hd, truncate, if_neg (not_lt.mpr hv)]
    exact Int.floor_nonneg.mpr hv
  · cases h

theorem timestamp_negative {date : TimeValue} {label : String} (h : date.ms < 0) :
    timestamp (getTime (some date)) label =
      .error (.typeError (label ++ " must be a valid absolute timestamp")) := by
  have hlt : date.toNumber.lt (.finite 0) = true := by
    simpa [TimeValue.toNumber, Number.lt, Number.value] using h
  simp [timestamp, getTime, hlt]

/-- The time of a date is accepted from the epoch on, and is the date itself. -/
theorem timestamp_getTime_eq_ok {date nowMs : TimeValue} {label : String}
    (h : timestamp (getTime (some date)) label = .ok nowMs) : 0 ≤ date.ms ∧ nowMs = date := by
  by_cases hneg : date.ms < 0
  · rw [timestamp_negative hneg] at h
    cases h
  · rw [timestamp_getTime (not_lt.mp hneg)] at h
    cases h
    exact ⟨not_lt.mp hneg, rfl⟩

theorem timestamp_eq_error {milliseconds : Number} {label : String} {thrown : Thrown}
    (h : timestamp milliseconds label = .error thrown) : ∃ message, thrown = .typeError message := by
  unfold timestamp at h
  split at h
  · cases h
  · cases h
    exact ⟨_, rfl⟩

variable (scheduler) in
/-- What `next` does once no member is selected: it fails on the clock, selects a member, or
reports the earliest retry time. -/
theorem next_cases (now : Number) (hsel : attempt.selected = none)
    (hne : attempt.eligibleMembers ≠ [])
    (hsub : ∀ member ∈ attempt.eligibleMembers, member ∈ pool.members) :
    (∃ message, timestamp now "current time" = .error (.typeError message) ∧
      pool.next scheduler attempt now = .error (.typeError message)) ∨
    (∃ nowMs member scheduler', timestamp now "current time" = .ok nowMs ∧
      member ∈ attempt.eligibleMembers ∧ member ∉ attempt.attempted ∧
      (scheduler.cooldowns member).ms ≤ nowMs.ms ∧
      scheduler'.cooldowns = scheduler.cooldowns ∧
      pool.next scheduler attempt now = .ok (.member member,
        { attempt with attempted := attempt.attempted ++ [member], selected := some member },
        scheduler')) ∨
    ∃ nowMs retryAt, timestamp now "current time" = .ok nowMs ∧
      (∀ member ∈ attempt.eligibleMembers,
        member ∈ attempt.attempted ∨ nowMs.ms < (scheduler.cooldowns member).ms) ∧
      (∃ member ∈ attempt.eligibleMembers, retryAt = scheduler.cooldowns member) ∧
      (∀ member ∈ attempt.eligibleMembers, retryAt.ms ≤ (scheduler.cooldowns member).ms) ∧
      pool.next scheduler attempt now = .ok (.retryAt retryAt, attempt, scheduler) := by
  unfold next
  rw [hsel]
  cases ht : timestamp now "current time" with
  | error thrown =>
    obtain ⟨message, rfl⟩ := timestamp_eq_error ht
    exact .inl ⟨message, rfl, rfl⟩
  | ok nowMs =>
    right
    cases hs : pool.select scheduler attempt.eligibleMembers attempt.attempted nowMs with
    | some found =>
      obtain ⟨member, scheduler'⟩ := found
      obtain ⟨-, hin, hout, hready, hcool⟩ := select_eq_some hs
      refine .inl ⟨nowMs, member, scheduler', rfl, hin, hout, hready, hcool, ?_⟩
      simp [hs, bind, Except.bind, pure, Except.pure]
    | none =>
      right
      have hall : ∀ member ∈ attempt.eligibleMembers,
          member ∈ attempt.attempted ∨ nowMs.ms < (scheduler.cooldowns member).ms :=
        fun member hm => select_eq_none.mp hs member (hsub member hm) hm
      -- a member that is neither attempted nor selectable is cooling, so its cooldown counts
      have hcounts : ∀ member ∈ attempt.eligibleMembers,
          Counts scheduler attempt.eligibleMembers attempt.attempted member := by
        intro member hm
        refine ⟨hm, ?_⟩
        rcases hall member hm with ha | hc
        · exact .inl ha
        · have := timestamp_eq_ok ht
          exact .inr (by omega)
      have hspec := earliestRetry_spec pool scheduler attempt.eligibleMembers attempt.attempted
      cases hr : pool.earliestRetry scheduler attempt.eligibleMembers attempt.attempted with
      | none =>
        rw [hr] at hspec
        obtain ⟨member, hm⟩ := List.exists_mem_of_ne_nil _ hne
        exact absurd (hcounts member hm) (hspec member (hsub member hm))
      | some retryAt =>
        rw [hr] at hspec
        obtain ⟨⟨member, -, hc, hd⟩, hle⟩ := hspec
        refine ⟨nowMs, retryAt, rfl, hall, ⟨member, hc.1, hd⟩, ?_, ?_⟩
        · exact fun member hm => hle member (hsub member hm) (hcounts member hm)
        · simp [hs, bind, Except.bind, pure, Except.pure]

end Pool
end Cyclo.Pooler
