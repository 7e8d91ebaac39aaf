import Mathlib.Data.List.Induction
import Mathlib.Data.Nat.Digits.Defs
import Mathlib.Tactic.Common
import Mathlib.Tactic.IntervalCases

/-! The supervisor that `run_agentws` starts for every agent: it restarts the worker after a growing
delay, and suspends the agent after too many failures in a row. -/
namespace Cyclo.Team.Supervisor

/-- The decimal value of digits: how `[ … ]` and `sleep` read them. -/
def decimal (digits : List Char) : ℕ := Nat.ofDigitChars 10 digits 0

/-- The value of digits in `$((…))`, where a leading zero makes them octal; an octal constant with
another digit than 0 to 7 is an error. -/
def shellValue : List Char → Option ℕ
  | '0' :: digits =>
    if digits.all fun c => c < '8' then some (Nat.ofDigitChars 8 digits 0) else none
  | digits => some (decimal digits)

theorem toDigits_ne_zero_cons (n : ℕ) (hn : 0 < n) (digits : List Char) :
    Nat.toDigits 10 n ≠ '0' :: digits := by
  induction n using Nat.strongRecOn generalizing digits with
  | ind n ih =>
    by_cases hb : n < 10
    · rw [Nat.toDigits_of_lt_base hb]
      interval_cases n <;> simp [Nat.digitChar]
    · rw [Nat.toDigits_of_base_le (by decide) (by omega)]
      have hne : Nat.toDigits 10 (n / 10) ≠ [] := Nat.toDigits_ne_nil
      obtain ⟨c, rest, hc⟩ := List.exists_cons_of_ne_nil hne
      rw [hc]
      intro h
      have hz : c = '0' := by
        have := congrArg List.head? h
        simpa using this
      rw [hz] at hc
      exact ih (n / 10) (by omega) (by omega) rest hc

theorem ofDigitChars_mono {b b' : ℕ} (hb : b ≤ b') (digits : List Char) {n n' : ℕ} (hn : n ≤ n') :
    Nat.ofDigitChars b digits n ≤ Nat.ofDigitChars b' digits n' := by
  induction digits generalizing n n' with
  | nil => simpa using hn
  | cons c digits ih =>
    rw [Nat.ofDigitChars_cons, Nat.ofDigitChars_cons]
    apply ih
    have := Nat.mul_le_mul hb hn
    omega

theorem decimal_toDigits (n : ℕ) : decimal (Nat.toDigits 10 n) = n := by
  exact Nat.ofDigitChars_ten_toDigits

/-- The shell writes no leading zeros, so it reads back what it has written. -/
theorem shellValue_toDigits {n : ℕ} (hn : 0 < n) : shellValue (Nat.toDigits 10 n) = some n := by
  have hv := decimal_toDigits n
  unfold shellValue
  split
  · rename_i digits hd
    have hz := toDigits_ne_zero_cons n hn digits
    contradiction
  · rw [hv]

theorem shellValue_le_decimal {digits : List Char} {value : ℕ}
    (hv : shellValue digits = some value) : value ≤ decimal digits := by
  unfold shellValue at hv
  split at hv
  · rename_i rest
    split_ifs at hv
    have ho := ofDigitChars_mono (by decide : 8 ≤ 10) rest (le_refl 0)
    have hd : decimal ('0' :: rest) = Nat.ofDigitChars 10 rest 0 := rfl
    rw [hd]
    have he : Nat.ofDigitChars 8 rest 0 = value := by simpa using hv
    omega
  · have he : decimal digits = value := by simpa using hv
    omega

/-- `require_positive_integer` -/
def isPositiveInteger (value : List Char) : Bool :=
  value ≠ [] && (value.all fun c => '0' ≤ c && c ≤ '9') && 0 < decimal value

/-- The settings, as they are spelled in the environment. -/
structure Settings where
  retryInitialSeconds : List Char
  retryMaxSeconds : List Char
  maxConsecutiveFailures : List Char

/-- The settings that pass the checks at the start. -/
def Settings.accepted (settings : Settings) : Bool :=
  isPositiveInteger settings.maxConsecutiveFailures &&
    isPositiveInteger settings.retryInitialSeconds && isPositiveInteger settings.retryMaxSeconds &&
    decimal settings.maxConsecutiveFailures ≤ 100 &&
    decimal settings.retryInitialSeconds ≤ decimal settings.retryMaxSeconds &&
    decimal settings.retryMaxSeconds ≤ 3600

def retryableAgentExit : ℕ := 75

/-- What the supervisor does when its worker has exited. -/
inductive Reaction where
  | restart (seconds : ℕ)
  | suspend (failures : ℕ)
  | exit (status : ℕ)
  /-- It ends after the delay, which the shell cannot double. -/
  | abort (seconds status : ℕ)
  deriving DecidableEq

/-- The variables of the loop while a worker runs, or how the loop has ended. -/
inductive State where
  | running (consecutiveFailures : ℕ) (retryDelay : List Char)
  | suspended
  | ended
  deriving DecidableEq

def State.isRunning : State → Bool
  | .running _ _ => true
  | _ => false

section
variable (settings : Settings)

/-- The doubling of `retry_delay`; an illegal number ends the shell. -/
def nextDelay (retryDelay : List Char) : Option (List Char) :=
  if decimal retryDelay < decimal settings.retryMaxSeconds then
    (shellValue retryDelay).map fun value =>
      if value * 2 > decimal settings.retryMaxSeconds then settings.retryMaxSeconds
      else Nat.toDigits 10 (value * 2)
  else some retryDelay

/-- One turn of the loop, from the exit of the worker on. -/
def exited (consecutiveFailures : ℕ) (retryDelay : List Char) (rc : ℕ) : Reaction × State :=
  if rc = 0 then (.restart 1, .running 0 settings.retryInitialSeconds)
  else if rc ≠ retryableAgentExit then (.exit rc, .ended)
  else if consecutiveFailures + 1 ≥ decimal settings.maxConsecutiveFailures then
    (.suspend (consecutiveFailures + 1), .suspended)
  else
    match nextDelay settings retryDelay with
    | none => (.abort (decimal retryDelay) 2, .ended)
    | some next => (.restart (decimal retryDelay), .running (consecutiveFailures + 1) next)

/-- A loop that has ended launches no worker, whatever would become of it. -/
def step : State → ℕ → State
  | .running failures delay, rc => (exited settings failures delay rc).2
  | state, _ => state

def start : State := .running 0 settings.retryInitialSeconds

/-- The state after the workers so far have exited. -/
def after (codes : List ℕ) : State := codes.foldl (step settings) (start settings)

/-- The reaction to the exit of one more worker, where one was launched. -/
def reaction (codes : List ℕ) (rc : ℕ) : Option Reaction :=
  match after settings codes with
  | .running failures delay => some (exited settings failures delay rc).1
  | _ => none

end

/-- The retryable exits at the end, without another exit between them. -/
def consecutive (codes : List ℕ) : ℕ :=
  codes.foldl (fun n rc => if rc = retryableAgentExit then n + 1 else 0) 0

/-- All exits were clean or retryable, and the limit of retryable ones in a row was not reached. -/
def Continues (settings : Settings) (codes : List ℕ) : Prop :=
  (∀ rc ∈ codes, rc = 0 ∨ rc = retryableAgentExit) ∧
    ∀ part, part <+: codes → consecutive part < decimal settings.maxConsecutiveFailures

/-- The supervisor backs off as its settings say: another worker is launched exactly as long as the
exits allow it, and every exit is reacted to by its code and the failures in a row before it. -/
structure BacksOff (settings : Settings) : Prop where
  launches : ∀ codes, (after settings codes).isRunning = true ↔ Continues settings codes
  clean : ∀ codes, (after settings codes).isRunning = true →
    reaction settings codes 0 = some (.restart 1)
  retry : ∀ codes, (after settings codes).isRunning = true →
    consecutive codes + 1 < decimal settings.maxConsecutiveFailures →
    reaction settings codes retryableAgentExit = some (.restart (min
      (decimal settings.retryInitialSeconds * 2 ^ consecutive codes)
      (decimal settings.retryMaxSeconds)))
  suspend : ∀ codes, (after settings codes).isRunning = true →
    decimal settings.maxConsecutiveFailures ≤ consecutive codes + 1 →
    reaction settings codes retryableAgentExit =
      some (.suspend (decimal settings.maxConsecutiveFailures))
  exit : ∀ codes rc, (after settings codes).isRunning = true → rc ≠ 0 → rc ≠ retryableAgentExit →
    reaction settings codes rc = some (.exit rc)

/-- The initial delay means the same where the shell computes with it, or the difference does not
show. -/
def Spelled (settings : Settings) : Prop :=
  decimal settings.retryInitialSeconds = decimal settings.retryMaxSeconds ∨
    decimal settings.maxConsecutiveFailures = 1 ∨
    ∃ value, shellValue settings.retryInitialSeconds = some value ∧
      (decimal settings.maxConsecutiveFailures = 2 ∨
        value = decimal settings.retryInitialSeconds ∨
        decimal settings.retryMaxSeconds ≤ 2 * value)

@[simp] theorem consecutive_nil : consecutive [] = 0 := rfl

theorem consecutive_concat (codes : List ℕ) (rc : ℕ) :
    consecutive (codes ++ [rc]) = if rc = retryableAgentExit then consecutive codes + 1 else 0 := by
  simp [consecutive, List.foldl_append]

section
variable (settings : Settings)

@[simp] theorem after_nil : after settings [] = start settings := rfl

theorem after_concat (codes : List ℕ) (rc : ℕ) :
    after settings (codes ++ [rc]) = step settings (after settings codes) rc := by
  simp [after, List.foldl_append]

theorem continues_nil (hl : 0 < decimal settings.maxConsecutiveFailures) : Continues settings [] := by
  constructor
  · simp
  · intro part hp
    rw [List.prefix_nil.mp hp]
    exact hl

theorem continues_concat (codes : List ℕ) (rc : ℕ) :
    Continues settings (codes ++ [rc]) ↔ Continues settings codes ∧
      (rc = 0 ∨ rc = retryableAgentExit) ∧
        consecutive (codes ++ [rc]) < decimal settings.maxConsecutiveFailures := by
  constructor
  · intro h
    have hc := h.2 (codes ++ [rc]) (List.prefix_refl _)
    have hl : rc = 0 ∨ rc = retryableAgentExit := h.1 rc (by simp)
    refine ⟨⟨?_, ?_⟩, hl, hc⟩
    · intro code hm
      exact h.1 code (List.mem_append_left _ hm)
    · intro part hp
      exact h.2 part (hp.trans (List.prefix_append _ _))
  · intro h
    constructor
    · intro code hm
      rcases List.mem_append.mp hm with hm | hm
      · exact h.1.1 code hm
      · rw [List.mem_singleton.mp hm]
        exact h.2.1
    · intro part hp
      rcases List.prefix_concat_iff.mp hp with he | hp
      · rw [he]
        exact h.2.2
      · exact h.1.2 part hp

theorem reaction_of_running {codes : List ℕ} {failures : ℕ} {delay : List Char} (rc : ℕ)
    (hr : after settings codes = .running failures delay) :
    reaction settings codes rc = some (exited settings failures delay rc).1 := by
  simp [reaction, hr]

/-- What a delay is before its use, and what the shell then takes it for. -/
def Fits (failures : ℕ) (delay : List Char) : Prop :=
  decimal delay = min (decimal settings.retryInitialSeconds * 2 ^ failures)
      (decimal settings.retryMaxSeconds) ∧
    (decimal delay < decimal settings.retryMaxSeconds → ∃ value, shellValue delay = some value ∧
      (failures + 2 < decimal settings.maxConsecutiveFailures →
        value = decimal delay ∨ decimal settings.retryMaxSeconds ≤ 2 * value))

variable {settings}

theorem fits_start (hs : Spelled settings) (hl : 1 < decimal settings.maxConsecutiveFailures)
    (hm : decimal settings.retryInitialSeconds ≤ decimal settings.retryMaxSeconds) :
    Fits settings 0 settings.retryInitialSeconds := by
  constructor
  · rw [pow_zero, mul_one, min_eq_left hm]
  · intro hlt
    rcases hs with he | he | ⟨value, hv, hd⟩
    · omega
    · omega
    · have hd' : 0 + 2 < decimal settings.maxConsecutiveFailures →
          value = decimal settings.retryInitialSeconds ∨
            decimal settings.retryMaxSeconds ≤ 2 * value := by
        intro h2
        rcases hd with h | h
        · omega
        · exact h
      exact ⟨value, hv, hd'⟩

/-- A retry doubles the delay, up to the maximum. -/
theorem Fits.next {failures : ℕ} {delay : List Char} (hf : Fits settings failures delay)
    (hi : 0 < decimal settings.retryInitialSeconds) :
    ∃ next, nextDelay settings delay = some next ∧
      (failures + 2 < decimal settings.maxConsecutiveFailures →
        Fits settings (failures + 1) next) := by
  have hpos : 0 < decimal settings.retryInitialSeconds * 2 ^ failures := by positivity
  have hpow : decimal settings.retryInitialSeconds * 2 ^ (failures + 1) =
      2 * (decimal settings.retryInitialSeconds * 2 ^ failures) := by ring
  have hval := hf.1
  unfold nextDelay
  split_ifs with hlt
  · obtain ⟨value, hv, hd⟩ := hf.2 hlt
    have hle := shellValue_le_decimal hv
    rw [hv, Option.map_some]
    refine ⟨_, rfl, ?_⟩
    intro h2
    have hd := hd h2
    unfold Fits
    rw [hpow]
    split_ifs with hgt
    · constructor
      · omega
      · intro h
        omega
    · have hdec := decimal_toDigits (value * 2)
      constructor
      · rw [hdec]
        omega
      · intro _
        have hr := shellValue_toDigits (n := value * 2) (by omega)
        refine ⟨value * 2, hr, ?_⟩
        intro _
        left
        exact hdec.symm
  · refine ⟨delay, rfl, ?_⟩
    intro _
    unfold Fits
    rw [hpow]
    constructor
    · omega
    · intro h
      omega

/-- What the checks at the start ensure. -/
theorem Settings.accepted_spec (ha : settings.accepted = true) :
    0 < decimal settings.maxConsecutiveFailures ∧ 0 < decimal settings.retryInitialSeconds ∧
      decimal settings.retryInitialSeconds ≤ decimal settings.retryMaxSeconds := by
  simp only [Settings.accepted, isPositiveInteger, Bool.and_eq_true, decide_eq_true_eq] at ha
  have hl := ha.1.1.1.1.1.2
  have hi := ha.1.1.1.1.2.2
  have hm := ha.1.2
  exact ⟨hl, hi, hm⟩

/-- The state after any exits: the worker that runs has the failures in a row counted, and its delay
is the one these call for. -/
def Tracks (settings : Settings) (codes : List ℕ) : Prop :=
  (Continues settings codes → ∃ delay, after settings codes = .running (consecutive codes) delay ∧
    (consecutive codes + 1 < decimal settings.maxConsecutiveFailures →
      Fits settings (consecutive codes) delay)) ∧
  (¬ Continues settings codes → (after settings codes).isRunning = false)

theorem step_of_not_running {state : State} (rc : ℕ) (hs : state.isRunning = false) :
    (step settings state rc).isRunning = false := by
  cases state with
  | running failures delay => simp [State.isRunning] at hs
  | suspended => rfl
  | ended => rfl

/-- One exit, where the delay fits the failures so far. -/
theorem Tracks.step {codes : List ℕ} (rc : ℕ) (hs : Spelled settings)
    (ha : settings.accepted = true) (ht : Tracks settings codes) :
    Tracks settings (codes ++ [rc]) := by
  obtain ⟨hl, hi, hm⟩ := Settings.accepted_spec ha
  have hcons := consecutive_concat codes rc
  unfold Tracks
  rw [continues_concat, after_concat]
  by_cases hc : Continues settings codes
  swap
  · have hno : (Supervisor.step settings (after settings codes) rc).isRunning = false :=
      step_of_not_running rc (ht.2 hc)
    constructor
    · intro h
      exact absurd h.1 hc
    · intro _
      exact hno
  obtain ⟨delay, hr, hfit⟩ := ht.1 hc
  have hlt : consecutive codes < decimal settings.maxConsecutiveFailures :=
    hc.2 codes (List.prefix_refl _)
  rw [hr]
  simp only [Supervisor.step, exited]
  by_cases hz : rc = 0
  · have hzero : consecutive (codes ++ [rc]) = 0 := by
      rw [hcons, hz]
      rfl
    rw [if_pos hz, hzero]
    constructor
    · intro _
      exact ⟨_, rfl, fun h => fits_start hs (by omega) hm⟩
    · intro h
      exact absurd ⟨hc, Or.inl hz, hl⟩ h
  rw [if_neg hz]
  by_cases hne : rc ≠ retryableAgentExit
  · rw [if_pos hne]
    constructor
    · intro h
      rcases h.2.1 with h | h
      · exact absurd h hz
      · exact absurd h hne
    · intro _
      rfl
  have he : rc = retryableAgentExit := not_not.mp hne
  rw [if_neg hne]
  rw [if_pos he] at hcons
  rw [hcons]
  by_cases hge : consecutive codes + 1 ≥ decimal settings.maxConsecutiveFailures
  · rw [if_pos hge]
    constructor
    · intro h
      omega
    · intro _
      rfl
  · rw [if_neg hge]
    obtain ⟨next, hn, hfits⟩ := (hfit (by omega)).next hi
    rw [hn]
    constructor
    · intro _
      refine ⟨next, rfl, ?_⟩
      intro h
      exact hfits (by omega)
    · intro h
      exact absurd ⟨hc, Or.inr he, by omega⟩ h

theorem tracks (hs : Spelled settings) (ha : settings.accepted = true) (codes : List ℕ) :
    Tracks settings codes := by
  obtain ⟨hl, _, hm⟩ := Settings.accepted_spec ha
  induction codes using List.reverseRecOn with
  | nil =>
    constructor
    · intro _
      exact ⟨_, rfl, fun h => fits_start hs (by simpa using h) hm⟩
    · intro h
      exact absurd (continues_nil settings hl) h
  | append_singleton codes rc ih => exact ih.step rc hs ha

theorem backsOff_of_spelled (hs : Spelled settings) (ha : settings.accepted = true) :
    BacksOff settings := by
  obtain ⟨hl, hi, hm⟩ := Settings.accepted_spec ha
  have hlaunches : ∀ codes, (after settings codes).isRunning = true ↔
      Continues settings codes := by
    intro codes
    have ht := tracks hs ha codes
    constructor
    · intro hrun
      by_contra hc
      have := ht.2 hc
      simp [hrun] at this
    · intro hc
      obtain ⟨delay, hr, _⟩ := ht.1 hc
      rw [hr]
      rfl
  have hstate : ∀ codes, (after settings codes).isRunning = true → ∃ delay,
      after settings codes = .running (consecutive codes) delay ∧
        (consecutive codes + 1 < decimal settings.maxConsecutiveFailures →
          Fits settings (consecutive codes) delay) := by
    intro codes hrun
    obtain ⟨delay, hr, hf⟩ := (tracks hs ha codes).1 ((hlaunches codes).mp hrun)
    exact ⟨delay, hr, hf⟩
  constructor
  case launches => exact hlaunches
  case clean =>
    intro codes hrun
    obtain ⟨delay, hr, _⟩ := hstate codes hrun
    rw [reaction_of_running settings 0 hr]
    rfl
  case retry =>
    intro codes hrun hlt
    obtain ⟨delay, hr, hfit⟩ := hstate codes hrun
    have hf := hfit hlt
    obtain ⟨next, hn, _⟩ := hf.next hi
    rw [reaction_of_running settings _ hr, exited, if_neg (by decide), if_neg (by simp),
      if_neg (by omega), hn]
    simp only
    rw [hf.1]
  case suspend =>
    intro codes hrun hle
    obtain ⟨delay, hr, _⟩ := hstate codes hrun
    have hlt := ((hlaunches codes).mp hrun).2 codes (List.prefix_refl _)
    have he : consecutive codes + 1 = decimal settings.maxConsecutiveFailures := by omega
    rw [reaction_of_running settings _ hr, exited, if_neg (by decide), if_neg (by simp),
      if_pos (by omega)]
    simp only
    rw [he]
  case exit =>
    intro codes rc hrun hz hne
    obtain ⟨delay, hr, _⟩ := hstate codes hrun
    rw [reaction_of_running settings _ hr, exited, if_neg hz, if_pos hne]

theorem spelled_of_backsOff (hb : BacksOff settings) (ha : settings.accepted = true) :
    Spelled settings := by
  obtain ⟨hl, hi, hm⟩ := Settings.accepted_spec ha
  by_cases heq : decimal settings.retryInitialSeconds = decimal settings.retryMaxSeconds
  · exact Or.inl heq
  by_cases hone : decimal settings.maxConsecutiveFailures = 1
  · exact Or.inr (Or.inl hone)
  right
  right
  have hrun : (after settings [retryableAgentExit]).isRunning = true := by
    rw [hb.launches, ← List.nil_append [retryableAgentExit], continues_concat]
    refine ⟨continues_nil settings hl, Or.inr rfl, ?_⟩
    rw [consecutive_concat, if_pos rfl, consecutive_nil]
    omega
  have hafter : after settings [retryableAgentExit] =
      (exited settings 0 settings.retryInitialSeconds retryableAgentExit).2 := rfl
  rw [exited, if_neg (by decide), if_neg (by simp), if_neg (by omega)] at hafter
  -- the one place where the shell computes with the initial delay
  rw [nextDelay, if_pos (by omega)] at hafter
  cases hv : shellValue settings.retryInitialSeconds with
  | none =>
    rw [hv] at hafter
    rw [hafter] at hrun
    contradiction
  | some value =>
    refine ⟨value, rfl, ?_⟩
    by_cases htwo : decimal settings.maxConsecutiveFailures = 2
    · exact Or.inl htwo
    right
    have hle := shellValue_le_decimal hv
    rw [hv] at hafter
    simp only [Option.map_some] at hafter
    have hretry := hb.retry [retryableAgentExit] hrun (by
      change 1 + 1 < _
      omega)
    rw [reaction_of_running settings _ hafter, exited, if_neg (by decide), if_neg (by simp),
      if_neg (by omega)] at hretry
    have hpow : consecutive [retryableAgentExit] = 1 := rfl
    rw [hpow, pow_one] at hretry
    have hdec := decimal_toDigits (value * 2)
    split_ifs at hretry with hgt
    · right
      omega
    · cases hn : nextDelay settings (Nat.toDigits 10 (value * 2)) with
      | none =>
        rw [hn] at hretry
        simp at hretry
      | some next =>
        rw [hn] at hretry
        simp only [Option.some.injEq, Reaction.restart.injEq] at hretry
        rw [hdec] at hretry
        omega

/-- The supervisor backs off as configured exactly when the shell's arithmetic reads the initial
delay as it is spelled, or never has to. -/
theorem supervise_backsOff_iff (ha : settings.accepted = true) :
    BacksOff settings ↔ Spelled settings := by
  constructor
  · intro hb
    exact spelled_of_backsOff hb ha
  · intro hs
    exact backsOff_of_spelled hs ha

end

def defaultSettings : Settings := ⟨['2'], ['3', '0'], ['5']⟩

theorem defaultSettings_backsOff :
    defaultSettings.accepted = true ∧ BacksOff defaultSettings := by
  have ha : defaultSettings.accepted = true := by decide +kernel
  have hs : Spelled defaultSettings := by
    right
    right
    refine ⟨2, by decide +kernel, ?_⟩
    right
    left
    decide +kernel
  exact ⟨ha, (supervise_backsOff_iff ha).mpr hs⟩

/-- Ten seconds with a leading zero: the shell doubles eight. -/
def octalSettings : Settings := ⟨['0', '1', '0'], ['3', '0'], ['5']⟩

theorem octalSettings_not_backsOff :
    octalSettings.accepted = true ∧
      reaction octalSettings [] 75 = some (.restart 10) ∧
      reaction octalSettings [75] 75 = some (.restart 16) ∧ ¬ BacksOff octalSettings := by
  have hsecond : reaction octalSettings [75] 75 = some (.restart 16) := by decide +kernel
  refine ⟨by decide +kernel, by decide +kernel, hsecond, ?_⟩
  intro hb
  have hrun : (after octalSettings [75]).isRunning = true := by decide +kernel
  have hlt : consecutive [75] + 1 < decimal octalSettings.maxConsecutiveFailures := by
    decide +kernel
  have hretry := hb.retry [75] hrun hlt
  rw [show retryableAgentExit = 75 from rfl, hsecond] at hretry
  have htwenty : min (decimal octalSettings.retryInitialSeconds * 2 ^ consecutive [75])
      (decimal octalSettings.retryMaxSeconds) = 20 := by decide +kernel
  rw [htwenty] at hretry
  simp at hretry

end Cyclo.Team.Supervisor
