import Mathlib.Data.Int.Log
import Mathlib.Data.Rat.Floor
import Mathlib.Tactic.Linarith
import Mathlib.Tactic.Positivity
import Mathlib.Tactic.Ring
import Mathlib.Tactic.NormNum

/-! ECMAScript numbers: binary64 values with rational arithmetic rounded to nearest even.
The monotonicity of rounding is all the programs above rely on. -/
namespace Cyclo.Js

/-- The nearest integer, the even one of two equally near. -/
def nearestEven (x : ℚ) : ℤ :=
  if x - ⌊x⌋ < 1 / 2 then ⌊x⌋
  else if 1 / 2 < x - ⌊x⌋ then ⌊x⌋ + 1
  else if ⌊x⌋ % 2 = 0 then ⌊x⌋ else ⌊x⌋ + 1

theorem floor_le_nearestEven (x : ℚ) : ⌊x⌋ ≤ nearestEven x := by
  unfold nearestEven
  split_ifs <;> omega

theorem nearestEven_le_floor_add_one (x : ℚ) : nearestEven x ≤ ⌊x⌋ + 1 := by
  unfold nearestEven
  split_ifs <;> omega

@[simp] theorem nearestEven_intCast (k : ℤ) : nearestEven k = k := by
  simp [nearestEven]

theorem nearestEven_mono {x y : ℚ} (h : x ≤ y) : nearestEven x ≤ nearestEven y := by
  rcases (Int.floor_mono h).lt_or_eq with hf | hf
  · have hx := nearestEven_le_floor_add_one x
    have hy := floor_le_nearestEven y
    omega
  · unfold nearestEven
    rw [← hf]
    have hd : x - ⌊x⌋ ≤ y - ⌊x⌋ := by linarith
    split_ifs <;> first | omega | (exfalso; linarith)

/-- Mirrored inputs round to mirrored results: a tie goes to the even side on both. -/
theorem nearestEven_neg (x : ℚ) : nearestEven (-x) = -nearestEven x := by
  by_cases hi : (⌊x⌋ : ℚ) = x
  · have hx : x = ((⌊x⌋ : ℤ) : ℚ) := hi.symm
    rw [hx, ← Int.cast_neg, nearestEven_intCast, nearestEven_intCast]
  have hlo := Int.floor_le x
  have hhi := Int.lt_floor_add_one x
  have hf : ⌊-x⌋ = -⌊x⌋ - 1 := by
    rw [Int.floor_eq_iff]
    push_cast
    have hne : (⌊x⌋ : ℚ) < x := lt_of_le_of_ne hlo hi
    constructor <;> linarith
  unfold nearestEven
  rw [hf]
  push_cast
  split_ifs <;> first | omega | (exfalso; linarith)

/-- The exponent of the last place of a binary64 value near `q`. -/
def lastPlace (q : ℚ) : ℤ := max (Int.log 2 |q| - 52) (-1074)

def rounded (q : ℚ) : ℚ := nearestEven (q / 2 ^ lastPlace q) * 2 ^ lastPlace q

theorem lastPlace_neg (q : ℚ) : lastPlace (-q) = lastPlace q := by
  rw [lastPlace, lastPlace, abs_neg]

theorem rounded_neg (q : ℚ) : rounded (-q) = -rounded q := by
  rw [rounded, rounded, lastPlace_neg, neg_div, nearestEven_neg]
  push_cast
  ring

@[simp] theorem rounded_zero : rounded 0 = 0 := by
  have h : nearestEven 0 = 0 := by
    exact_mod_cast nearestEven_intCast 0
  simp [rounded, h]

private theorem two_zpow_pos (e : ℤ) : (0 : ℚ) < 2 ^ e := zpow_pos (by norm_num) e

theorem lastPlace_mono {p q : ℚ} (hp : 0 < p) (h : p ≤ q) : lastPlace p ≤ lastPlace q := by
  have ha : |p| ≤ |q| := by rwa [abs_of_pos hp, abs_of_pos (hp.trans_le h)]
  have hl := Int.log_mono_right (b := 2) (abs_pos.mpr hp.ne') ha
  unfold lastPlace
  omega

theorem rounded_nonneg {q : ℚ} (h : 0 ≤ q) : 0 ≤ rounded q := by
  have hd : 0 ≤ q / 2 ^ lastPlace q := div_nonneg h (two_zpow_pos _).le
  have hn : 0 ≤ nearestEven (q / 2 ^ lastPlace q) :=
    (Int.floor_nonneg.mpr hd).trans (floor_le_nearestEven _)
  have hc : (0 : ℚ) ≤ nearestEven (q / 2 ^ lastPlace q) := by exact_mod_cast hn
  exact mul_nonneg hc (two_zpow_pos _).le

/-- A positive value is below the next power of two, and its rounding at most that power. -/
theorem rounded_le_zpow {q : ℚ} (h : 0 < q) : rounded q ≤ 2 ^ (lastPlace q + 53) := by
  have hlt : q < 2 ^ (Int.log 2 |q| + 1) := by
    have h' := Int.lt_zpow_succ_log_self (b := 2) (by norm_num) |q|
    rw [abs_of_pos h] at h' ⊢
    exact_mod_cast h'
  have hle : (2 : ℚ) ^ (Int.log 2 |q| + 1) ≤ 2 ^ (lastPlace q + 53) :=
    zpow_le_zpow_right₀ (by norm_num) (by unfold lastPlace; omega)
  have hd : q / 2 ^ lastPlace q ≤ ((2 ^ 53 : ℤ) : ℚ) := by
    rw [div_le_iff₀ (two_zpow_pos _)]
    calc q ≤ 2 ^ (lastPlace q + 53) := hlt.le.trans hle
      _ = ((2 ^ 53 : ℤ) : ℚ) * 2 ^ lastPlace q := by
        rw [add_comm, zpow_add₀ (by norm_num)]
        norm_num
  have hn : nearestEven (q / 2 ^ lastPlace q) ≤ 2 ^ 53 := by
    have := nearestEven_mono hd
    rwa [nearestEven_intCast] at this
  rw [rounded, add_comm, zpow_add₀ (by norm_num : (2 : ℚ) ≠ 0)]
  refine mul_le_mul_of_nonneg_right ?_ (two_zpow_pos _).le
  exact_mod_cast hn

theorem zpow_le_rounded {q : ℚ} (h : 0 < q) (hl : -1074 < lastPlace q) :
    2 ^ (lastPlace q + 52) ≤ rounded q := by
  have he : lastPlace q = Int.log 2 |q| - 52 := by
    unfold lastPlace at hl ⊢
    omega
  have hle : (2 : ℚ) ^ (lastPlace q + 52) ≤ q := by
    have h' := Int.zpow_log_le_self (b := 2) (by norm_num) (abs_pos.mpr h.ne')
    rw [abs_of_pos h] at h'
    rw [he, abs_of_pos h, sub_add_cancel]
    exact_mod_cast h'
  have hd : ((2 ^ 52 : ℤ) : ℚ) ≤ q / 2 ^ lastPlace q := by
    rw [le_div_iff₀ (two_zpow_pos _)]
    calc ((2 ^ 52 : ℤ) : ℚ) * 2 ^ lastPlace q = 2 ^ (lastPlace q + 52) := by
          rw [add_comm (lastPlace q), zpow_add₀ (by norm_num)]
          norm_num
      _ ≤ q := hle
  have hn : 2 ^ 52 ≤ nearestEven (q / 2 ^ lastPlace q) := by
    have := nearestEven_mono hd
    rwa [nearestEven_intCast] at this
  rw [rounded, add_comm, zpow_add₀ (by norm_num : (2 : ℚ) ≠ 0)]
  refine mul_le_mul_of_nonneg_right ?_ (two_zpow_pos _).le
  exact_mod_cast hn

private theorem rounded_mono_pos {p q : ℚ} (hp : 0 < p) (h : p ≤ q) : rounded p ≤ rounded q := by
  rcases (lastPlace_mono hp h).lt_or_eq with hl | hl
  · have hlow : -1074 ≤ lastPlace p := le_max_right _ _
    calc rounded p ≤ 2 ^ (lastPlace p + 53) := rounded_le_zpow hp
      _ ≤ 2 ^ (lastPlace q + 52) := zpow_le_zpow_right₀ (by norm_num) (by omega)
      _ ≤ rounded q := zpow_le_rounded (hp.trans_le h) (by omega)
  · have hn := nearestEven_mono (div_le_div_of_nonneg_right h (two_zpow_pos (lastPlace p)).le)
    rw [rounded, rounded, ← hl]
    refine mul_le_mul_of_nonneg_right ?_ (two_zpow_pos _).le
    exact_mod_cast hn

theorem rounded_mono {p q : ℚ} (h : p ≤ q) : rounded p ≤ rounded q := by
  rcases lt_trichotomy p 0 with hp | hp | hp
  · rcases lt_or_ge q 0 with hq | hq
    · have hm := rounded_mono_pos (p := -q) (q := -p) (by linarith) (by linarith)
      rw [rounded_neg, rounded_neg] at hm
      linarith
    · have hp' := rounded_nonneg (q := -p) (by linarith)
      rw [rounded_neg] at hp'
      linarith [rounded_nonneg hq]
  · rw [hp, rounded_zero]
    exact rounded_nonneg (hp ▸ h)
  · exact rounded_mono_pos hp h

/-- Multiples of a power of two with fewer than 54 bits are not rounded. -/
theorem rounded_dyadic {k e : ℤ} (he : -1074 ≤ e) (h : |k| < 2 ^ 53) :
    rounded (k * 2 ^ e) = k * 2 ^ e := by
  rcases eq_or_ne k 0 with h0 | h0
  · simp [h0]
  have hk : (0 : ℚ) < |(k : ℚ)| := abs_pos.mpr (by exact_mod_cast h0)
  have hpos := two_zpow_pos e
  have hlog : Int.log 2 |(k : ℚ) * 2 ^ e| < 53 + e := by
    rw [← Int.lt_zpow_iff_log_lt (by norm_num) (by rw [abs_mul, abs_of_pos hpos]; positivity),
      abs_mul, abs_of_pos hpos]
    push_cast
    rw [zpow_add₀ (by norm_num)]
    have hlt : |(k : ℚ)| < 2 ^ (53 : ℤ) := by exact_mod_cast h
    exact mul_lt_mul_of_pos_right hlt hpos
  have hle : lastPlace ((k : ℚ) * 2 ^ e) ≤ e := by
    unfold lastPlace
    omega
  obtain ⟨n, hn⟩ := Int.eq_ofNat_of_zero_le (sub_nonneg.mpr hle)
  have hm : (k : ℚ) * 2 ^ e / 2 ^ lastPlace ((k : ℚ) * 2 ^ e) = ((k * 2 ^ n : ℤ) : ℚ) := by
    rw [mul_div_assoc, ← zpow_sub₀ (by norm_num), hn]
    push_cast
    rfl
  rw [rounded, hm, nearestEven_intCast, ← hm, div_mul_cancel₀ _ (two_zpow_pos _).ne']

/-- Integers up to `2 ^ 53` are binary64 values. -/
theorem rounded_intCast {k : ℤ} (h : |k| ≤ 2 ^ 53) : rounded k = k := by
  rcases h.lt_or_eq with hlt | heq
  · simpa using rounded_dyadic (k := k) (e := 0) (by norm_num) hlt
  · have hone : rounded (2 ^ 53) = 2 ^ 53 := by
      have h := rounded_dyadic (k := 1) (e := 53) (by norm_num) (by norm_num)
      rw [Int.cast_one, one_mul] at h
      exact_mod_cast h
    rcases abs_eq (by norm_num : (0 : ℤ) ≤ 2 ^ 53) |>.mp heq with hk | hk
    · rw [hk]
      exact_mod_cast hone
    · rw [hk]
      push_cast
      rw [rounded_neg]
      exact_mod_cast congrArg Neg.neg hone

inductive Number where
  | nan
  | infinite (negative : Bool)
  | negativeZero
  | finite (value : ℚ)
  deriving DecidableEq

namespace Number

/-- The double nearest to an exact result. A negative result that vanishes keeps its sign. -/
def round (q : ℚ) : Number :=
  if 2 ^ 1024 ≤ |rounded q| then .infinite (q < 0)
  else if rounded q = 0 ∧ q < 0 then .negativeZero
  else .finite (rounded q)

def isFinite : Number → Bool
  | .negativeZero | .finite _ => true
  | .nan | .infinite _ => false

/-- The mathematical value of a finite number. -/
def value : Number → ℚ
  | .finite q => q
  | _ => 0

def negative : Number → Bool
  | .infinite s => s
  | .negativeZero => true
  | .finite q => q < 0
  | .nan => false

def neg : Number → Number
  | .nan => .nan
  | .infinite s => .infinite !s
  | .negativeZero => .finite 0
  | .finite q => if q = 0 then .negativeZero else .finite (-q)

def add : Number → Number → Number
  | .nan, _ | _, .nan => .nan
  | .infinite s, .infinite t => if s = t then .infinite s else .nan
  | .infinite s, _ | _, .infinite s => .infinite s
  | .negativeZero, y => y
  | x, .negativeZero => x
  | .finite p, .finite q => round (p + q)

def sub (x y : Number) : Number := x.add y.neg

def mul (x y : Number) : Number :=
  match x, y with
  | .nan, _ | _, .nan => .nan
  | .infinite _, y => if y.isFinite && y.value = 0 then .nan else .infinite (x.negative != y.negative)
  | x, .infinite _ => if x.value = 0 then .nan else .infinite (x.negative != y.negative)
  | x, y =>
    if x.value * y.value = 0 then
      if x.negative != y.negative then .negativeZero else .finite 0
    else round (x.value * y.value)

def div (x y : Number) : Number :=
  match x, y with
  | .nan, _ | _, .nan => .nan
  | .infinite _, .infinite _ => .nan
  | .infinite _, _ => .infinite (x.negative != y.negative)
  | _, .infinite _ => if x.negative != y.negative then .negativeZero else .finite 0
  | _, _ =>
    if y.value = 0 then
      if x.value = 0 then .nan else .infinite (x.negative != y.negative)
    else if x.value = 0 then
      if x.negative != y.negative then .negativeZero else .finite 0
    else round (x.value / y.value)

/-- `Math.ceil`. -/
def ceil : Number → Number
  | .finite q => if ⌈q⌉ = 0 ∧ q < 0 then .negativeZero else .finite ⌈q⌉
  | x => x

/-- The order of `<`, in which both zeros are equal and nothing compares with NaN. -/
def lt : Number → Number → Bool
  | .nan, _ | _, .nan => false
  | .infinite s, .infinite t => s && !t
  | .infinite s, _ => s
  | _, .infinite t => !t
  | x, y => x.value < y.value

/-- `Math.max` of two numbers. -/
def max (x y : Number) : Number :=
  match x, y with
  | .nan, _ | _, .nan => .nan
  | .negativeZero, .finite 0 => .finite 0
  | x, y => if x.lt y then y else x

/-- `Number.isInteger`. -/
def isInteger (x : Number) : Bool := x.isFinite && x.value.den = 1

/-- `Number.isSafeInteger`. -/
def isSafeInteger (x : Number) : Bool := x.isInteger && |x.value| < 2 ^ 53

theorem round_value {q : ℚ} (h : (round q).isFinite) : (round q).value = rounded q := by
  unfold round at h ⊢
  split_ifs at h ⊢ with hi hz
  · cases h
  · exact hz.1.symm
  · rfl

theorem round_eq_finite {q : ℚ} (h : |rounded q| < 2 ^ 1024) (hq : 0 < rounded q ∨ 0 ≤ q) :
    round q = .finite (rounded q) := by
  unfold round
  rw [if_neg (not_le.mpr h), if_neg]
  rintro ⟨h0, hn⟩
  rcases hq with hq | hq <;> linarith

theorem round_intCast {k : ℤ} (h : |k| ≤ 2 ^ 53) : round k = .finite k := by
  have hr := rounded_intCast h
  have hlt : |(k : ℚ)| < 2 ^ 1024 :=
    lt_of_le_of_lt (show |(k : ℚ)| ≤ 2 ^ 53 by exact_mod_cast h)
      (pow_lt_pow_right₀ (by norm_num) (by norm_num))
  unfold round
  rw [hr, if_neg (not_le.mpr hlt), if_neg]
  rintro ⟨h0, hn⟩
  linarith

theorem div_finite {p q : ℚ} (hp : p ≠ 0) (hq : q ≠ 0) :
    div (.finite p) (.finite q) = round (p / q) := by
  simp [div, value, hp, hq]

/-- Adding integers is exact while the sum stays an integer that binary64 represents. -/
theorem add_intCast {j k : ℤ} (h : |j + k| ≤ 2 ^ 53) :
    add (.finite j) (.finite k) = .finite (j + k : ℤ) := by
  rw [add, ← Int.cast_add, round_intCast h]

theorem mul_intCast {j k : ℤ} (hk : 0 < k) (h : |j * k| ≤ 2 ^ 53) :
    mul (.finite j) (.finite k) = .finite (j * k : ℤ) := by
  have hk' : ¬ (k : ℚ) < 0 := by
    have : (0 : ℚ) < k := by exact_mod_cast hk
    linarith
  simp only [mul, value, negative, hk', decide_false, bne_iff_ne]
  rw [← Int.cast_mul, round_intCast h]
  split_ifs with h0 hj
  · have hj0 : j = 0 := by
      have : j * k = 0 := by exact_mod_cast h0
      rcases mul_eq_zero.mp this with h | h
      · exact h
      · omega
    simp [hj0] at hj
  · rw [h0]
  · rfl

end Number
end Cyclo.Js
