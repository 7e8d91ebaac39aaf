import Cyclo.Js.Stringify

/-! Seventeen digits are enough: a decimal so near to a binary64 value rounds to it. -/
namespace Cyclo.Js

theorem nearestEven_error (x : ℚ) : |(nearestEven x : ℚ) - x| ≤ 1 / 2 := by
  have hlo := Int.floor_le x
  have hhi := Int.lt_floor_add_one x
  unfold nearestEven
  split_ifs <;> push_cast <;> rw [abs_le] <;> constructor <;> linarith

theorem nearestEven_eq {x : ℚ} {k : ℤ} (h : |x - k| < 1 / 2) : nearestEven x = k := by
  have herror := nearestEven_error x
  rw [abs_lt] at h
  rw [abs_le] at herror
  have hlt : (nearestEven x : ℚ) < (k + 1 : ℤ) := by push_cast; linarith
  have hgt : ((k - 1 : ℤ) : ℚ) < nearestEven x := by push_cast; linarith
  have hlt' : nearestEven x < k + 1 := by exact_mod_cast hlt
  have hgt' : k - 1 < nearestEven x := by exact_mod_cast hgt
  omega

/-- The exponent of the last place, and the multiple of it that a binary64 value is. -/
theorem rounded_near_place {v q : ℚ} {k e : ℤ} (hv : v = k * 2 ^ e) (hq : |q - v| < 2 ^ e / 2)
    (hplace : lastPlace q = e) : rounded q = v := by
  have hpos : (0 : ℚ) < 2 ^ e := zpow_pos (by norm_num) e
  have hnear : |q / 2 ^ e - k| < 1 / 2 := by
    have hsame : q / 2 ^ e - k = (q - v) / 2 ^ e := by
      rw [hv, sub_div, mul_div_assoc, div_self hpos.ne', mul_one]
    rw [hsame, abs_div, abs_of_pos hpos, div_lt_iff₀ hpos]
    linarith
  rw [rounded, hplace, nearestEven_eq hnear, hv]

theorem zpow_le_of_le_log {q : ℚ} {n : ℤ} (hq : 0 < q) (h : n ≤ Int.log 2 q) : (2 : ℚ) ^ n ≤ q := by
  have hlog := Int.zpow_log_le_self (b := 2) (by norm_num) hq
  have hle : (2 : ℚ) ^ n ≤ 2 ^ Int.log 2 q := zpow_le_zpow_right₀ (by norm_num) h
  exact hle.trans (by exact_mod_cast hlog)

theorem lt_zpow_of_log_lt {q : ℚ} {n : ℤ} (h : Int.log 2 q < n) : q < (2 : ℚ) ^ n := by
  have hlog := Int.lt_zpow_succ_log_self (b := 2) (by norm_num) q
  have hle : (2 : ℚ) ^ (Int.log 2 q + 1) ≤ 2 ^ n := zpow_le_zpow_right₀ (by norm_num) (by omega)
  exact lt_of_lt_of_le (by exact_mod_cast hlog) hle

theorem log_of_lastPlace_gt {q : ℚ} {e : ℤ} (hq : 0 < q) (he : -1074 ≤ e) (h : e < lastPlace q) :
    (2 : ℚ) ^ (e + 53) ≤ q := by
  refine zpow_le_of_le_log hq ?_
  unfold lastPlace at h
  rw [abs_of_pos hq] at h
  omega

theorem log_of_lastPlace_lt {q : ℚ} {e : ℤ} (hq : 0 < q) (h : lastPlace q < e) :
    q < (2 : ℚ) ^ (e + 52) := by
  refine lt_zpow_of_log_lt ?_
  unfold lastPlace at h
  rw [abs_of_pos hq] at h
  omega

theorem lastPlace_ge_of_zpow_le {q : ℚ} {e : ℤ} (hq : 0 < q) (h : (2 : ℚ) ^ (e + 52) ≤ q) :
    e ≤ lastPlace q := by
  by_contra hlt
  have := log_of_lastPlace_lt hq (by omega : lastPlace q < e)
  linarith

/-- A binary64 value is a multiple of its last place, with at most 53 bits. -/
theorem double_multiple {v : ℚ} (hv : 0 < v) (hdouble : rounded v = v) :
    ∃ k : ℤ, v = k * 2 ^ lastPlace v ∧ 0 < k ∧ k < 2 ^ 53 ∧ (-1074 < lastPlace v → 2 ^ 52 ≤ k) := by
  have hpos : (0 : ℚ) < 2 ^ lastPlace v := zpow_pos (by norm_num) _
  have hk : v = (nearestEven (v / 2 ^ lastPlace v) : ℚ) * 2 ^ lastPlace v := hdouble.symm
  generalize nearestEven (v / 2 ^ lastPlace v) = k at hk
  refine ⟨k, hk, ?_, ?_, ?_⟩
  · have hk0 : (0 : ℚ) < k := by
      rw [hk] at hv
      exact pos_of_mul_pos_left hv hpos.le
    exact_mod_cast hk0
  · have hlt : v < 2 ^ (lastPlace v + 53) := by
      refine lt_zpow_of_log_lt ?_
      have := le_max_left (Int.log 2 |v| - 52) (-1074)
      unfold lastPlace
      rw [abs_of_pos hv] at this ⊢
      omega
    rw [zpow_add₀ (by norm_num), mul_comm] at hlt
    have hlt' : (k : ℚ) * 2 ^ lastPlace v < 2 ^ (53 : ℤ) * 2 ^ lastPlace v := hk ▸ hlt
    have hk53 := lt_of_mul_lt_mul_right hlt' hpos.le
    exact_mod_cast hk53
  · intro hplace
    have hle := zpow_le_rounded hv hplace
    rw [hdouble, zpow_add₀ (by norm_num), mul_comm] at hle
    have hle' : 2 ^ (52 : ℤ) * (2 : ℚ) ^ lastPlace v ≤ k * 2 ^ lastPlace v := hk ▸ hle
    have hk52 := le_of_mul_le_mul_right hle' hpos
    exact_mod_cast hk52

/-- What is nearer to a positive binary64 value than half a unit in its seventeenth digit rounds to
it. -/
theorem rounded_near {v q : ℚ} (hv : 0 < v) (hdouble : rounded v = v)
    (h : |q - v| * (2 * 10 ^ 16) ≤ v) : rounded q = v := by
  obtain ⟨k, hk, hk0, hk53, hk52⟩ := double_multiple hv hdouble
  have he : -1074 ≤ lastPlace v := le_max_right _ _
  generalize lastPlace v = e at hk hk52 he
  have hpos : (0 : ℚ) < 2 ^ e := zpow_pos (by norm_num) e
  have hk53' : (k : ℚ) ≤ 2 ^ 53 - 1 := by exact_mod_cast Int.le_sub_one_of_lt hk53
  have hnear : |q - v| < 2 ^ e / 2 := by nlinarith
  obtain ⟨hbelow, habove⟩ := abs_lt.mp hnear
  have hq : 0 < q := by
    have hleast := neg_abs_le (q - v)
    linarith
  have hscale : ∀ n : ℤ, (2 : ℚ) ^ (e + n) = 2 ^ n * 2 ^ e := by
    intro n
    rw [zpow_add₀ (by norm_num), mul_comm]
  rcases lt_trichotomy (lastPlace q) e with hplace | hplace | hplace
  · -- Only the least value of a binade is so near to the binade below, where places are half as large.
    have hlow : -1074 ≤ lastPlace q := le_max_right _ _
    have hlt := log_of_lastPlace_lt hq hplace
    rw [hscale] at hlt
    have hk52' : (2 ^ 52 : ℚ) ≤ k := by exact_mod_cast hk52 (by omega)
    have hkle : (k : ℚ) < 2 ^ 52 + 1 := by
      by_contra hgt
      nlinarith
    have hkeq : k = 2 ^ 52 := by
      have h1 : k < 2 ^ 52 + 1 := by exact_mod_cast hkle
      have h2 : (2 : ℤ) ^ 52 ≤ k := by exact_mod_cast hk52'
      omega
    have hhalf : (2 : ℚ) ^ (e - 1) * 2 = 2 ^ e := by
      rw [sub_eq_add_neg, hscale]
      norm_num
      ring
    have hvalue : v = 2 ^ 52 * 2 ^ e := by
      rw [hk, hkeq]
      norm_num
    have hq51 : (2 : ℚ) ^ (e - 1 + 52) ≤ q := by
      rw [show e - 1 + 52 = e + 51 by ring, hscale]
      norm_num at hvalue ⊢
      linarith
    have hge := lastPlace_ge_of_zpow_le hq hq51
    have hv' : v = ((2 * k : ℤ) : ℚ) * 2 ^ (e - 1) := by
      push_cast
      rw [hk, ← hhalf]
      ring
    refine rounded_near_place hv' ?_ (by omega)
    rw [hvalue, ← hhalf] at h
    rw [hvalue, ← hhalf]
    norm_num at h ⊢
    linarith
  · exact rounded_near_place hk hnear hplace
  · have hge := log_of_lastPlace_gt hq he hplace
    rw [hscale] at hge
    nlinarith

namespace Number
variable {v : ℚ}

theorem zpow_pointOf_le (hv : 0 < v) : (10 : ℚ) ^ (pointOf v - 1) ≤ v := by
  have hlog := Int.zpow_log_le_self (b := 10) (by norm_num) hv
  unfold pointOf
  rw [add_sub_cancel_right]
  exact_mod_cast hlog

theorem lt_zpow_pointOf (v : ℚ) : v < (10 : ℚ) ^ pointOf v := by
  have hlog := Int.lt_zpow_succ_log_self (b := 10) (by norm_num) v
  unfold pointOf
  exact_mod_cast hlog

theorem ten_zpow_pos (n : ℤ) : (0 : ℚ) < 10 ^ n := zpow_pos (by norm_num) n

theorem cast_digitsOf (hv : 0 < v) (count : ℕ) :
    (digitsOf v count : ℚ) = nearestEven (v / 10 ^ (pointOf v - count)) := by
  have hpos : 0 ≤ v / 10 ^ (pointOf v - count) := div_nonneg hv.le (ten_zpow_pos _).le
  have hnonneg : 0 ≤ nearestEven (v / 10 ^ (pointOf v - count)) :=
    (Int.floor_nonneg.mpr hpos).trans (floor_le_nearestEven _)
  have hcast : ((digitsOf v count : ℕ) : ℤ) = nearestEven (v / 10 ^ (pointOf v - count)) :=
    Int.toNat_of_nonneg hnonneg
  rw [← hcast]
  norm_cast

theorem scaled_bounds (hv : 0 < v) (count : ℕ) :
    (10 : ℚ) ^ count ≤ v / 10 ^ (pointOf v - (count + 1 : ℕ)) ∧
      v / 10 ^ (pointOf v - (count + 1 : ℕ)) < 10 ^ (count + 1) := by
  have hpos := ten_zpow_pos (pointOf v - (count + 1 : ℕ))
  constructor
  · rw [le_div_iff₀ hpos]
    calc (10 : ℚ) ^ count * 10 ^ (pointOf v - (count + 1 : ℕ)) = 10 ^ (pointOf v - 1) := by
          rw [← zpow_natCast, ← zpow_add₀ (by norm_num)]
          congr 1
          push_cast
          ring
      _ ≤ v := zpow_pointOf_le hv
  · rw [div_lt_iff₀ hpos]
    calc v < 10 ^ pointOf v := lt_zpow_pointOf v
      _ = (10 : ℚ) ^ (count + 1) * 10 ^ (pointOf v - (count + 1 : ℕ)) := by
          rw [← zpow_natCast, ← zpow_add₀ (by norm_num)]
          congr 1
          push_cast
          ring

theorem digitsOf_bounds (hv : 0 < v) (count : ℕ) :
    10 ^ count ≤ digitsOf v (count + 1) ∧ digitsOf v (count + 1) ≤ 10 ^ (count + 1) := by
  obtain ⟨hlow, hhigh⟩ := scaled_bounds hv count
  have hlow' : nearestEven ((10 ^ count : ℤ) : ℚ) ≤ _ :=
    nearestEven_mono (by push_cast; exact hlow)
  have hhigh' : _ ≤ nearestEven ((10 ^ (count + 1) : ℤ) : ℚ) :=
    nearestEven_mono (by push_cast; exact hhigh.le)
  rw [nearestEven_intCast] at hlow' hhigh'
  have hcast : ((digitsOf v (count + 1) : ℕ) : ℤ) =
      nearestEven (v / 10 ^ (pointOf v - (count + 1 : ℕ))) := by
    exact_mod_cast cast_digitsOf hv (count + 1)
  rw [← hcast] at hlow' hhigh'
  exact ⟨by exact_mod_cast hlow', by exact_mod_cast hhigh'⟩

/-- Seventeen digits are enough. -/
theorem rounded_digitsOf (hv : 0 < v) (hdouble : rounded v = v) :
    rounded (digitsOf v 17 * (10 : ℚ) ^ (pointOf v - (17 : ℕ))) = v := by
  have hpos := ten_zpow_pos (pointOf v - (17 : ℕ))
  refine rounded_near hv hdouble ?_
  have herror := nearestEven_error (v / 10 ^ (pointOf v - (17 : ℕ)))
  rw [← cast_digitsOf hv 17] at herror
  have hsame : (digitsOf v 17 : ℚ) * 10 ^ (pointOf v - (17 : ℕ)) - v =
      ((digitsOf v 17 : ℚ) - v / 10 ^ (pointOf v - (17 : ℕ))) * 10 ^ (pointOf v - (17 : ℕ)) := by
    rw [sub_mul, div_mul_cancel₀ _ hpos.ne']
  rw [hsame, abs_mul, abs_of_pos hpos]
  calc |(digitsOf v 17 : ℚ) - v / 10 ^ (pointOf v - (17 : ℕ))| * 10 ^
    (pointOf v - (17 : ℕ)) * (2 * 10 ^ 16)
      ≤ 1 / 2 * 10 ^ (pointOf v - (17 : ℕ)) * (2 * 10 ^ 16) := by gcongr
    _ = 10 ^ (pointOf v - 1) := by
        rw [show pointOf v - 1 = pointOf v - (17 : ℕ) + (16 : ℕ) by push_cast; ring,
          zpow_add₀ (by norm_num), zpow_natCast]
        ring
    _ ≤ v := zpow_pointOf_le hv

theorem neighbours_bounds (hv : 0 < v) {count digits : ℕ}
    (h : digits ∈ neighbours v (count + 1)) : 10 ^ count ≤ digits ∧ digits ≤ 10 ^ (count + 1) := by
  obtain ⟨hlow, hhigh⟩ := digitsOf_bounds hv count
  obtain ⟨hscaled, hscaled'⟩ := scaled_bounds hv count
  unfold neighbours at h
  dsimp only at h
  generalize digitsOf v (count + 1) = nearest at h hlow hhigh
  generalize v / (10 : ℚ) ^ (pointOf v - (count + 1 : ℕ)) = scaled at h hscaled hscaled'
  split_ifs at h with hbelow
  · rcases List.mem_pair.mp h with rfl | rfl
    · exact ⟨hlow, hhigh⟩
    · have hlt : (nearest : ℚ) < ((10 ^ (count + 1) : ℕ) : ℚ) := by
        push_cast
        exact lt_of_le_of_lt hbelow hscaled'
      have hlt' : nearest < 10 ^ (count + 1) := by exact_mod_cast hlt
      omega
  · rcases List.mem_pair.mp h with rfl | rfl
    · exact ⟨hlow, hhigh⟩
    · have hgt : ((10 ^ count : ℕ) : ℚ) < nearest := by
        push_cast
        exact lt_of_le_of_lt hscaled (not_le.mp hbelow)
      have hgt' : 10 ^ count < nearest := by exact_mod_cast hgt
      omega

/-- The shortest digits of a binary64 value, with the place of their point, round to it. -/
theorem shortest_rounds (hv : 0 < v) (hdouble : rounded v = v) :
    ∃ count : ℕ, 10 ^ count ≤ (shortest v).1 ∧ (shortest v).1 < 10 ^ (count + 1) ∧
      rounded ((shortest v).1 * (10 : ℚ) ^ ((shortest v).2 - (count + 1 : ℕ))) = v := by
  obtain ⟨count, digits, hmem, hrounds, hshortest⟩ : ∃ count digits,
      digits ∈ neighbours v (count + 1) ∧
      rounded (digits * (10 : ℚ) ^ (pointOf v - (count + 1 : ℕ))) = v ∧
      shortest v = if digits = 10 ^ (count + 1) then (1, pointOf v + 1)
        else (digits, pointOf v) := by
    unfold shortest
    dsimp only
    generalize hfound : (List.range' 1 17).findSome? _ = found
    cases found with
    | none =>
      -- seventeen digits are found at the latest
      have hnone := List.findSome?_eq_none_iff.mp hfound 17 (by decide)
      rw [Option.map_eq_none_iff, List.find?_eq_none] at hnone
      exact absurd (decide_eq_true (rounded_digitsOf hv hdouble))
        (hnone (digitsOf v 17) List.mem_cons_self)
    | some decimal =>
      obtain ⟨count, hcount, hdecimal⟩ := List.exists_of_findSome?_eq_some hfound
      obtain ⟨digits, hdigits, rfl⟩ := Option.map_eq_some_iff.mp hdecimal
      have hrange := List.mem_range'_1.mp hcount
      obtain ⟨count, rfl⟩ := Nat.exists_eq_succ_of_ne_zero (by omega : count ≠ 0)
      have hreads := List.find?_some hdigits
      exact ⟨count, digits, List.mem_of_find?_eq_some hdigits, of_decide_eq_true hreads, rfl⟩
  obtain ⟨hlow, hhigh⟩ := neighbours_bounds hv hmem
  rw [hshortest]
  split_ifs with hpower
  · refine ⟨0, by norm_num, by norm_num, ?_⟩
    rw [hpower] at hrounds
    refine Eq.trans ?_ hrounds
    congr 1
    push_cast
    rw [← zpow_natCast, ← zpow_add₀ (by norm_num)]
    push_cast
    ring_nf
  · exact ⟨count, hlow, lt_of_le_of_ne hhigh hpower, hrounds⟩

end Number
end Cyclo.Js
