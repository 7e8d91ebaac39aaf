import Cyclo.Js.Number

/-! Counts that JavaScript numbers represent exactly: the safe integers from zero on. -/
namespace Cyclo.Js

def maxSafeInteger : ℕ := 2 ^ 53 - 1

structure SafeCount where
  val : ℕ
  safe : val ≤ maxSafeInteger
  deriving DecidableEq

namespace SafeCount

@[ext] theorem ext {m n : SafeCount} (h : m.val = n.val) : m = n := by
  cases m
  cases n
  cases h
  rfl

def zero : SafeCount := ⟨0, Nat.zero_le _⟩

def one : SafeCount := ⟨1, by decide⟩

def toNumber (n : SafeCount) : Number := .finite n.val

end SafeCount

namespace Number

theorem value_of_isSafeInteger {x : Number} (h : x.isSafeInteger) :
    x.value = x.value.num ∧ |x.value| < 2 ^ 53 := by
  rw [isSafeInteger, Bool.and_eq_true, isInteger, Bool.and_eq_true, decide_eq_true_iff,
    decide_eq_true_iff] at h
  exact ⟨((Rat.den_eq_one_iff _).mp h.1.2).symm, h.2⟩

/-- `Number.isSafeInteger(x) && x >= 0`, as a count. -/
def toSafeCount (x : Number) : Option SafeCount :=
  if h : x.isSafeInteger ∧ 0 ≤ x.value then
    some ⟨x.value.num.toNat, by
      obtain ⟨hv, hlt⟩ := value_of_isSafeInteger h.1
      rw [hv, ← Int.cast_abs] at hlt
      have hlt' : |x.value.num| < 2 ^ 53 := by exact_mod_cast hlt
      have := le_abs_self x.value.num
      unfold maxSafeInteger
      omega⟩
  else none

theorem toSafeCount_natCast (n : ℕ) :
    toSafeCount (.finite n) = if h : n ≤ maxSafeInteger then some ⟨n, h⟩ else none := by
  have hsafe : (Number.finite n).isSafeInteger = decide (n ≤ maxSafeInteger) := by
    have hlt : (n : ℚ) < 2 ^ 53 ↔ n ≤ maxSafeInteger := by
      unfold maxSafeInteger
      constructor
      · intro h
        have : n < 2 ^ 53 := by exact_mod_cast h
        omega
      · intro h
        have : n < 2 ^ 53 := by omega
        exact_mod_cast this
    simp [isSafeInteger, isInteger, isFinite, value, hlt]
  have hvalue : (Number.finite (n : ℚ)).value = n := rfl
  unfold toSafeCount
  by_cases h : n ≤ maxSafeInteger
  · rw [dif_pos ⟨by rw [hsafe]; exact decide_eq_true h, by rw [hvalue]; exact Nat.cast_nonneg n⟩,
      dif_pos h]
    congr 2
  · rw [dif_neg (by rw [hsafe]; simp [h]), dif_neg h]

@[simp] theorem toSafeCount_toNumber (n : SafeCount) : toSafeCount n.toNumber = some n := by
  rw [SafeCount.toNumber, toSafeCount_natCast, dif_pos n.safe]

/-- Above the safe integers a natural number is rounded, but never back below them. -/
theorem toSafeCount_round (n : ℕ) :
    toSafeCount (round n) = if h : n ≤ maxSafeInteger then some ⟨n, h⟩ else none := by
  by_cases h : n ≤ 2 ^ 53
  · have hround : round n = .finite n := by
      have hr := round_intCast (k := n) (by rw [abs_of_nonneg] <;> omega)
      exact_mod_cast hr
    rw [hround, toSafeCount_natCast]
  · have hbig : ¬ n ≤ maxSafeInteger := by
      unfold maxSafeInteger
      omega
    have hle : ((2 ^ 53 : ℤ) : ℚ) ≤ ((n : ℤ) : ℚ) := by
      exact_mod_cast (show (2 : ℤ) ^ 53 ≤ n by omega)
    have hrounded := rounded_mono hle
    rw [rounded_intCast (by norm_num)] at hrounded
    push_cast at hrounded
    rw [dif_neg hbig, toSafeCount, dif_neg]
    rintro ⟨hs, -⟩
    have hfinite : (round n).isFinite := by
      rw [isSafeInteger, Bool.and_eq_true, isInteger, Bool.and_eq_true] at hs
      exact hs.1.1
    have hv := (value_of_isSafeInteger hs).2
    rw [round_value hfinite] at hv
    have := le_abs_self (rounded (n : ℚ))
    linarith

theorem toSafeCount_add (m n : SafeCount) :
    toSafeCount (m.toNumber.add n.toNumber) =
      if h : m.val + n.val ≤ maxSafeInteger then some ⟨m.val + n.val, h⟩ else none := by
  have hadd : m.toNumber.add n.toNumber = round ((m.val + n.val : ℕ) : ℚ) := by
    rw [SafeCount.toNumber, SafeCount.toNumber, add, Nat.cast_add]
  rw [hadd, toSafeCount_round]

end Number
end Cyclo.Js
