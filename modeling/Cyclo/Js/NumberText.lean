import Cyclo.Js.Shortest

/-! The text of a number reads back as the number. -/
namespace Cyclo.Js.Json
open Str

/-- A text that starts with no digit. -/
def EndsDigits (s : Str) : Prop := ∀ c, s.head? = some c → isDigit c = false

theorem EndsNumber.endsDigits {rest : Str} (h : EndsNumber rest) : EndsDigits rest :=
  fun c hc => (h c hc).1

theorem endsDigits_cons {c : CodeUnit} (s : Str) (h : isDigit c = false) : EndsDigits (c :: s) := by
  intro d hd
  cases hd
  exact h

theorem splitDigits_of_ends {digits rest : Str} (hdigits : ∀ c ∈ digits, isDigit c = true)
    (hrest : EndsDigits rest) : splitDigits (digits ++ rest) = (digits, rest) := by
  unfold splitDigits
  rw [List.span_eq_takeWhile_dropWhile, List.takeWhile_append_of_pos hdigits,
    List.dropWhile_append_of_pos hdigits]
  cases rest with
  | nil => simp
  | cons c rest =>
    have hc := hrest c rfl
    simp [hc]

theorem scanDigits_append {digits rest : Str} (hdigits : ∀ c ∈ digits, isDigit c = true)
    (hne : digits ≠ []) (hrest : EndsDigits rest) :
    scanDigits (digits ++ rest) = some (digits, rest) := by
  unfold scanDigits
  rw [splitDigits_of_ends hdigits hrest]
  cases digits with
  | nil => exact absurd rfl hne
  | cons c digits => rfl

/-- Whole digits of a literal: a zero stands alone. -/
structure Whole (whole : Str) : Prop where
  digits : ∀ c ∈ whole, isDigit c = true
  shape : whole = [0x30] ∨ ∃ c rest, whole = c :: rest ∧ c ≠ 0x30

theorem Whole.ne_nil {whole : Str} (h : Whole whole) : whole ≠ [] := by
  rcases h.shape with h | ⟨c, rest, h, -⟩ <;> rw [h] <;> exact List.cons_ne_nil _ _

theorem Whole.scan {whole rest : Str} (h : Whole whole) (hrest : EndsDigits rest) :
    scanWhole (whole ++ rest) = some (whole, rest) := by
  have hscan := scanDigits_append h.digits h.ne_nil hrest
  rcases h.shape with hzero | ⟨c, digits, hwhole, hne⟩
  · rw [hzero]
    rfl
  · rw [hwhole] at hscan ⊢
    unfold scanWhole
    split
    · rename_i heq
      injection heq with hc
      exact absurd hc hne
    · exact hscan

/-- A fraction, and an exponent with a sign; either may be absent. -/
structure Tail where
  fraction : Option Str
  exponent : Option (Bool × Str)

def Tail.fractionText (tail : Tail) : Str :=
  match tail.fraction with
  | some digits => 0x2e :: digits
  | none => []

def Tail.exponentText (tail : Tail) : Str :=
  match tail.exponent with
  | some (minus, digits) => 0x65 :: (if minus then 0x2d else 0x2b) :: digits
  | none => []

/-- The digits of the parts that are there. -/
structure Tail.Proper (tail : Tail) : Prop where
  fraction : ∀ digits ∈ tail.fraction, digits ≠ [] ∧ ∀ c ∈ digits, isDigit c = true
  exponent : ∀ part ∈ tail.exponent, part.2 ≠ [] ∧ ∀ c ∈ part.2, isDigit c = true

def Tail.scale (tail : Tail) : ℤ :=
  match tail.exponent with
  | some (minus, digits) => if minus then -(decimal 0 digits : ℤ) else decimal 0 digits
  | none => 0

/-- The number that the parts of a literal stand for. -/
def partsValue (whole : Str) (tail : Tail) : Number :=
  let fraction := tail.fraction.getD []
  .round (decimal 0 (whole ++ fraction) * 10 ^ (tail.scale - fraction.length) : ℚ)

theorem endsDigits_exponentText (tail : Tail) {rest : Str} (hrest : EndsDigits rest) :
    EndsDigits (tail.exponentText ++ rest) := by
  unfold Tail.exponentText
  split
  · exact endsDigits_cons _ rfl
  · exact hrest

theorem endsDigits_fractionText (tail : Tail) {rest : Str} (hrest : EndsDigits rest) :
    EndsDigits (tail.fractionText ++ rest) := by
  unfold Tail.fractionText
  split
  · exact endsDigits_cons _ rfl
  · exact hrest

theorem scanFraction_of_ne {rest : Str} (h : ∀ c, rest.head? = some c → c ≠ 0x2e) :
    scanFraction rest = some ([], rest) := by
  unfold scanFraction
  split
  · exact absurd rfl (h _ rfl)
  · rfl

theorem scanFraction_text {tail : Tail} (h : tail.Proper) {rest : Str} (hrest : EndsNumber rest) :
    scanFraction (tail.fractionText ++ (tail.exponentText ++ rest)) =
      some (tail.fractionText, tail.exponentText ++ rest) := by
  have hends := endsDigits_exponentText tail hrest.endsDigits
  unfold Tail.fractionText
  cases hfraction : tail.fraction with
  | some digits =>
    obtain ⟨hne, hdigits⟩ := h.fraction digits hfraction
    show (scanDigits (digits ++ (tail.exponentText ++ rest))).map _ = _
    rw [scanDigits_append hdigits hne hends]
    rfl
  | none =>
    show scanFraction (tail.exponentText ++ rest) = _
    refine scanFraction_of_ne ?_
    intro c hc
    unfold Tail.exponentText at hc
    cases hexponent : tail.exponent with
    | some part =>
      rw [hexponent] at hc
      cases hc
      decide
    | none =>
      rw [hexponent] at hc
      exact (hrest c hc).2.1

theorem scanExponent_text {tail : Tail} (h : tail.Proper) {rest : Str} (hrest : EndsNumber rest) :
    scanExponent (tail.exponentText ++ rest) = some (tail.exponentText, rest) := by
  unfold Tail.exponentText
  cases hexponent : tail.exponent with
  | some part =>
    obtain ⟨minus, digits⟩ := part
    obtain ⟨hne, hdigits⟩ := h.exponent _ hexponent
    have hscan := scanDigits_append hdigits hne hrest.endsDigits
    cases minus with
    | true =>
      show (scanDigits (digits ++ rest)).map _ = _
      rw [hscan]
      rfl
    | false =>
      show (scanDigits (digits ++ rest)).map _ = _
      rw [hscan]
      rfl
  | none =>
    cases rest with
    | nil => rfl
    | cons c rest =>
      obtain ⟨-, -, he, hE⟩ := hrest c rfl
      exact if_neg (not_or.mpr ⟨he, hE⟩)

theorem exponentPart_text {tail : Tail} (h : tail.Proper) :
    exponentPart tail.exponentText = some tail.scale := by
  unfold Tail.exponentText Tail.scale
  cases hexponent : tail.exponent with
  | none => rfl
  | some part =>
    obtain ⟨minus, digits⟩ := part
    obtain ⟨hne, hdigits⟩ := h.exponent _ hexponent
    have hall : digits ≠ [] ∧ digits.all isDigit = true := ⟨hne, List.all_eq_true.mpr hdigits⟩
    unfold exponentPart
    dsimp only
    rw [if_pos (Or.inl rfl)]
    cases minus with
    | true => exact if_pos hall
    | false => exact if_pos hall

theorem decimal_append (n : ℕ) (digits others : Str) :
    decimal (decimal n digits) others = decimal n (digits ++ others) := by
  unfold decimal
  rw [List.foldl_append]

theorem exponentText_cases (tail : Tail) :
    tail.exponentText = [] ∨ ∃ t, tail.exponentText = 0x65 :: t := by
  unfold Tail.exponentText
  cases tail.exponent with
  | none => exact Or.inl rfl
  | some part => exact Or.inr ⟨_, rfl⟩

theorem unsignedDecimal_parts {whole : Str} {tail : Tail} (hwhole : Whole whole) (h : tail.Proper) :
    unsignedDecimal (whole ++ (tail.fractionText ++ tail.exponentText)) =
      some (partsValue whole tail) := by
  have hnil : EndsDigits [] := nofun
  have hends : EndsDigits (tail.fractionText ++ tail.exponentText) := by
    refine endsDigits_fractionText tail ?_
    have := endsDigits_exponentText tail hnil
    rwa [List.append_nil] at this
  have hne : whole ++ (tail.fractionText ++ tail.exponentText) ≠ lit "Infinity" := by
    intro h
    obtain ⟨c, rest, hc⟩ : ∃ c rest, whole = c :: rest := List.exists_cons_of_ne_nil hwhole.ne_nil
    have hdigit := hwhole.digits c (by rw [hc]; exact List.mem_cons_self)
    have hhead : some c = (lit "Infinity").head? := by rw [← h, hc]; rfl
    rw [show (lit "Infinity").head? = some 0x49 by decide] at hhead
    cases hhead
    exact absurd hdigit (by decide)
  unfold unsignedDecimal
  rw [if_neg hne, splitDigits_of_ends hwhole.digits hends]
  have hexponent := exponentPart_text h
  unfold Tail.fractionText
  cases hfraction : tail.fraction with
  | none =>
    have hvalue : some (partsValue whole tail) = (exponentPart tail.exponentText).map fun e : ℤ =>
        Number.round (decimal (decimal 0 whole) [] * 10 ^ (e - ([] : Str).length) : ℚ) := by
      unfold partsValue
      rw [hexponent, Option.map_some, decimal_append, hfraction]
      rfl
    refine Eq.trans ?_ hvalue.symm
    rcases exponentText_cases tail with hshape | ⟨t, hshape⟩
    · rw [hshape]
      exact if_neg fun h => hwhole.ne_nil h.1
    · rw [hshape]
      exact if_neg fun h => hwhole.ne_nil h.1
  | some digits =>
    obtain ⟨hne, hdigits⟩ := h.fraction digits hfraction
    have hends := endsDigits_exponentText tail hnil
    rw [List.append_nil] at hends
    have hrest := splitDigits_of_ends hdigits hends
    show (if whole = [] ∧ (splitDigits (digits ++ tail.exponentText)).1 = [] then none
      else (exponentPart (splitDigits (digits ++ tail.exponentText)).2).map fun e : ℤ =>
        Number.round (decimal (decimal 0 whole) (splitDigits (digits ++ tail.exponentText)).1 *
          10 ^ (e - (splitDigits (digits ++ tail.exponentText)).1.length) : ℚ)) = _
    unfold partsValue
    rw [hrest, if_neg fun h => hwhole.ne_nil h.1, hexponent, Option.map_some,
      decimal_append, hfraction]
    rfl

/-- A literal reads as the number that its parts stand for. -/
theorem parseUnsigned_parts {whole : Str} {tail : Tail} (hwhole : Whole whole)
    (h : tail.Proper) {rest : Str} (hrest : EndsNumber rest) :
    parseUnsigned (whole ++ (tail.fractionText ++ (tail.exponentText ++ rest))) =
      some (partsValue whole tail, rest) := by
  have hends := endsDigits_fractionText tail (endsDigits_exponentText tail hrest.endsDigits)
  unfold parseUnsigned
  rw [hwhole.scan hends]
  show (scanFraction _).bind _ = _
  rw [scanFraction_text h hrest]
  show (scanExponent _).bind _ = _
  rw [scanExponent_text h hrest]
  show (unsignedDecimal (whole ++ tail.fractionText ++ tail.exponentText)).bind _ = _
  rw [List.append_assoc, unsignedDecimal_parts hwhole h]
  rfl

theorem length_naturalText_eq {n k : ℕ} (hlow : 10 ^ k ≤ n) (hhigh : n < 10 ^ (k + 1)) :
    (naturalText n).length = k + 1 := by
  induction k generalizing n with
  | zero =>
    rw [naturalText, if_pos (by simpa using hhigh)]
    rfl
  | succ k ih =>
    have hten : ¬ n < 10 := by
      have : 10 ^ 1 ≤ 10 ^ (k + 1) := Nat.pow_le_pow_right (by norm_num) (by omega)
      omega
    have hlow' : 10 ^ k ≤ n / 10 := by
      rw [pow_succ] at hlow
      omega
    have hhigh' : n / 10 < 10 ^ (k + 1) := by
      rw [pow_succ] at hhigh
      omega
    rw [naturalText, if_neg hten, List.length_append, ih hlow' hhigh', List.length_singleton]

theorem decimal_zeros (n k : ℕ) : decimal n (List.replicate k 0x30) = n * 10 ^ k := by
  induction k generalizing n with
  | zero => rw [pow_zero, mul_one]; rfl
  | succ k ih =>
    have hstep : decimal n (List.replicate (k + 1) 0x30) = decimal (10 * n + 0)
        (List.replicate k 0x30) := rfl
    rw [hstep, ih, pow_succ]
    ring

theorem isDigit_zeros (k : ℕ) : ∀ c ∈ List.replicate k (0x30 : CodeUnit), isDigit c = true := by
  intro c hc
  rw [List.eq_of_mem_replicate hc]
  rfl

/-- The digits of a positive number start with none that is zero. -/
theorem whole_naturalText {n : ℕ} (hn : 0 < n) (zeros : ℕ) :
    Whole (naturalText n ++ List.replicate zeros 0x30) := by
  constructor
  · intro c hc
    rcases List.mem_append.mp hc with hc | hc
    · exact all_isDigit_naturalText n c hc
    · exact isDigit_zeros zeros c hc
  · rcases naturalText_cases n with ⟨hzero, -⟩ | ⟨c, rest, hdigits, hne⟩
    · omega
    · exact Or.inr ⟨c, _, by rw [hdigits]; rfl, hne⟩

theorem whole_take {n k : ℕ} (hn : 0 < n) (hk : 0 < k) : Whole ((naturalText n).take k) := by
  constructor
  · exact fun c hc => all_isDigit_naturalText n c (List.mem_of_mem_take hc)
  · rcases naturalText_cases n with ⟨hzero, -⟩ | ⟨c, rest, hdigits, hne⟩
    · omega
    · obtain ⟨k, rfl⟩ := Nat.exists_eq_add_of_le' hk
      exact Or.inr ⟨c, _, by rw [hdigits]; rfl, hne⟩

/-- The parts of a text, for the digits of a number and the place of their point. -/
structure Spells (text : Str) (n : ℕ) (point : ℤ) : Prop where
  parts : ∃ whole tail, Whole whole ∧ Tail.Proper tail ∧
    text = whole ++ (tail.fractionText ++ tail.exponentText) ∧
    partsValue whole tail = .round (n * 10 ^ (point - (naturalText n).length) : ℚ)

theorem spells_whole {n : ℕ} {point : ℤ} (hn : 0 < n) (h : (naturalText n).length ≤ point) :
    Spells (naturalText n ++ Number.zeros (point - (naturalText n).length)) n point := by
  obtain ⟨k, hk⟩ := Int.eq_ofNat_of_zero_le (sub_nonneg.mpr h)
  have hzeros : Number.zeros (point - (naturalText n).length) = List.replicate k 0x30 := by
    unfold Number.zeros
    rw [hk]
    rfl
  refine ⟨_, ⟨none, none⟩, whole_naturalText hn k, ⟨nofun, nofun⟩, ?_, ?_⟩
  · rw [hzeros]
    exact (List.append_nil _).symm
  · unfold partsValue
    dsimp only [Option.getD_none, Tail.scale]
    rw [List.append_nil, ← decimal_append, decimal_naturalText, decimal_zeros, hk]
    push_cast
    rw [zpow_natCast]
    norm_num

theorem spells_point {n : ℕ} {point : ℤ} (hn : 0 < n) (hpos : 0 < point)
    (h : point < (naturalText n).length) :
    Spells ((naturalText n).take point.toNat ++ 0x2e :: (naturalText n).drop point.toNat) n point := by
  have hlength : ((naturalText n).drop point.toNat).length = (naturalText n).length - point.toNat :=
    List.length_drop
  have hcount : 0 < point.toNat := by omega
  refine ⟨_, ⟨some ((naturalText n).drop point.toNat), none⟩, whole_take hn hcount,
    ⟨?_, nofun⟩, ?_, ?_⟩
  · intro digits hdigits
    cases hdigits
    refine ⟨?_, fun c hc => all_isDigit_naturalText n c (List.mem_of_mem_drop hc)⟩
    intro hnil
    rw [hnil, List.length_nil] at hlength
    omega
  · exact congrArg (fun s => (naturalText n).take point.toNat ++ s) (List.append_nil _).symm
  · unfold partsValue
    dsimp only [Option.getD_some, Tail.scale]
    rw [List.take_append_drop, decimal_naturalText, hlength]
    congr 3
    omega

theorem spells_small {n : ℕ} {point : ℤ} (hn : 0 < n) (h : point ≤ 0) :
    Spells (0x30 :: 0x2e :: Number.zeros (-point) ++ naturalText n) n point := by
  obtain ⟨k, hk⟩ := Int.eq_ofNat_of_zero_le (neg_nonneg.mpr h)
  have hzeros : Number.zeros (-point) = List.replicate k 0x30 := by
    unfold Number.zeros
    rw [hk]
    rfl
  refine ⟨[0x30], ⟨some (List.replicate k 0x30 ++ naturalText n), none⟩,
    ⟨by simp [isDigit], Or.inl rfl⟩, ⟨?_, nofun⟩, ?_, ?_⟩
  · intro digits hdigits
    cases hdigits
    refine ⟨?_, ?_⟩
    · rcases naturalText_cases n with ⟨hzero, -⟩ | ⟨c, rest, hdigits, hne⟩
      · omega
      · rw [hdigits]
        exact List.append_ne_nil_of_right_ne_nil _ (List.cons_ne_nil _ _)
    · intro c hc
      rcases List.mem_append.mp hc with hc | hc
      · exact isDigit_zeros k c hc
      · exact all_isDigit_naturalText n c hc
  · rw [hzeros]
    exact congrArg (fun s => 0x30 :: 0x2e :: s) (List.append_nil _).symm
  · have hdecimal : decimal 0 ([0x30] ++ (List.replicate k 0x30 ++ naturalText n)) = n := by
      have hzero : decimal 0 [0x30] = 0 := rfl
      rw [← decimal_append, ← decimal_append, decimal_zeros, hzero, zero_mul, decimal_naturalText]
    unfold partsValue
    dsimp only [Option.getD_some, Tail.scale]
    rw [hdecimal, List.length_append, List.length_replicate]
    congr 3
    push_cast
    omega

theorem naturalText_ne_nil (n : ℕ) : naturalText n ≠ [] := by
  rcases naturalText_cases n with ⟨-, h⟩ | ⟨c, rest, h, -⟩ <;> rw [h] <;> exact List.cons_ne_nil _ _

/-- The exponent of a literal, with its sign. -/
def exponentOf (point : ℤ) : Bool × Str := (!decide (0 < point), naturalText (point - 1).natAbs)

theorem scale_exponentOf (fraction : Option Str) (point : ℤ) :
    Tail.scale ⟨fraction, some (exponentOf point)⟩ = point - 1 := by
  unfold Tail.scale exponentOf
  dsimp only
  rw [decimal_naturalText]
  by_cases hpos : 0 < point
  · rw [decide_eq_true hpos, Bool.not_true, if_neg nofun]
    omega
  · rw [decide_eq_false hpos, Bool.not_false, if_pos rfl]
    omega

theorem exponentText_exponentOf (fraction : Option Str) (point : ℤ) :
    Tail.exponentText ⟨fraction, some (exponentOf point)⟩ =
      0x65 :: (if 0 < point then 0x2b else 0x2d) :: naturalText (point - 1).natAbs := by
  unfold Tail.exponentText exponentOf
  dsimp only
  by_cases hpos : 0 < point
  · rw [decide_eq_true hpos, if_pos hpos]
    rfl
  · rw [decide_eq_false hpos, if_neg hpos]
    rfl

theorem proper_exponentOf (point : ℤ) :
    ∀ part ∈ some (exponentOf point), part.2 ≠ [] ∧ ∀ c ∈ part.2, isDigit c = true := by
  intro part hpart
  cases hpart
  exact ⟨naturalText_ne_nil _, all_isDigit_naturalText _⟩

theorem spells_scaled {n : ℕ} {point : ℤ} (hn : 0 < n) :
    Spells ((if (naturalText n).length = 1 then naturalText n
        else (naturalText n).take 1 ++ 0x2e :: (naturalText n).drop 1) ++
      0x65 :: (if 0 < point then 0x2b else 0x2d) :: naturalText (point - 1).natAbs) n point := by
  rw [← exponentText_exponentOf none point]
  split_ifs with hone
  · refine ⟨naturalText n, ⟨none, some (exponentOf point)⟩, ?_, ⟨nofun, proper_exponentOf point⟩,
      rfl, ?_⟩
    · have hwhole := whole_naturalText hn 0
      rwa [List.replicate_zero, List.append_nil] at hwhole
    · unfold partsValue
      dsimp only [Option.getD_none]
      rw [scale_exponentOf, List.append_nil, decimal_naturalText, hone]
      congr 3
      rw [List.length_nil]
      omega
  · have hlength : ((naturalText n).drop 1).length = (naturalText n).length - 1 := List.length_drop
    have hpos : 0 < (naturalText n).length := List.length_pos_iff.mpr (naturalText_ne_nil n)
    refine ⟨(naturalText n).take 1, ⟨some ((naturalText n).drop 1), some (exponentOf point)⟩,
      whole_take hn one_pos, ⟨?_, proper_exponentOf point⟩, ?_, ?_⟩
    · intro digits hdigits
      cases hdigits
      refine ⟨?_, fun c hc => all_isDigit_naturalText n c (List.mem_of_mem_drop hc)⟩
      intro hnil
      rw [hnil, List.length_nil] at hlength
      omega
    · rw [List.append_assoc]
      rfl
    · unfold partsValue
      dsimp only [Option.getD_some]
      rw [scale_exponentOf, List.take_append_drop, decimal_naturalText, hlength]
      congr 3
      omega

/-- The text of a positive number spells its shortest digits. -/
theorem spells_positiveText {v : ℚ} (hdigits : 0 < (Number.shortest v).1) :
    Spells (Number.positiveText v) (Number.shortest v).1 (Number.shortest v).2 := by
  unfold Number.positiveText
  dsimp only
  split
  · rename_i h
    exact spells_whole hdigits h.1
  split
  · exact spells_point hdigits (by omega) (by omega)
  split
  · exact spells_small hdigits (by omega)
  · exact spells_scaled hdigits

end Cyclo.Js.Json

namespace Cyclo.Js
open Json Str

/-- A value of a JSON document: no number is NaN or infinite, and none is a negative zero. -/
def Number.plain : Number → Bool
  | .finite _ => true
  | _ => false

/-- A binary64 number. -/
def Number.IsDouble : Number → Prop
  | .finite q => rounded q = q ∧ |q| < 2 ^ 1024
  | _ => True

theorem rounded_rounded_of_pos {q : ℚ} (hq : 0 < q) : rounded (rounded q) = rounded q := by
  have hle := rounded_le_zpow hq
  have hnonneg := rounded_nonneg hq.le
  have hlow : -1074 ≤ lastPlace q := le_max_right _ _
  have hk : rounded q = (nearestEven (q / 2 ^ lastPlace q) : ℚ) * 2 ^ lastPlace q := rfl
  generalize nearestEven (q / 2 ^ lastPlace q) = k at hk
  generalize lastPlace q = e at hk hlow hle
  have hpos : (0 : ℚ) < 2 ^ e := zpow_pos (by norm_num) e
  rw [hk] at hle hnonneg ⊢
  have hk0 : 0 ≤ k := by exact_mod_cast nonneg_of_mul_nonneg_left hnonneg hpos
  have hk53 : k ≤ 2 ^ 53 := by
    rw [add_comm, zpow_add₀ (by norm_num)] at hle
    exact_mod_cast le_of_mul_le_mul_right hle hpos
  rcases hk53.lt_or_eq with hlt | heq
  · exact rounded_dyadic hlow (by rwa [abs_of_nonneg hk0])
  · have hone := rounded_dyadic (k := 1) (e := e + 53) (by omega) (by norm_num)
    have hsame : (k : ℚ) * 2 ^ e = ((1 : ℤ) : ℚ) * 2 ^ (e + 53) := by
      rw [heq, add_comm, zpow_add₀ (by norm_num)]
      norm_num
    rw [hsame, hone]

theorem rounded_rounded (q : ℚ) : rounded (rounded q) = rounded q := by
  rcases lt_trichotomy q 0 with hq | hq | hq
  · have h := rounded_rounded_of_pos (neg_pos.mpr hq)
    rw [rounded_neg, rounded_neg] at h
    exact neg_injective h
  · rw [hq, rounded_zero, rounded_zero]
  · exact rounded_rounded_of_pos hq

theorem Number.isDouble_round (q : ℚ) : (Number.round q).IsDouble := by
  unfold Number.round
  split_ifs with hinfinite hzero
  · trivial
  · trivial
  · exact ⟨rounded_rounded q, not_le.mp hinfinite⟩

theorem Number.IsDouble.neg {n : Number} (h : n.IsDouble) : n.neg.IsDouble := by
  cases n with
  | nan => trivial
  | infinite negative => trivial
  | negativeZero => exact ⟨rounded_zero, by norm_num⟩
  | finite q =>
    unfold Number.neg
    dsimp only
    split_ifs
    · trivial
    · refine ⟨?_, ?_⟩
      · rw [rounded_neg, h.1]
      · rw [abs_neg]
        exact h.2

theorem parseUnsigned_positiveText {v : ℚ} (hv : 0 < v) (hdouble : rounded v = v)
    (hlt : |v| < 2 ^ 1024) {rest : Str} (hrest : EndsNumber rest) :
    parseUnsigned (Number.positiveText v ++ rest) = some (.finite v, rest) := by
  obtain ⟨count, hlow, hhigh, hrounds⟩ := Number.shortest_rounds hv hdouble
  have hdigits : 0 < (Number.shortest v).1 := lt_of_lt_of_le (by positivity) hlow
  obtain ⟨whole, tail, hwhole, htail, htext, hvalue⟩ := (spells_positiveText hdigits).parts
  have hround : Number.round ((Number.shortest v).1 *
      (10 : ℚ) ^ ((Number.shortest v).2 - (naturalText (Number.shortest v).1).length)) =
        .finite v := by
    rw [length_naturalText_eq hlow hhigh]
    have hq : 0 < rounded ((Number.shortest v).1 *
        (10 : ℚ) ^ ((Number.shortest v).2 - (count + 1 : ℕ))) := by rwa [hrounds]
    rw [Number.round_eq_finite (by rwa [hrounds]) (Or.inl hq), hrounds]
  rw [htext, List.append_assoc, List.append_assoc, parseUnsigned_parts hwhole htail hrest,
    hvalue, hround]

theorem positiveText_digit {v : ℚ} (hv : 0 < v) (hdouble : rounded v = v) :
    ∃ c rest, Number.positiveText v = c :: rest ∧ isDigit c = true := by
  obtain ⟨count, hlow, -, -⟩ := Number.shortest_rounds hv hdouble
  have hdigits : 0 < (Number.shortest v).1 := lt_of_lt_of_le (by positivity) hlow
  obtain ⟨whole, tail, hwhole, -, htext, -⟩ := (spells_positiveText hdigits).parts
  obtain ⟨c, rest, hc⟩ := List.exists_cons_of_ne_nil hwhole.ne_nil
  refine ⟨c, rest ++ (tail.fractionText ++ tail.exponentText), ?_, hwhole.digits c ?_⟩
  · rw [htext, hc]
    rfl
  · rw [hc]
    exact List.mem_cons_self

/-- The text of a finite number that is no negative zero reads back as the number. -/
theorem parseNumber_text {n : Number} (hdouble : n.IsDouble) (hplain : n.plain = true) {rest : Str}
    (hrest : EndsNumber rest) : parseNumber (n.text ++ rest) = some (n, rest) := by
  cases n with
  | nan => cases hplain
  | infinite negative => cases hplain
  | negativeZero => cases hplain
  | finite q =>
    unfold Number.text
    dsimp only
    split_ifs with hzero hnegative
    · have hwhole : Whole [0x30] := ⟨by simp [isDigit], Or.inl rfl⟩
      have hread := parseUnsigned_parts hwhole
        (⟨fun _ h => (by cases h), fun _ h => (by cases h)⟩ : Tail.Proper ⟨none, none⟩) hrest
      have hvalue : partsValue [0x30] ⟨none, none⟩ = .finite q := by
        have hround := Number.round_intCast (k := 0) (by norm_num)
        rw [Int.cast_zero] at hround
        have hdecimal : decimal 0 ([0x30] ++ []) = 0 := rfl
        unfold partsValue
        dsimp only [Option.getD_none, Tail.scale]
        rw [hdecimal, Nat.cast_zero, zero_mul, hround, hzero]
      rw [hvalue] at hread
      exact hread
    · have hread := parseUnsigned_positiveText (neg_pos.mpr hnegative)
        (by rw [rounded_neg, hdouble.1]) (by rw [abs_neg]; exact hdouble.2) hrest
      have hneg : Number.neg (.finite (-q)) = .finite q := by
        unfold Number.neg
        dsimp only
        rw [if_neg (neg_ne_zero.mpr hzero), neg_neg]
      show (parseUnsigned (Number.positiveText (-q) ++ rest)).map _ = _
      rw [hread, Option.map_some]
      dsimp only
      rw [hneg]
    · have hpos : 0 < q := lt_of_le_of_ne (not_lt.mp hnegative) (Ne.symm hzero)
      have hread := parseUnsigned_positiveText hpos hdouble.1 hdouble.2 hrest
      obtain ⟨c, digits, htext, hdigit⟩ := positiveText_digit hpos hdouble.1
      rw [htext] at hread ⊢
      unfold parseNumber
      split
      · rename_i heq
        injection heq with hc
        rw [hc] at hdigit
        cases hdigit
      · exact hread

end Cyclo.Js
