import Cyclo.Js.Utf8
import Mathlib.Tactic.IntervalCases

/-! Base64 texts of bytes in both alphabets, as `Buffer` writes and reads them. -/
namespace Cyclo.Js.Base64

/-- The last two digits of an alphabet, and whether a text is filled up to groups of four. -/
structure Alphabet where
  sixtyTwo : CodeUnit
  sixtyThree : CodeUnit
  padded : Bool

/-- `base64` -/
def standard : Alphabet := ⟨0x2b, 0x2f, true⟩

/-- `base64url` -/
def url : Alphabet := ⟨0x2d, 0x5f, false⟩

def digit (a : Alphabet) (n : ℕ) : CodeUnit :=
  if n < 26 then (0x41 + n).toUInt16
  else if n < 52 then (0x61 + (n - 26)).toUInt16
  else if n < 62 then (0x30 + (n - 52)).toUInt16
  else if n = 62 then a.sixtyTwo
  else a.sixtyThree

def padding (a : Alphabet) (count : ℕ) : Str := if a.padded then List.replicate count 0x3d else []

/-- `Buffer.from(bytes).toString("base64")` -/
def encode (a : Alphabet) : Bytes → Str
  | [] => []
  | [x] => digit a (x.toNat / 4) :: digit a (x.toNat % 4 * 16) :: padding a 2
  | [x, y] =>
    digit a (x.toNat / 4) :: digit a (x.toNat % 4 * 16 + y.toNat / 16) ::
      digit a (y.toNat % 16 * 4) :: padding a 1
  | x :: y :: z :: rest =>
    digit a (x.toNat / 4) :: digit a (x.toNat % 4 * 16 + y.toNat / 16) ::
      digit a (y.toNat % 16 * 4 + z.toNat / 64) :: digit a (z.toNat % 64) :: encode a rest

/-- The value of a digit of either alphabet. -/
def digitValue (c : CodeUnit) : Option ℕ :=
  if 0x41 ≤ c ∧ c ≤ 0x5a then some (c.toNat - 0x41)
  else if 0x61 ≤ c ∧ c ≤ 0x7a then some (c.toNat - 0x61 + 26)
  else if 0x30 ≤ c ∧ c ≤ 0x39 then some (c.toNat - 0x30 + 52)
  else if c = 0x2b ∨ c = 0x2d then some 62
  else if c = 0x2f ∨ c = 0x5f then some 63
  else none

/-- The bytes of digits; a digit that is left over stands for none. -/
def bytesOf : List ℕ → Bytes
  | a :: b :: c :: d :: rest =>
    (a * 4 + b / 16).toUInt8 :: (b % 16 * 16 + c / 4).toUInt8 ::
    (c % 4 * 64 + d).toUInt8 :: bytesOf rest
  | [a, b, c] => [(a * 4 + b / 16).toUInt8, (b % 16 * 16 + c / 4).toUInt8]
  | [a, b] => [(a * 4 + b / 16).toUInt8]
  | _ => []

/-- `Buffer.from(text, "base64")`, in which only digits count. -/
def decode (s : Str) : Bytes := bytesOf (s.filterMap digitValue)

theorem digitValue_digit {a : Alphabet} (ha : a = standard ∨ a = url) {n : ℕ} (h : n < 64) :
    digitValue (digit a n) = some n := by
  rcases ha with rfl | rfl
  · interval_cases n <;> rfl
  · interval_cases n <;> rfl

theorem filterMap_padding (a : Alphabet) (count : ℕ) :
    (padding a count).filterMap digitValue = [] := by
  unfold padding
  split_ifs
  · rw [List.filterMap_eq_nil_iff]
    intro c hc
    rw [List.eq_of_mem_replicate hc]
    rfl
  · rfl

/-- What was encoded is decoded. -/
theorem decode_encode {a : Alphabet} (ha : a = standard ∨ a = url) (bytes : Bytes) :
    decode (encode a bytes) = bytes := by
  have hbyte : ∀ x : UInt8, x.toNat < 256 := fun x => x.toNat_lt
  have hdigit : ∀ {n : ℕ} {s : Str}, n < 64 →
      (digit a n :: s).filterMap digitValue = n :: s.filterMap digitValue := by
    intro n s hn
    rw [List.filterMap_cons, digitValue_digit ha hn]
  have hsame : ∀ {x : UInt8} {n : ℕ}, n = x.toNat → n.toUInt8 = x := by
    rintro x n rfl
    exact UInt8.ofNat_toNat
  unfold decode
  fun_induction encode a bytes with
  | case1 => rfl
  | case2 x =>
    have hx := hbyte x
    rw [hdigit (by omega), hdigit (by omega), filterMap_padding]
    unfold bytesOf
    rw [hsame (x := x) (by omega)]
  | case3 x y =>
    have hx := hbyte x
    have hy := hbyte y
    rw [hdigit (by omega), hdigit (by omega), hdigit (by omega), filterMap_padding]
    unfold bytesOf
    rw [hsame (x := x) (by omega), hsame (x := y) (by omega)]
  | case4 x y z rest ih =>
    have hx := hbyte x
    have hy := hbyte y
    have hz := hbyte z
    rw [hdigit (by omega), hdigit (by omega), hdigit (by omega), hdigit (by omega)]
    unfold bytesOf
    rw [ih, hsame (x := x) (by omega), hsame (x := y) (by omega), hsame (x := z) (by omega)]

/-- What `base64url` writes. -/
def isUrlDigit (c : CodeUnit) : Bool := Str.isWordUnit c || c = 0x2d

theorem isUrlDigit_digit {n : ℕ} (h : n < 64) : isUrlDigit (digit url n) = true := by
  interval_cases n <;> rfl

theorem encode_url_digits (bytes : Bytes) : (encode url bytes).all isUrlDigit = true := by
  have hbyte : ∀ x : UInt8, x.toNat < 256 := fun x => x.toNat_lt
  fun_induction encode url bytes with
  | case1 => rfl
  | case2 x =>
    have hx := hbyte x
    rw [List.all_cons, isUrlDigit_digit (by omega), List.all_cons, isUrlDigit_digit (by omega)]
    rfl
  | case3 x y =>
    have hx := hbyte x
    have hy := hbyte y
    rw [List.all_cons, isUrlDigit_digit (by omega), List.all_cons, isUrlDigit_digit (by omega),
      List.all_cons, isUrlDigit_digit (by omega)]
    rfl
  | case4 x y z rest ih =>
    have hx := hbyte x
    have hy := hbyte y
    have hz := hbyte z
    rw [List.all_cons, isUrlDigit_digit (by omega), List.all_cons, isUrlDigit_digit (by omega),
      List.all_cons, isUrlDigit_digit (by omega), List.all_cons, isUrlDigit_digit (by omega), ih]
    rfl

theorem encode_ne_nil {a : Alphabet} {bytes : Bytes} (h : bytes ≠ []) : encode a bytes ≠ [] := by
  fun_cases encode a bytes with
  | case1 => exact absurd rfl h
  | case2 x => exact List.cons_ne_nil _ _
  | case3 x y => exact List.cons_ne_nil _ _
  | case4 x y z rest => exact List.cons_ne_nil _ _

end Cyclo.Js.Base64
