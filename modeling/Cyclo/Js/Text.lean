import Cyclo.Js.Number
import Mathlib.Data.List.Basic
import Mathlib.Data.List.DropRight

/-! ECMAScript strings are sequences of UTF-16 code units. -/
namespace Cyclo.Js

abbrev CodeUnit := UInt16

abbrev Str := List CodeUnit

instance lawfulBEqStr : LawfulBEq Str := inferInstance

/-- The UTF-16 encoding of one code point. -/
def encodeUnit (c : Char) : Str :=
  if c.toNat < 0x10000 then [c.toNat.toUInt16]
  else [(0xd800 + (c.toNat - 0x10000) / 0x400).toUInt16,
    (0xdc00 + (c.toNat - 0x10000) % 0x400).toUInt16]

/-- A string literal of the source. -/
def lit (s : String) : Str := s.toList.flatMap encodeUnit

namespace Str

def isDigit (c : CodeUnit) : Bool := 0x30 ≤ c && c ≤ 0x39

/-- The characters of the regular expression class `\w`. -/
def isWordUnit (c : CodeUnit) : Bool :=
  isDigit c || (0x41 ≤ c && c ≤ 0x5a) || (0x61 ≤ c && c ≤ 0x7a) || c = 0x5f

/-- White space and line terminators: what `trim` strips and `\s` matches. -/
def isSpace (c : CodeUnit) : Bool :=
  (0x09 ≤ c && c ≤ 0x0d) || c = 0x20 || c = 0xa0 || c = 0x1680 || (0x2000 ≤ c && c ≤ 0x200a) ||
    c = 0x2028 || c = 0x2029 || c = 0x202f || c = 0x205f || c = 0x3000 || c = 0xfeff

def trim (s : Str) : Str := (s.dropWhile isSpace).reverse.dropWhile isSpace |>.reverse

def startsWith (s p : Str) : Bool := p.isPrefixOf s

def endsWith (s p : Str) : Bool := p.isSuffixOf s

/-- `includes`: the pattern starts at some position of the string, its end included. -/
def includes : Str → Str → Bool
  | [], p => p.isPrefixOf []
  | c :: s, p => p.isPrefixOf (c :: s) || includes s p

@[simp] theorem startsWith_iff {s p : Str} : startsWith s p ↔ p <+: s := by
  simp [startsWith]

@[simp] theorem endsWith_iff {s p : Str} : endsWith s p ↔ p <:+ s := by
  simp [endsWith]

@[simp] theorem includes_iff {s p : Str} : includes s p ↔ p <:+: s := by
  induction s with
  | nil => simp [includes]
  | cons c s ih => simp [includes, ih, List.infix_cons_iff]

theorem trim_trim (s : Str) : trim (trim s) = trim s := by
  have hkept : ((s.dropWhile isSpace).rdropWhile isSpace).dropWhile isSpace =
      (s.dropWhile isSpace).rdropWhile isSpace := by
    refine List.dropWhile_eq_self_iff.mpr fun hlength => ?_
    have hhead := List.rdropWhile_prefix isSpace (s.dropWhile isSpace)
    rw [hhead.getElem hlength]
    exact List.dropWhile_get_zero_not isSpace s (hlength.trans_le hhead.length_le)
  change (((s.dropWhile isSpace).rdropWhile isSpace).dropWhile isSpace).rdropWhile isSpace = _
  rw [hkept]
  exact List.rdropWhile_idempotent _ _

def digitValue (c : CodeUnit) : ℕ := c.toNat - 0x30

/-- The value of a run of decimal digits after the digits that `n` stands for. -/
def decimal (n : ℕ) (digits : Str) : ℕ := digits.foldl (fun n c => 10 * n + digitValue c) n

def splitDigits (s : Str) : Str × Str := s.span isDigit

/-- The value of a digit in a base up to sixteen. -/
def radixDigit (base : ℕ) (c : CodeUnit) : Option ℕ :=
  let n := c.toNat
  let v :=
    if isDigit c then n - 0x30
    else if 0x61 ≤ n ∧ n ≤ 0x66 then n - 0x61 + 10
    else if 0x41 ≤ n ∧ n ≤ 0x46 then n - 0x41 + 10
    else base
  if v < base then some v else none

/-- A non-empty literal in the given base. -/
def radixLiteral (base : ℕ) (s : Str) : Number :=
  match s with
  | [] => .nan
  | s =>
    match s.mapM (radixDigit base) with
    | some ds => .round (ds.foldl (fun n d => base * n + d) 0 : ℕ)
    | none => .nan

/-- The exponent part of a decimal literal, zero when there is none. -/
def exponentPart (s : Str) : Option ℤ :=
  match s with
  | [] => some 0
  | c :: s =>
    if c = 0x65 ∨ c = 0x45 then
      let (minus, ds) := match s with
        | 0x2d :: ds => (true, ds)
        | 0x2b :: ds => (false, ds)
        | ds => (false, ds)
      if ds ≠ [] ∧ ds.all isDigit then
        some (if minus then -(decimal 0 ds : ℤ) else decimal 0 ds)
      else none
    else none

/-- An unsigned decimal literal: digits, a fraction and an exponent, or `Infinity`. -/
def unsignedDecimal (s : Str) : Option Number :=
  if s = lit "Infinity" then some (.infinite false)
  else
    let (whole, rest) := splitDigits s
    let (fraction, rest) := match rest with
      | 0x2e :: rest => splitDigits rest
      | rest => ([], rest)
    if whole = [] ∧ fraction = [] then none
    else (exponentPart rest).map fun (e : ℤ) =>
      .round (decimal (decimal 0 whole) fraction * 10 ^ (e - fraction.length) : ℚ)

/-- `Number(s)`. -/
def toNumber (s : Str) : Number :=
  match trim s with
  | [] => .finite 0
  | 0x30 :: 0x78 :: ds | 0x30 :: 0x58 :: ds => radixLiteral 16 ds
  | 0x30 :: 0x6f :: ds | 0x30 :: 0x4f :: ds => radixLiteral 8 ds
  | 0x30 :: 0x62 :: ds | 0x30 :: 0x42 :: ds => radixLiteral 2 ds
  | 0x2d :: s => ((unsignedDecimal s).map Number.neg).getD .nan
  | 0x2b :: s => (unsignedDecimal s).getD .nan
  | s => (unsignedDecimal s).getD .nan

end Str
end Cyclo.Js
