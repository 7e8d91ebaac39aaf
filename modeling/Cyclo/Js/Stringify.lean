import Cyclo.Js.JsonText

/-! The text of any number and of any JSON document: `String(value)` and `JSON.stringify(value)`. -/
namespace Cyclo.Js

namespace Number

/-- The place of the decimal point of a positive number: before its first digit this is zero. -/
def pointOf (v : ℚ) : ℤ := Int.log 10 v + 1

/-- As many digits of a positive number as are asked for. -/
def digitsOf (v : ℚ) (count : ℕ) : ℕ := (nearestEven (v / (10 : ℚ) ^ (pointOf v - count))).toNat

/-- The decimals of so many digits on both sides of a positive number, the nearest one first. -/
def neighbours (v : ℚ) (count : ℕ) : List ℕ :=
  let nearest := digitsOf v count
  [nearest, if nearest ≤ v / (10 : ℚ) ^ (pointOf v - count) then nearest + 1 else nearest - 1]

/-- The fewest digits of a positive number that round to it, and the place of their point. -/
def shortest (v : ℚ) : ℕ × ℤ :=
  let reads (count digits : ℕ) : Bool := rounded (digits * (10 : ℚ) ^ (pointOf v - count)) = v
  let decimal (count : ℕ) : Option (ℕ × ℤ) :=
    ((neighbours v count).find? (reads count)).map fun digits =>
      if digits = 10 ^ count then (1, pointOf v + 1) else (digits, pointOf v)
  ((List.range' 1 17).findSome? decimal).getD (digitsOf v 17, pointOf v)

def zeros (count : ℤ) : Str := List.replicate count.toNat 0x30

/-- `Number.prototype.toString` of a positive number. -/
def positiveText (v : ℚ) : Str :=
  let digits := Json.naturalText (shortest v).1
  let point := (shortest v).2
  if digits.length ≤ point ∧ point ≤ 21 then digits ++ zeros (point - digits.length)
  else if 0 < point ∧ point ≤ 21 then digits.take point.toNat ++ 0x2e :: digits.drop point.toNat
  else if -6 < point ∧ point ≤ 0 then 0x30 :: 0x2e :: zeros (-point) ++ digits
  else
    let mantissa := if digits.length = 1 then digits else digits.take 1 ++ 0x2e :: digits.drop 1
    let sign : CodeUnit := if 0 < point then 0x2b else 0x2d
    mantissa ++ 0x65 :: sign :: Json.naturalText (point - 1).natAbs

def text : Number → Str
  | .nan => lit "NaN"
  | .infinite negative => if negative then lit "-Infinity" else lit "Infinity"
  | .negativeZero => lit "0"
  | .finite q => if q = 0 then lit "0" else if q < 0 then 0x2d :: positiveText (-q) else positiveText q

example : (Number.round (1 / 10)).text = lit "0.1" := by decide +kernel

example : (Number.round (10 ^ 23)).text = lit "1e+23" := by decide +kernel

/-- The nearest decimal of sixteen digits is another number, the next one is not. -/
example : (Number.round (1 / 2 ^ 44)).text = lit "5.684341886080802e-14" := by decide +kernel

end Number

/-- The texts of the items of an array or the like, with a separator between them. -/
def joined (separator : Str) : List Str → Str
  | [] => []
  | [text] => text
  | text :: texts => text ++ separator ++ joined separator texts

namespace Json

mutual

/-- `JSON.stringify(value)` -/
def stringify : Json → Str
  | .null => lit "null"
  | .bool b => if b then lit "true" else lit "false"
  | .num n => if n.isFinite then n.text else lit "null"
  | .str s => quote s
  | .arr items => 0x5b :: joined [0x2c] (stringifyItems items) ++ [0x5d]
  | .obj entries => objectText (stringifyEntries entries)

def stringifyItems : List Json → List Str
  | [] => []
  | value :: values => stringify value :: stringifyItems values

def stringifyEntries : List (Str × Json) → List (Str × Str)
  | [] => []
  | (key, value) :: entries => (key, stringify value) :: stringifyEntries entries

end

mutual

/-- `String(value)`; within an array nothing stands for null. An object whose own `toString` hides
the inherited one, which no value of a document can stand in for, throws a `TypeError`. -/
def display : Json → Option Str
  | .null => some (lit "null")
  | .bool b => some (if b then lit "true" else lit "false")
  | .num n => some n.text
  | .str s => some s
  | .arr items => (displayItems items).map (joined [0x2c])
  | .obj entries =>
    if (entries.lookup (lit "toString")).isSome then none else some (lit "[object Object]")

def displayItems : List Json → Option (List Str)
  | [] => some []
  | .null :: values => (displayItems values).map ([] :: ·)
  | value :: values => do
    let text ← display value
    let texts ← displayItems values
    return text :: texts

end

example : display (.arr [.null, .obj [], .arr [.bool true]]) = some (lit ",[object Object],true") := by
  decide +kernel

example : display (.arr [.obj [(lit "toString", .null)]]) = none := by decide +kernel

end Json
end Cyclo.Js
