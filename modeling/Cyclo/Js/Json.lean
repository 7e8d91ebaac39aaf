import Cyclo.Js.Text

/-! JSON documents as `JSON.parse` builds them. A JSON text is represented by the document it
spells, and `wire` is the effect of `JSON.stringify` followed by `JSON.parse`. -/
namespace Cyclo.Js

/-- An object lists its properties in the order of `Object.entries`. -/
inductive Json where
  | null
  | bool (b : Bool)
  | num (n : Number)
  | str (s : Str)
  | arr (items : List Json)
  | obj (entries : List (Str × Json))

namespace Json

/-- `value?.name` of a JSON value for a name that no prototype defines. -/
def field (name : Str) : Json → Option Json
  | .obj entries => entries.lookup name
  | _ => none

/-- `value !== null && typeof value === "object" && !Array.isArray(value)`. -/
def plainObject : Json → Bool
  | .obj _ => true
  | _ => false

def asString : Json → Option Str
  | .str s => some s
  | _ => none

def asNumber : Json → Option Number
  | .num n => some n
  | _ => none

/-- The decimal spelling of an array index. -/
def indexKey (i : ℕ) : Str := lit (Nat.repr i)

/-- `Object.entries` of the items of an array from an index on. -/
def indexed : ℕ → List Json → List (Str × Json)
  | _, [] => []
  | i, v :: vs => (indexKey i, v) :: indexed (i + 1) vs

/-- `Object.entries(value)`, empty for what is not an object. -/
def entries : Json → List (Str × Json)
  | .obj es => es
  | .arr vs => indexed 0 vs
  | _ => []

mutual

/-- The document that `JSON.parse(JSON.stringify(value))` builds. -/
def wire : Json → Json
  | .num .negativeZero => .num (.finite 0)
  | .num (.infinite _) | .num .nan => .null
  | .arr items => .arr (wireItems items)
  | .obj es => .obj (wireEntries es)
  | v => v

def wireItems : List Json → List Json
  | [] => []
  | v :: vs => wire v :: wireItems vs

def wireEntries : List (Str × Json) → List (Str × Json)
  | [] => []
  | (k, v) :: es => (k, wire v) :: wireEntries es

end

end Json
end Cyclo.Js
