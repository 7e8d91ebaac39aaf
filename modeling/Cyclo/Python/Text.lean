import Cyclo.Results
import Mathlib.Algebra.Order.BigOperators.Group.List
import Mathlib.Algebra.Ring.Nat
import Mathlib.Data.List.Sort
import Mathlib.Data.String.Basic
import Mathlib.Data.Prod.Lex

/-! Text as the host programs of the repository use it: pure paths, and the compact form of
`json.dumps`. -/
namespace Cyclo.Python

instance lawfulBEqText : LawfulBEq (List Char) := inferInstance

/-- `str.encode("utf-8")` of a text without lone surrogates. -/
def encode (text : String) : List UInt8 := text.toUTF8.data.toList

/-- `str.isspace` of one character. -/
def isSpace (c : Char) : Bool :=
  let n := c.toNat
  9 ≤ n && n ≤ 0x0d || 0x1c ≤ n && n ≤ 0x20 || n = 0x85 || n = 0xa0 || n = 0x1680 ||
    0x2000 ≤ n && n ≤ 0x200a || n = 0x2028 || n = 0x2029 || n = 0x202f || n = 0x205f || n = 0x3000

/-- The characters of a text are checked one by one; no search goes through all characters. -/
instance (priority := high) decidableForallChar {p : Char → Prop} [DecidablePred p]
    (text : List Char) : Decidable (∀ c ∈ text, p c) := List.decidableBAll p text

/-- `sorted` by a key. -/
def sortedBy {α κ : Type} [LinearOrder κ] (key : α → κ) (values : List α) : List α :=
  values.insertionSort fun x y => key x ≤ key y

theorem sortedBy_perm {α κ : Type} [LinearOrder κ] (key : α → κ) (values : List α) :
    (sortedBy key values).Perm values := List.perm_insertionSort _ values

/-- An ending that is longer than all names in use together. -/
def unusedSuffix (names : List String) : String :=
  String.ofList (List.replicate ((names.map String.length).sum + 1) 'a')

theorem append_unusedSuffix_notMem (base : String) (names : List String) :
    base ++ unusedSuffix names ∉ names := by
  intro hmem
  have hle : (base ++ unusedSuffix names).length ≤ (names.map String.length).sum :=
    List.le_sum_of_mem (List.mem_map_of_mem hmem)
  have hlength : (unusedSuffix names).length = (names.map String.length).sum + 1 := by
    simp [unusedSuffix]
  rw [String.length_append] at hle
  omega

section
variable {ε : Type}

/-- `if not accepted: raise` -/
def demand (accepted : Prop) [Decidable accepted] (reason : ε) : Except ε Unit :=
  if accepted then .ok () else .error reason

theorem demand_eq_ok {accepted : Prop} [Decidable accepted] {reason : ε} :
    demand accepted reason = .ok () ↔ accepted := by
  unfold demand
  split_ifs with h
  · exact iff_of_true rfl h
  · exact iff_of_false nofun h

end

/-- `PurePosixPath`: the root, and the components. -/
structure PurePath where
  root : String
  parts : List String
  deriving DecidableEq

namespace PurePath

def ofText (value : String) : PurePath :=
  let root := if value.startsWith "//" && !value.startsWith "///" then "//"
    else if value.startsWith "/" then "/"
    else ""
  ⟨root, ((value.toList.splitOn '/').map String.ofList).filter fun part =>
    part ≠ "" && part ≠ "."⟩

def text (path : PurePath) : String :=
  let value := path.root ++ String.intercalate "/" path.parts
  if value = "" then "." else value

def isAbsolute (path : PurePath) : Bool := path.root ≠ ""

/-- `path / other` -/
def join (path other : PurePath) : PurePath :=
  if other.isAbsolute then other else ⟨path.root, path.parts ++ other.parts⟩

/-- The last component; empty where there is none. -/
def name (path : PurePath) : String := path.parts.getLast?.getD ""

/-- `path in other.parents` -/
def isParentOf (path other : PurePath) : Bool :=
  path.root = other.root && path.parts.isPrefixOf other.parts && path.parts ≠ other.parts

/-- `path.relative_to(other)` -/
def relativeTo (path other : PurePath) : Option PurePath :=
  if path.root = other.root && other.parts.isPrefixOf path.parts then
    some ⟨"", path.parts.drop other.parts.length⟩
  else none

end PurePath

inductive Json where
  | str (value : String)
  | int (value : ℤ)
  | bool (value : Bool)
  | list (values : List Json)
  | dict (entries : List (String × Json))

namespace Json

def hexDigit (n : ℕ) : Char := if n < 10 then Char.ofNat (48 + n) else Char.ofNat (87 + n)

def unitEscape (n : ℕ) : List Char :=
  ['\\', 'u', hexDigit (n / 4096 % 16), hexDigit (n / 256 % 16), hexDigit (n / 16 % 16),
    hexDigit (n % 16)]

def escapeChar (c : Char) : List Char :=
  let n := c.toNat
  if c = '"' then ['\\', '"']
  else if c = '\\' then ['\\', '\\']
  else if c = '\n' then ['\\', 'n']
  else if c = '\r' then ['\\', 'r']
  else if c = '\t' then ['\\', 't']
  else if n = 0x0c then ['\\', 'f']
  else if n = 0x08 then ['\\', 'b']
  else if 0x20 ≤ n && n ≤ 0x7e then [c]
  else if n < 0x10000 then unitEscape n
  else unitEscape (0xd800 + (n - 0x10000) / 0x400) ++ unitEscape (0xdc00 + (n - 0x10000) % 0x400)

def quote (value : String) : String :=
  String.ofList ('"' :: value.toList.flatMap escapeChar ++ ['"'])

mutual

/-- With `separators=(",", ":")`; the keys are in the order given. -/
def compact : Json → String
  | .str value => quote value
  | .int value => toString value
  | .bool value => if value then "true" else "false"
  | .list values => "[" ++ String.intercalate "," (compactValues values) ++ "]"
  | .dict entries => "\x7b" ++ String.intercalate "," (compactEntries entries) ++ "\x7d"

def compactValues : List Json → List String
  | [] => []
  | value :: values => compact value :: compactValues values

def compactEntries : List (String × Json) → List String
  | [] => []
  | (key, value) :: entries => (quote key ++ ":" ++ compact value) :: compactEntries entries

end

end Json

end Cyclo.Python
