import Cyclo.Js.Text

/-! Python strings as sequences of code points, surrogates included, and their UTF-16 encoding. -/
namespace Cyclo.Python
open Js

/-- One character of a string: any code point, a surrogate as well. -/
abbrev CodePoint := Fin 0x110000

def codePoint (c : Char) : CodePoint := ⟨c.toNat, by
  have h := c.valid
  unfold UInt32.isValidChar Nat.isValidChar at h
  change c.val.toNat < 0x110000
  omega⟩

def codePoints (s : String) : List CodePoint := s.toList.map codePoint

/-- The code units of a character; a surrogate is passed on as it is. -/
def utf16Units (c : CodePoint) : Str :=
  if c.val < 0x10000 then [c.val.toUInt16]
  else [(0xd800 + (c.val - 0x10000) / 0x400).toUInt16,
    (0xdc00 + (c.val - 0x10000) % 0x400).toUInt16]

/-- The same string in a language whose strings are sequences of code units. -/
def utf16 (s : List CodePoint) : Str := s.flatMap utf16Units

/-- `encode("utf-16-le", errors="surrogatepass")` -/
def encodeUtf16le (s : List CodePoint) : List UInt8 :=
  (utf16 s).flatMap fun (u : CodeUnit) => [u.toUInt8, (u >>> 8).toUInt8]

/-- `isspace` of one character: the categories `Zs` and the bidirectional types `WS`, `B`, `S`. -/
def isSpacePoint (c : CodePoint) : Bool :=
  let c := c.val
  (0x09 ≤ c && c ≤ 0x0d) || (0x1c ≤ c && c ≤ 0x20) || c = 0x85 || c = 0xa0 || c = 0x1680 ||
    (0x2000 ≤ c && c ≤ 0x200a) || c = 0x2028 || c = 0x2029 || c = 0x202f || c = 0x205f || c = 0x3000

@[simp] theorem utf16_nil : utf16 [] = [] := rfl

@[simp] theorem utf16_cons (c : CodePoint) (s : List CodePoint) :
    utf16 (c :: s) = utf16Units c ++ utf16 s := rfl

theorem length_encodeUtf16le (s : List CodePoint) :
    (encodeUtf16le s).length = 2 * (utf16 s).length := by
  unfold encodeUtf16le
  induction utf16 s with
  | nil => rfl
  | cons u units ih =>
    rw [List.flatMap_cons, List.length_append, ih, List.length_cons]
    simp
    omega

theorem utf16Units_of_lt {c : CodePoint} (h : c.val < 0x10000) :
    utf16Units c = [c.val.toUInt16] := if_pos h

theorem toNat_unit {c : CodePoint} (h : c.val < 0x10000) : c.val.toUInt16.toNat = c.val := by
  rw [Nat.toUInt16_eq, UInt16.toNat_ofNat']
  omega

end Cyclo.Python
