import Mathlib.Data.Nat.Notation

/-! Decoding UTF-8 with replacements for what is malformed. -/
namespace Cyclo.Python

/-- A character of UTF-8 of which bytes are missing: the bits so far, how many bytes are missing, and
the bounds of the next one. -/
structure Unfinished where
  bits : ℕ
  missing : ℕ
  least : ℕ
  greatest : ℕ

def replacement : Char := '\ufffd'

/-- The first byte of a character. -/
def firstByte (byte : ℕ) : List Char × Option Unfinished :=
  if byte < 0x80 then ([Char.ofNat byte], none)
  else if 0xc2 ≤ byte ∧ byte ≤ 0xdf then ([], some ⟨byte - 0xc0, 1, 0x80, 0xbf⟩)
  else if 0xe0 ≤ byte ∧ byte ≤ 0xef then
    ([], some ⟨byte - 0xe0, 2, if byte = 0xe0 then 0xa0 else 0x80,
      if byte = 0xed then 0x9f else 0xbf⟩)
  else if 0xf0 ≤ byte ∧ byte ≤ 0xf4 then
    ([], some ⟨byte - 0xf0, 3, if byte = 0xf0 then 0x90 else 0x80,
      if byte = 0xf4 then 0x8f else 0xbf⟩)
  else ([replacement], none)

def nextByte (pending : Option Unfinished) (byte : ℕ) : List Char × Option Unfinished :=
  match pending with
  | none => firstByte byte
  | some u =>
    if u.least ≤ byte ∧ byte ≤ u.greatest then
      let bits := u.bits * 0x40 + (byte - 0x80)
      if u.missing = 1 then ([Char.ofNat bits], none)
      else ([], some ⟨bits, u.missing - 1, 0x80, 0xbf⟩)
    else (replacement :: (firstByte byte).1, (firstByte byte).2)

/-- `content.decode("utf-8", errors="replace")`, from within a character. -/
def decodeFrom (pending : Option Unfinished) : List UInt8 → List Char
  | [] => if pending.isSome then [replacement] else []
  | byte :: rest =>
    (nextByte pending byte.toNat).1 ++ decodeFrom (nextByte pending byte.toNat).2 rest

def decodeReplacing (content : List UInt8) : List Char := decodeFrom none content

end Cyclo.Python
