import Cyclo.Js.Text

/-! Strings as UTF-8: what is written to a file, and what `TextDecoder` reads back. -/
namespace Cyclo.Js

abbrev Bytes := List UInt8

namespace Str

def isLeadSurrogate (c : CodeUnit) : Bool := 0xd800 ≤ c && c ≤ 0xdbff

def isTrailSurrogate (c : CodeUnit) : Bool := 0xdc00 ≤ c && c ≤ 0xdfff

/-- The code point of a unit that is not part of a pair. -/
def unitChar (c : CodeUnit) : Char :=
  if isLeadSurrogate c || isTrailSurrogate c then '\ufffd' else Char.ofNat c.toNat

def pairChar (c d : CodeUnit) : Char :=
  Char.ofNat (0x10000 + (c.toNat - 0xd800) * 0x400 + (d.toNat - 0xdc00))

/-- The code points of a string, a lone surrogate replaced. -/
def codePoints : Str → List Char
  | [] => []
  | [c] => [unitChar c]
  | c :: d :: s =>
    if isLeadSurrogate c && isTrailSurrogate d then pairChar c d :: codePoints s
    else unitChar c :: codePoints (d :: s)

def utf8 (s : Str) : Bytes := s.codePoints.flatMap String.utf8EncodeChar

end Str

/-- `new TextDecoder("utf-8", { fatal: true }).decode(bytes)`: malformed input is refused, and a
leading byte order mark is dropped. -/
def decodeUtf8 (bytes : Bytes) : Option Str :=
  bytes.toByteArray.utf8Decode?.map fun chars =>
    match chars.toList with
    | '\ufeff' :: rest => rest.flatMap encodeUnit
    | chars => chars.flatMap encodeUnit

namespace Str

theorem toNat_toUInt16 {n : ℕ} (h : n < 0x10000) : n.toUInt16.toNat = n := by
  rw [Nat.toUInt16, UInt16.toNat_ofNat']
  exact Nat.mod_eq_of_lt h

theorem isLeadSurrogate_toUInt16 {n : ℕ} (h : n < 0x10000) :
    isLeadSurrogate n.toUInt16 = decide (0xd800 ≤ n ∧ n ≤ 0xdbff) := by
  simp [isLeadSurrogate, UInt16.le_iff_toNat_le, toNat_toUInt16 h]

theorem isTrailSurrogate_toUInt16 {n : ℕ} (h : n < 0x10000) :
    isTrailSurrogate n.toUInt16 = decide (0xdc00 ≤ n ∧ n ≤ 0xdfff) := by
  simp [isTrailSurrogate, UInt16.le_iff_toNat_le, toNat_toUInt16 h]

/-- A character is not a surrogate and is below the end of Unicode. -/
theorem char_range (c : Char) : (c.toNat < 0xd800 ∨ 0xdfff < c.toNat) ∧ c.toNat < 0x110000 := by
  rcases c.valid with h | ⟨h, h'⟩
  · exact ⟨.inl h, by unfold Char.toNat; omega⟩
  · exact ⟨.inr h, h'⟩

/-- One character before the rest of a text. -/
theorem codePoints_encodeUnit (c : Char) (s : Str) :
    codePoints (encodeUnit c ++ s) = c :: codePoints s := by
  obtain ⟨hrange, hmax⟩ := char_range c
  unfold encodeUnit
  split_ifs with hlow
  · have hlead : isLeadSurrogate c.toNat.toUInt16 = false := by
      rw [isLeadSurrogate_toUInt16 hlow]
      exact decide_eq_false (by omega)
    have htrail : isTrailSurrogate c.toNat.toUInt16 = false := by
      rw [isTrailSurrogate_toUInt16 hlow]
      exact decide_eq_false (by omega)
    have hunit : unitChar c.toNat.toUInt16 = c := by
      rw [unitChar, hlead, htrail, toNat_toUInt16 hlow]
      exact Char.ofNat_toNat c
    cases s with
    | nil => simp only [List.append_nil, codePoints, hunit]
    | cons d s =>
      rw [List.singleton_append, codePoints, hlead, hunit]
      rfl
  · have hlt : (c.toNat - 0x10000) / 0x400 < 0x400 := by omega
    have hmod : (c.toNat - 0x10000) % 0x400 < 0x400 := Nat.mod_lt _ (by norm_num)
    have hlead : isLeadSurrogate (0xd800 + (c.toNat - 0x10000) / 0x400).toUInt16 = true := by
      rw [isLeadSurrogate_toUInt16 (by omega)]
      exact decide_eq_true (by omega)
    have htrail : isTrailSurrogate (0xdc00 + (c.toNat - 0x10000) % 0x400).toUInt16 = true := by
      rw [isTrailSurrogate_toUInt16 (by omega)]
      exact decide_eq_true (by omega)
    have hpair : pairChar (0xd800 + (c.toNat - 0x10000) / 0x400).toUInt16
        (0xdc00 + (c.toNat - 0x10000) % 0x400).toUInt16 = c := by
      rw [pairChar, toNat_toUInt16 (by omega), toNat_toUInt16 (by omega)]
      rw [show 0x10000 + (0xd800 + (c.toNat - 0x10000) / 0x400 - 0xd800) * 0x400 +
        (0xdc00 + (c.toNat - 0x10000) % 0x400 - 0xdc00) = c.toNat by omega]
      exact Char.ofNat_toNat c
    change codePoints (_ :: _ :: s) = _
    rw [codePoints, hlead, htrail, hpair]
    rfl

theorem codePoints_flatMap (chars : List Char) : codePoints (chars.flatMap encodeUnit) = chars := by
  induction chars with
  | nil => rfl
  | cons c chars ih => rw [List.flatMap_cons, codePoints_encodeUnit, ih]

/-- A text without lone surrogates that takes `size` bytes at most, none of them a newline. -/
def Fits (s : Str) (size : ℕ) : Prop :=
  ∃ chars : List Char, s = chars.flatMap encodeUnit ∧
    (chars.flatMap String.utf8EncodeChar).length ≤ size ∧ '\n' ∉ chars

theorem decodeUtf8_flatMap {chars : List Char} (h : chars.head? ≠ some '\ufeff') :
    decodeUtf8 (utf8 (chars.flatMap encodeUnit)) = some (chars.flatMap encodeUnit) := by
  have hdecode : (chars.flatMap String.utf8EncodeChar).toByteArray.utf8Decode? =
      some chars.toArray := List.utf8Decode?_utf8Encode
  rw [utf8, codePoints_flatMap, decodeUtf8, hdecode]
  cases chars with
  | nil => rfl
  | cons c chars =>
    have hc : c ≠ '\ufeff' := fun he => h (by rw [he]; rfl)
    dsimp only [Option.map_some]
    split
    · rename_i rest heq
      injection heq with he
      exact absurd he hc
    · rfl

/-- Only a newline is encoded with the newline's byte. -/
theorem newline_not_mem_utf8EncodeChar {c : Char} (h : c ≠ '\n') :
    (0x0a : UInt8) ∉ String.utf8EncodeChar c := by
  have hne : c.val.toNat ≠ 0x0a := fun he => h (Char.ext (UInt32.toNat_inj.mp he))
  have hbyte : ∀ n : ℕ, n < 256 → n ≠ 0x0a → (0x0a : UInt8) ≠ UInt8.ofNat n := by
    intro n hn hne he
    have := congrArg UInt8.toNat he
    rw [UInt8.toNat_ofNat', Nat.mod_eq_of_lt hn] at this
    exact hne this.symm
  unfold String.utf8EncodeChar
  dsimp only
  split_ifs with h1 h2 h3
  · simpa using hbyte _ (by omega) hne
  · simp only [List.mem_cons, List.not_mem_nil, or_false, not_or]
    exact ⟨hbyte _ (by omega) (by omega), hbyte _ (by omega) (by omega)⟩
  · simp only [List.mem_cons, List.not_mem_nil, or_false, not_or]
    exact ⟨hbyte _ (by omega) (by omega), hbyte _ (by omega) (by omega),
      hbyte _ (by omega) (by omega)⟩
  · simp only [List.mem_cons, List.not_mem_nil, or_false, not_or]
    exact ⟨hbyte _ (by omega) (by omega), hbyte _ (by omega) (by omega),
      hbyte _ (by omega) (by omega), hbyte _ (by omega) (by omega)⟩

theorem Fits.nil : Fits [] 0 := ⟨[], rfl, le_rfl, List.not_mem_nil⟩

theorem Fits.append {s t : Str} {m n : ℕ} (hs : Fits s m) (ht : Fits t n) :
    Fits (s ++ t) (m + n) := by
  obtain ⟨cs, rfl, hm, hcs⟩ := hs
  obtain ⟨ds, rfl, hn, hds⟩ := ht
  refine ⟨cs ++ ds, by rw [List.flatMap_append], ?_, by simp [hcs, hds]⟩
  rw [List.flatMap_append, List.length_append]
  omega

theorem Fits.mono {s : Str} {m n : ℕ} (h : Fits s m) (hmn : m ≤ n) : Fits s n := by
  obtain ⟨cs, hs, hm, hcs⟩ := h
  exact ⟨cs, hs, hm.trans hmn, hcs⟩

theorem Fits.char {c : Char} (h : c ≠ '\n') : Fits (encodeUnit c) c.utf8Size :=
  ⟨[c], by simp, by simp, by simpa using fun he => h he.symm⟩

theorem toNat_ofNat {n : ℕ} (h : n.isValidChar) : (Char.ofNat n).toNat = n := by
  rw [Char.ofNat, dif_pos h]
  rfl

theorem utf8Size_le_three {c : Char} (h : c.toNat < 0x10000) : c.utf8Size ≤ 3 := by
  rcases c.utf8Size_eq with h1 | h1 | h1 | h1
  · omega
  · omega
  · omega
  · rw [Char.utf8Size_eq_four_iff, UInt32.lt_iff_toNat_lt] at h1
    have h2 : (0xffff : UInt32).toNat = 0xffff := rfl
    unfold Char.toNat at h
    omega

theorem utf8Size_ascii {c : Char} (h : c.toNat < 0x80) : c.utf8Size = 1 := by
  rw [Char.utf8Size_eq_one_iff, UInt32.le_iff_toNat_le]
  have h2 : (127 : UInt32).toNat = 127 := rfl
  unfold Char.toNat at h
  omega

/-- The character of a unit outside the surrogates. -/
theorem exists_char {c : CodeUnit} (hlead : isLeadSurrogate c = false)
    (htrail : isTrailSurrogate c = false) : ∃ char : Char, char.toNat = c.toNat ∧
      encodeUnit char = [c] := by
  have hlt : c.toNat < 0x10000 := c.toNat_lt
  have hc : c.toNat.toUInt16 = c := UInt16.ofNat_toNat
  rw [← hc, isLeadSurrogate_toUInt16 hlt, decide_eq_false_iff_not] at hlead
  rw [← hc, isTrailSurrogate_toUInt16 hlt, decide_eq_false_iff_not] at htrail
  have hvalid : c.toNat.isValidChar := by
    by_cases h : c.toNat < 0xd800
    · exact .inl h
    · exact .inr ⟨by omega, by omega⟩
  have hnat := toNat_ofNat hvalid
  refine ⟨Char.ofNat c.toNat, hnat, ?_⟩
  rw [encodeUnit, hnat, if_pos hlt, hc]

theorem Fits.unit {c : CodeUnit} (h : c ≠ 0x0a) (hlead : isLeadSurrogate c = false)
    (htrail : isTrailSurrogate c = false) : Fits [c] 3 := by
  obtain ⟨char, hnat, hencode⟩ := exists_char hlead htrail
  have hne : char ≠ '\n' := by
    rintro rfl
    exact h (UInt16.toNat_inj.mp hnat.symm)
  have hfits := Fits.char hne
  rw [hencode] at hfits
  exact hfits.mono (utf8Size_le_three (by rw [hnat]; exact c.toNat_lt))

theorem Fits.ascii {c : CodeUnit} (h : c.toNat < 0x80) (hne : c ≠ 0x0a) : Fits [c] 1 := by
  have hsurrogate : isLeadSurrogate c = false ∧ isTrailSurrogate c = false := by
    have h1 : (0xd800 : UInt16).toNat = 0xd800 := rfl
    have h2 : (0xdc00 : UInt16).toNat = 0xdc00 := rfl
    simp only [isLeadSurrogate, isTrailSurrogate, Bool.and_eq_false_iff, decide_eq_false_iff_not,
      UInt16.le_iff_toNat_le, h1, h2]
    omega
  obtain ⟨char, hnat, hencode⟩ := exists_char hsurrogate.1 hsurrogate.2
  have hchar : char ≠ '\n' := by
    rintro rfl
    exact hne (UInt16.toNat_inj.mp hnat.symm)
  have hfits := Fits.char hchar
  rwa [hencode, utf8Size_ascii (by omega)] at hfits

theorem Fits.pair {c d : CodeUnit} (hc : isLeadSurrogate c = true)
    (hd : isTrailSurrogate d = true) : Fits [c, d] 4 := by
  simp only [isLeadSurrogate, isTrailSurrogate, Bool.and_eq_true, decide_eq_true_eq,
    UInt16.le_iff_toNat_le] at hc hd
  have h1 : (0xd800 : UInt16).toNat = 0xd800 := rfl
  have h2 : (0xdbff : UInt16).toNat = 0xdbff := rfl
  have h3 : (0xdc00 : UInt16).toNat = 0xdc00 := rfl
  have h4 : (0xdfff : UInt16).toNat = 0xdfff := rfl
  rw [h1, h2] at hc
  rw [h3, h4] at hd
  have hnat : (pairChar c d).toNat =
      0x10000 + (c.toNat - 0xd800) * 0x400 + (d.toNat - 0xdc00) :=
    toNat_ofNat (.inr ⟨by omega, by omega⟩)
  have hne : pairChar c d ≠ '\n' := by
    intro he
    rw [he] at hnat
    have h5 : '\n'.toNat = 0x0a := rfl
    omega
  have hencode : encodeUnit (pairChar c d) = [c, d] := by
    rw [encodeUnit, hnat, if_neg (by omega)]
    have hfirst : 0xd800 + (0x10000 + (c.toNat - 0xd800) * 0x400 + (d.toNat - 0xdc00) - 0x10000) /
        0x400 = c.toNat := by omega
    have hsecond : 0xdc00 + (0x10000 + (c.toNat - 0xd800) * 0x400 + (d.toNat - 0xdc00) - 0x10000) %
        0x400 = d.toNat := by omega
    rw [hfirst, hsecond]
    exact congrArg₂ (fun a b => [a, b]) UInt16.ofNat_toNat UInt16.ofNat_toNat
  have hfits := Fits.char hne
  rw [hencode] at hfits
  exact hfits.mono (pairChar c d).utf8Size_le_four

theorem Fits.asciiText {s : Str} (h : ∀ c ∈ s, c.toNat < 0x80 ∧ c ≠ 0x0a) : Fits s s.length := by
  induction s with
  | nil => exact .nil
  | cons c s ih =>
    obtain ⟨hc, hne⟩ := h c List.mem_cons_self
    have htail := ih fun d hd => h d (List.mem_cons_of_mem c hd)
    have := (Fits.ascii hc hne).append htail
    rwa [List.singleton_append, Nat.add_comm] at this

theorem Fits.utf8_append {s : Str} {size : ℕ} (h : Fits s size) (c : Char) :
    utf8 (s ++ encodeUnit c) = utf8 s ++ String.utf8EncodeChar c := by
  obtain ⟨chars, rfl, -⟩ := h
  have happend : chars.flatMap encodeUnit ++ encodeUnit c = (chars ++ [c]).flatMap encodeUnit := by
    simp
  rw [happend, utf8, utf8, codePoints_flatMap, codePoints_flatMap, List.flatMap_append]
  simp

theorem Fits.length {s : Str} {size : ℕ} (h : Fits s size) : (utf8 s).length ≤ size := by
  obtain ⟨chars, rfl, hsize, -⟩ := h
  rwa [utf8, codePoints_flatMap]

theorem Fits.newline {s : Str} {size : ℕ} (h : Fits s size) : (0x0a : UInt8) ∉ utf8 s := by
  obtain ⟨chars, rfl, -, hnewline⟩ := h
  rw [utf8, codePoints_flatMap, List.mem_flatMap]
  rintro ⟨c, hc, hbyte⟩
  refine newline_not_mem_utf8EncodeChar (fun he => ?_) hbyte
  rw [he] at hc
  exact hnewline hc

theorem Fits.decode {s : Str} {size : ℕ} (h : Fits s size) (hbom : s.head? ≠ some 0xfeff) :
    decodeUtf8 (utf8 s) = some s := by
  obtain ⟨chars, rfl, -⟩ := h
  refine decodeUtf8_flatMap fun he => hbom ?_
  obtain ⟨rest, rfl⟩ := List.head?_eq_some_iff.mp he
  rfl

end Str
end Cyclo.Js
