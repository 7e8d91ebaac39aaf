import Cyclo.Js.Json
import Cyclo.Js.Utf8
import Cyclo.Js.SafeInteger
import Mathlib.Tactic.IntervalCases

/-! The text of JSON documents: what `JSON.stringify` writes for strings, counts and flat objects,
and `JSON.parse`. -/
namespace Cyclo.Js.Json
open Str

def hexDigit (n : ℕ) : CodeUnit := (if n < 10 then 0x30 + n else 0x61 + (n - 10)).toUInt16

/-- `\uXXXX` with lower case digits. -/
def unicodeEscape (c : CodeUnit) : Str :=
  [0x5c, 0x75, hexDigit (c.toNat / 0x1000), hexDigit (c.toNat / 0x100 % 0x10),
    hexDigit (c.toNat / 0x10 % 0x10), hexDigit (c.toNat % 0x10)]

/-- A unit that is not part of a surrogate pair, inside a string literal. -/
def quoteUnit (c : CodeUnit) : Str :=
  if c = 0x22 then [0x5c, 0x22]
  else if c = 0x5c then [0x5c, 0x5c]
  else if c = 0x08 then [0x5c, 0x62]
  else if c = 0x09 then [0x5c, 0x74]
  else if c = 0x0a then [0x5c, 0x6e]
  else if c = 0x0c then [0x5c, 0x66]
  else if c = 0x0d then [0x5c, 0x72]
  else if c < 0x20 || isLeadSurrogate c || isTrailSurrogate c then unicodeEscape c
  else [c]

def quoteUnits : Str → Str
  | [] => []
  | [c] => quoteUnit c
  | c :: d :: s =>
    if isLeadSurrogate c && isTrailSurrogate d then c :: d :: quoteUnits s
    else quoteUnit c ++ quoteUnits (d :: s)

def quote (s : Str) : Str := 0x22 :: quoteUnits s ++ [0x22]

/-- The decimal digits of a natural number. -/
def naturalText (n : ℕ) : Str :=
  if n < 10 then [(0x30 + n).toUInt16] else naturalText (n / 10) ++ [(0x30 + n % 10).toUInt16]

/-- The text of a number that is an integer from zero on, below `10 ^ 21`. -/
def integerText (x : Number) : Str := naturalText x.value.num.toNat

/-- The members of an object, each with the text of its value. -/
def membersText : List (Str × Str) → Str
  | [] => []
  | [(key, value)] => quote key ++ 0x3a :: value
  | (key, value) :: members => quote key ++ 0x3a :: value ++ 0x2c :: membersText members

def objectText (members : List (Str × Str)) : Str := 0x7b :: membersText members ++ [0x7d]

def isJsonSpace (c : CodeUnit) : Bool := c = 0x20 || c = 0x09 || c = 0x0a || c = 0x0d

def skipSpace (s : Str) : Str := s.dropWhile isJsonSpace

def hexValue (c : CodeUnit) : Option ℕ :=
  if 0x30 ≤ c ∧ c ≤ 0x39 then some (c.toNat - 0x30)
  else if 0x61 ≤ c ∧ c ≤ 0x66 then some (c.toNat - 0x61 + 10)
  else if 0x41 ≤ c ∧ c ≤ 0x46 then some (c.toNat - 0x41 + 10)
  else none

/-- The unit after a backslash, and the rest. -/
def parseEscape : Str → Option (CodeUnit × Str)
  | [] => none
  | c :: s =>
    if c = 0x22 ∨ c = 0x5c ∨ c = 0x2f then some (c, s)
    else if c = 0x62 then some (0x08, s)
    else if c = 0x66 then some (0x0c, s)
    else if c = 0x6e then some (0x0a, s)
    else if c = 0x72 then some (0x0d, s)
    else if c = 0x74 then some (0x09, s)
    else if c = 0x75 then
      match s with
      | a :: b :: d :: e :: s =>
        match hexValue a, hexValue b, hexValue d, hexValue e with
        | some a, some b, some d, some e =>
          some ((0x1000 * a + 0x100 * b + 0x10 * d + e).toUInt16, s)
        | _, _, _, _ => none
      | _ => none
    else none

/-- The rest of a string literal after its opening quote. -/
def parseChars : ℕ → Str → Option (Str × Str)
  | 0, _ => none
  | _, [] => none
  | fuel + 1, c :: s =>
    if c = 0x22 then some ([], s)
    else if c = 0x5c then
      match parseEscape s with
      | some (d, s) => (parseChars fuel s).map fun (text, rest) => (d :: text, rest)
      | none => none
    else if c < 0x20 then none
    else (parseChars fuel s).map fun (text, rest) => (c :: text, rest)

def parseString (s : Str) : Option (Str × Str) := parseChars (s.length + 1) s

/-- A run of digits, at least one. -/
def scanDigits (s : Str) : Option (Str × Str) :=
  match splitDigits s with
  | ([], _) => none
  | (digits, rest) => some (digits, rest)

/-- The whole digits of a number literal: a zero stands alone. -/
def scanWhole (s : Str) : Option (Str × Str) :=
  match s with
  | 0x30 :: s => some ([0x30], s)
  | s => scanDigits s

def scanFraction (s : Str) : Option (Str × Str) :=
  match s with
  | 0x2e :: s => (scanDigits s).map fun (digits, rest) => (0x2e :: digits, rest)
  | s => some ([], s)

def scanExponent (s : Str) : Option (Str × Str) :=
  match s with
  | [] => some ([], [])
  | c :: t =>
    if c = 0x65 ∨ c = 0x45 then
      match t with
      | 0x2b :: t => (scanDigits t).map fun (digits, rest) => (c :: 0x2b :: digits, rest)
      | 0x2d :: t => (scanDigits t).map fun (digits, rest) => (c :: 0x2d :: digits, rest)
      | t => (scanDigits t).map fun (digits, rest) => (c :: digits, rest)
    else some ([], c :: t)

def parseUnsigned (s : Str) : Option (Number × Str) := do
  let (whole, s) ← scanWhole s
  let (fraction, s) ← scanFraction s
  let (exponent, s) ← scanExponent s
  let value ← unsignedDecimal (whole ++ fraction ++ exponent)
  return (value, s)

def parseNumber (s : Str) : Option (Number × Str) :=
  match s with
  | 0x2d :: s => (parseUnsigned s).map fun (value, rest) => (value.neg, rest)
  | s => parseUnsigned s

/-- The array index that a property name spells. -/
def arrayIndex (key : Str) : Option ℕ :=
  if key = naturalText (decimal 0 key) ∧ decimal 0 key < 2 ^ 32 - 1 then some (decimal 0 key)
  else none

/-- `CreateDataProperty` on a list of properties. -/
def defineProperty (entries : List (Str × Json)) (entry : Str × Json) : List (Str × Json) :=
  if entry.1 ∈ entries.map Prod.fst then
    entries.map fun e => if e.1 = entry.1 then entry else e
  else entries ++ [entry]

/-- The properties of an object literal in the order of `Object.entries`: array indices first. -/
def ownProperties (members : List (Str × Json)) : List (Str × Json) :=
  let entries := members.foldl defineProperty []
  (entries.filter fun e => (arrayIndex e.1).isSome).mergeSort
      (fun e f => (arrayIndex e.1).getD 0 ≤ (arrayIndex f.1).getD 0) ++
    entries.filter fun e => (arrayIndex e.1).isNone

/-- The text after the next unit that is no space, if that unit is `c`. -/
def expect (c : CodeUnit) (s : Str) : Option Str :=
  match skipSpace s with
  | [] => none
  | d :: rest => if d = c then some rest else none

/-- A member's name and its colon. -/
def parseKey (s : Str) : Option (Str × Str) := do
  let s ← expect 0x22 s
  let (key, s) ← parseString s
  let s ← expect 0x3a s
  return (key, s)

mutual

def parseValue : ℕ → Str → Option (Json × Str)
  | 0, _ => none
  | fuel + 1, s =>
    match skipSpace s with
    | [] => none
    | c :: t =>
      if c = 0x7b then
        match expect 0x7d t with
        | some rest => some (.obj [], rest)
        | none => (parseMembers fuel t).map fun (members, rest) => (.obj (ownProperties members), rest)
      else if c = 0x5b then
        match expect 0x5d t with
        | some rest => some (.arr [], rest)
        | none => (parseItems fuel t).map fun (items, rest) => (.arr items, rest)
      else if c = 0x22 then (parseString t).map fun (text, rest) => (.str text, rest)
      else if Str.startsWith (c :: t) (lit "null") then some (.null, t.drop 3)
      else if Str.startsWith (c :: t) (lit "true") then some (.bool true, t.drop 3)
      else if Str.startsWith (c :: t) (lit "false") then some (.bool false, t.drop 4)
      else (parseNumber (c :: t)).map fun (value, rest) => (.num value, rest)

def parseItems : ℕ → Str → Option (List Json × Str)
  | 0, _ => none
  | fuel + 1, s =>
    match parseValue fuel s with
    | none => none
    | some (value, rest) =>
      match expect 0x2c rest with
      | some rest => (parseItems fuel rest).map fun (items, rest) => (value :: items, rest)
      | none => (expect 0x5d rest).map fun rest => ([value], rest)

def parseMembers : ℕ → Str → Option (List (Str × Json) × Str)
  | 0, _ => none
  | fuel + 1, s =>
    match parseKey s with
    | none => none
    | some (key, rest) =>
      match parseValue fuel rest with
      | none => none
      | some (value, rest) =>
        match expect 0x2c rest with
        | some rest =>
          (parseMembers fuel rest).map fun (members, rest) => ((key, value) :: members, rest)
        | none => (expect 0x7d rest).map fun rest => ([(key, value)], rest)

end

/-- `JSON.parse(s)`, absent where it throws. -/
def parse (s : Str) : Option Json :=
  match parseValue (s.length + 1) s with
  | some (value, rest) => if skipSpace rest = [] then some value else none
  | none => none

theorem isDigit_digit {n : ℕ} (h : n < 10) :
    isDigit (0x30 + n).toUInt16 = true ∧ digitValue (0x30 + n).toUInt16 = n := by
  interval_cases n <;> decide

theorem all_isDigit_naturalText (n : ℕ) : ∀ c ∈ naturalText n, isDigit c = true := by
  induction n using naturalText.induct with
  | case1 n h =>
    rw [naturalText, if_pos h]
    simpa using (isDigit_digit h).1
  | case2 n h ih =>
    rw [naturalText, if_neg h]
    intro c hc
    rcases List.mem_append.mp hc with hc | hc
    · exact ih c hc
    · rw [List.mem_singleton.mp hc]
      exact (isDigit_digit (Nat.mod_lt n (by norm_num))).1

theorem decimal_naturalText (n : ℕ) : decimal 0 (naturalText n) = n := by
  induction n using naturalText.induct with
  | case1 n h =>
    rw [naturalText, if_pos h]
    change 10 * 0 + digitValue (0x30 + n).toUInt16 = n
    rw [(isDigit_digit h).2]
    omega
  | case2 n h ih =>
    unfold decimal at ih ⊢
    rw [naturalText, if_neg h, List.foldl_append, ih, List.foldl_cons, List.foldl_nil,
      (isDigit_digit (Nat.mod_lt n (by norm_num))).2]
    omega

/-- The first digit is a zero only where it is the only one. -/
theorem naturalText_cases (n : ℕ) :
    n = 0 ∧ naturalText n = [0x30] ∨ ∃ c rest, naturalText n = c :: rest ∧ c ≠ 0x30 := by
  induction n using naturalText.induct with
  | case1 n h =>
    rw [naturalText, if_pos h]
    interval_cases n
    · exact .inl ⟨rfl, rfl⟩
    all_goals exact .inr ⟨_, _, rfl, by decide⟩
  | case2 n h ih =>
    rw [naturalText, if_neg h]
    rcases ih with ⟨hz, -⟩ | ⟨c, rest, hc, hne⟩
    · omega
    · exact .inr ⟨c, rest ++ _, by rw [hc]; rfl, hne⟩

theorem length_naturalText {n k : ℕ} (h : n < 10 ^ (k + 1)) : (naturalText n).length ≤ k + 1 := by
  induction k generalizing n with
  | zero =>
    rw [naturalText, if_pos (by simpa using h)]
    simp
  | succ k ih =>
    rw [naturalText]
    split_ifs
    · simp
    · have hdiv : n / 10 < 10 ^ (k + 1) := by
        rw [pow_succ] at h
        omega
      rw [List.length_append, List.length_singleton]
      have := ih hdiv
      omega

/-- What may follow a number in a document. -/
def EndsNumber (rest : Str) : Prop :=
  ∀ c, rest.head? = some c → isDigit c = false ∧ c ≠ 0x2e ∧ c ≠ 0x65 ∧ c ≠ 0x45

theorem splitDigits_append {digits rest : Str} (hdigits : ∀ c ∈ digits, isDigit c = true)
    (hrest : EndsNumber rest) : splitDigits (digits ++ rest) = (digits, rest) := by
  unfold splitDigits
  rw [List.span_eq_takeWhile_dropWhile, List.takeWhile_append_of_pos hdigits,
    List.dropWhile_append_of_pos hdigits]
  cases rest with
  | nil => simp
  | cons c rest =>
    have hc := (hrest c rfl).1
    simp [hc]

theorem scanWhole_naturalText {n : ℕ} {rest : Str} (hrest : EndsNumber rest) :
    scanWhole (naturalText n ++ rest) = some (naturalText n, rest) := by
  rcases naturalText_cases n with ⟨-, hn⟩ | ⟨c, digits, hn, hne⟩
  · rw [hn]
    rfl
  · have hsplit := splitDigits_append (all_isDigit_naturalText n) hrest
    rw [hn] at hsplit ⊢
    unfold scanWhole
    split
    · rename_i heq
      injection heq with hc
      exact absurd hc hne
    · rw [scanDigits, hsplit]

theorem unsignedDecimal_naturalText (n : ℕ) :
    unsignedDecimal (naturalText n) = some (Number.round n) := by
  have hall := all_isDigit_naturalText n
  have hend : EndsNumber [] := fun c hc => by cases hc
  have hsplit := splitDigits_append hall hend
  rw [List.append_nil] at hsplit
  have hne : naturalText n ≠ lit "Infinity" := by
    intro h
    have := hall 0x49 (by rw [h]; decide)
    exact absurd this (by decide)
  have hnil : naturalText n ≠ [] := by
    rcases naturalText_cases n with ⟨-, h⟩ | ⟨c, rest, h, -⟩ <;> rw [h] <;> simp
  unfold unsignedDecimal
  rw [if_neg hne, hsplit]
  dsimp only
  rw [if_neg (by simp [hnil])]
  have hzero : decimal (naturalText n |> decimal 0) [] = n := decimal_naturalText n
  simp only [exponentPart, Option.map_some]
  rw [hzero]
  norm_num

/-- A natural number at the start of a document. -/
theorem parseUnsigned_naturalText {n : ℕ} {rest : Str} (hrest : EndsNumber rest) :
    parseUnsigned (naturalText n ++ rest) = some (Number.round n, rest) := by
  have hfraction : scanFraction rest = some ([], rest) := by
    unfold scanFraction
    split
    · rename_i s
      exact absurd rfl (hrest 0x2e rfl).2.1
    · rfl
  have hexponent : scanExponent rest = some ([], rest) := by
    cases rest with
    | nil => rfl
    | cons c rest =>
      obtain ⟨-, -, he, hE⟩ := hrest c rfl
      unfold scanExponent
      exact if_neg (by simp [he, hE])
  have hvalue := unsignedDecimal_naturalText n
  unfold parseUnsigned
  rw [scanWhole_naturalText hrest]
  simp [hfraction, hexponent, hvalue]

/-- The first unit of a number's text starts no other kind of value. -/
theorem parseValue_naturalText {fuel n : ℕ} {rest : Str} (hrest : EndsNumber rest) :
    parseValue (fuel + 1) (naturalText n ++ rest) = some (.num (Number.round n), rest) := by
  have hnumber := parseUnsigned_naturalText (n := n) hrest
  obtain ⟨c, digits, hn⟩ : ∃ c digits, naturalText n = c :: digits := by
    rcases naturalText_cases n with ⟨-, h⟩ | ⟨c, digits, h, -⟩
    · exact ⟨_, _, h⟩
    · exact ⟨c, digits, h⟩
  have hdigit : isDigit c = true := all_isDigit_naturalText n c (by rw [hn]; simp)
  rw [hn, List.cons_append] at hnumber ⊢
  have hother : ∀ d : CodeUnit, isDigit d = false → c ≠ d := by
    intro d hd he
    rw [he, hd] at hdigit
    cases hdigit
  have hspace : skipSpace (c :: (digits ++ rest)) = c :: (digits ++ rest) := by
    have : isJsonSpace c = false := by
      simp [isJsonSpace, hother 0x20 rfl, hother 0x09 rfl, hother 0x0a rfl, hother 0x0d rfl]
    simp [skipSpace, this]
  have hliteral : ∀ (d : CodeUnit) (l : Str), isDigit d = false →
      Str.startsWith (c :: (digits ++ rest)) (d :: l) = false := by
    intro d l hd
    have hne : (d == c) = false := by simpa using fun he => hother d hd he.symm
    simp [Str.startsWith, List.isPrefixOf, hne]
  rw [parseValue, hspace]
  dsimp only
  rw [if_neg (hother 0x7b rfl), if_neg (hother 0x5b rfl), if_neg (hother 0x22 rfl),
    if_neg (by rw [show lit "null" = 0x6e :: lit "ull" by decide, hliteral _ _ rfl]; simp),
    if_neg (by rw [show lit "true" = 0x74 :: lit "rue" by decide, hliteral _ _ rfl]; simp),
    if_neg (by rw [show lit "false" = 0x66 :: lit "alse" by decide, hliteral _ _ rfl]; simp)]
  have hparse : parseNumber (c :: (digits ++ rest)) = parseUnsigned (c :: (digits ++ rest)) := by
    unfold parseNumber
    split
    · rename_i heq
      injection heq with hc
      exact absurd hc (hother 0x2d rfl)
    · rfl
  rw [hparse, hnumber]
  rfl

theorem hexValue_hexDigit {n : ℕ} (h : n < 16) : hexValue (hexDigit n) = some n := by
  interval_cases n <;> decide

theorem parseEscape_unicode (c : CodeUnit) (s : Str) :
    parseEscape ((unicodeEscape c).tail ++ s) = some (c, s) := by
  have hlt : c.toNat < 0x10000 := c.toNat_lt
  have hvalue : (0x1000 * (c.toNat / 0x1000) + 0x100 * (c.toNat / 0x100 % 0x10) +
      0x10 * (c.toNat / 0x10 % 0x10) + c.toNat % 0x10).toUInt16 = c := by
    rw [show 0x1000 * (c.toNat / 0x1000) + 0x100 * (c.toNat / 0x100 % 0x10) +
      0x10 * (c.toNat / 0x10 % 0x10) + c.toNat % 0x10 = c.toNat by omega]
    exact UInt16.ofNat_toNat
  change parseEscape (0x75 :: hexDigit _ :: hexDigit _ :: hexDigit _ :: hexDigit _ :: s) = _
  rw [parseEscape]
  simp only [hexValue_hexDigit (show c.toNat / 0x1000 < 16 by omega),
    hexValue_hexDigit (Nat.mod_lt (c.toNat / 0x100) (by norm_num : 0x10 > 0)),
    hexValue_hexDigit (Nat.mod_lt (c.toNat / 0x10) (by norm_num : 0x10 > 0)),
    hexValue_hexDigit (Nat.mod_lt c.toNat (by norm_num : 0x10 > 0)), hvalue]
  rfl

/-- One unit, escaped or not, and the rest of the literal. -/
theorem parseChars_quoteUnit (fuel : ℕ) (c : CodeUnit) (s : Str) :
    parseChars (fuel + 1) (quoteUnit c ++ s) =
      (parseChars fuel s).map fun (text, rest) => (c :: text, rest) := by
  have hescape : ∀ (e : CodeUnit), parseEscape (e :: s) = some (c, s) →
      parseChars (fuel + 1) (0x5c :: e :: s) =
        (parseChars fuel s).map fun (text, rest) => (c :: text, rest) := by
    intro e he
    rw [parseChars, if_neg (by decide), if_pos rfl, he]
  unfold quoteUnit
  split_ifs with h22 h5c h08 h09 h0a h0c h0d hcontrol
  · exact hescape 0x22 (by rw [h22]; rfl)
  · exact hescape 0x5c (by rw [h5c]; rfl)
  · exact hescape 0x62 (by rw [h08]; rfl)
  · exact hescape 0x74 (by rw [h09]; rfl)
  · exact hescape 0x6e (by rw [h0a]; rfl)
  · exact hescape 0x66 (by rw [h0c]; rfl)
  · exact hescape 0x72 (by rw [h0d]; rfl)
  · have he := parseEscape_unicode c s
    change parseChars (fuel + 1) (0x5c :: ((unicodeEscape c).tail ++ s)) = _
    rw [parseChars, if_neg (by decide), if_pos rfl, he]
  · have hge : ¬ c < 0x20 := by
      intro hlt
      simp [hlt] at hcontrol
    rw [List.singleton_append, parseChars, if_neg h22, if_neg h5c, if_neg hge]

/-- A unit that is written as it is. -/
theorem parseChars_cons {fuel : ℕ} {c : CodeUnit} {s : Str} (h : 0x20 ≤ c) (h22 : c ≠ 0x22)
    (h5c : c ≠ 0x5c) :
    parseChars (fuel + 1) (c :: s) =
      (parseChars fuel s).map fun (text, rest) => (c :: text, rest) := by
  rw [parseChars, if_neg h22, if_neg h5c, if_neg (UInt16.not_lt.mpr h)]

theorem surrogate_plain {c : CodeUnit} (h : isLeadSurrogate c = true ∨ isTrailSurrogate c = true) :
    0x20 ≤ c ∧ c ≠ 0x22 ∧ c ≠ 0x5c := by
  simp only [isLeadSurrogate, isTrailSurrogate, Bool.and_eq_true, decide_eq_true_eq,
    UInt16.le_iff_toNat_le] at h
  simp only [UInt16.le_iff_toNat_le, ne_eq, ← UInt16.toNat_inj]
  have h1 : (0xd800 : UInt16).toNat = 0xd800 := rfl
  have h2 : (0xdc00 : UInt16).toNat = 0xdc00 := rfl
  have h3 : (0x20 : UInt16).toNat = 0x20 := rfl
  have h4 : (0x22 : UInt16).toNat = 0x22 := rfl
  have h5 : (0x5c : UInt16).toNat = 0x5c := rfl
  omega

theorem length_quoteUnit_pos (c : CodeUnit) : 0 < (quoteUnit c).length := by
  unfold quoteUnit
  split_ifs <;> simp [unicodeEscape]

/-- A string literal reads back as the string it was written for. -/
theorem parseChars_quoteUnits (s rest : Str) {fuel : ℕ} (h : (quoteUnits s).length < fuel) :
    parseChars fuel (quoteUnits s ++ 0x22 :: rest) = some (s, rest) := by
  induction s using quoteUnits.induct generalizing fuel with
  | case1 =>
    obtain ⟨fuel, rfl⟩ := Nat.exists_eq_add_of_lt h
    rfl
  | case2 c =>
    have hpos := length_quoteUnit_pos c
    rw [quoteUnits] at h ⊢
    obtain ⟨fuel, rfl⟩ := Nat.exists_eq_add_of_le' (show 2 ≤ fuel by omega)
    rw [parseChars_quoteUnit]
    rfl
  | case3 c d s hpair ih =>
    rw [quoteUnits, if_pos hpair] at h ⊢
    rw [Bool.and_eq_true] at hpair
    rw [List.length_cons, List.length_cons] at h
    obtain ⟨fuel, rfl⟩ := Nat.exists_eq_add_of_le' (show 2 ≤ fuel by omega)
    obtain ⟨hc, hc22, hc5c⟩ := surrogate_plain (.inl hpair.1)
    obtain ⟨hd, hd22, hd5c⟩ := surrogate_plain (.inr hpair.2)
    rw [List.cons_append, List.cons_append, parseChars_cons hc hc22 hc5c,
      parseChars_cons hd hd22 hd5c, ih (by omega)]
    rfl
  | case4 c d s hpair ih =>
    have hpos := length_quoteUnit_pos c
    rw [quoteUnits, if_neg hpair] at h ⊢
    rw [List.length_append] at h
    obtain ⟨fuel, rfl⟩ := Nat.exists_eq_add_of_le' (show 1 ≤ fuel by omega)
    rw [List.append_assoc, parseChars_quoteUnit, ih (by omega)]
    rfl

theorem parseString_quoteUnits (s rest : Str) :
    parseString (quoteUnits s ++ 0x22 :: rest) = some (s, rest) := by
  refine parseChars_quoteUnits s rest ?_
  rw [List.length_append]
  omega

theorem parseValue_quote (fuel : ℕ) (s rest : Str) :
    parseValue (fuel + 1) (quote s ++ rest) = some (.str s, rest) := by
  have hspace : skipSpace (quote s ++ rest) = 0x22 :: (quoteUnits s ++ 0x22 :: rest) := by
    have happend : quote s ++ rest = 0x22 :: (quoteUnits s ++ 0x22 :: rest) := by
      simp [quote]
    rw [happend]
    rfl
  rw [parseValue, hspace]
  dsimp only
  rw [if_neg (by decide), if_neg (by decide), if_pos rfl, parseString_quoteUnits]
  rfl

/-- Every text before the end of a member reads as the value. -/
def Reads (text : Str) (value : Json) : Prop :=
  ∀ fuel rest, rest.head? = some 0x2c ∨ rest.head? = some 0x7d →
    parseValue (fuel + 1) (text ++ rest) = some (value, rest)

theorem reads_quote (s : Str) : Reads (quote s) (.str s) := fun fuel rest _ =>
  parseValue_quote fuel s rest

theorem reads_naturalText (n : ℕ) : Reads (naturalText n) (.num (Number.round n)) := by
  intro fuel rest hrest
  refine parseValue_naturalText fun c hc => ?_
  rcases hrest with h | h <;> rw [hc] at h <;> cases h <;> decide

/-- A unit that is no space. -/
theorem expect_cons {c d : CodeUnit} (s : Str) (h : isJsonSpace d = false) :
    expect c (d :: s) = if d = c then some s else none := by
  have hskip : skipSpace (d :: s) = d :: s := by
    simp [skipSpace, h]
  rw [expect, hskip]

theorem quote_append (s rest : Str) : quote s ++ rest = 0x22 :: (quoteUnits s ++ 0x22 :: rest) := by
  simp [quote]

theorem parseKey_quote (key rest : Str) :
    parseKey (quote key ++ 0x3a :: rest) = some (key, rest) := by
  rw [quote_append, parseKey, expect_cons _ (by decide), if_pos rfl]
  change (parseString _).bind _ = _
  rw [parseString_quoteUnits]
  rfl

/-- The members of an object and what they read as. -/
def ReadsMembers : List (Str × Str) → List (Str × Json) → Prop :=
  List.Forall₂ fun text entry => text.1 = entry.1 ∧ Reads text.2 entry.2

theorem parseMembers_membersText {members : List (Str × Str)} {entries : List (Str × Json)}
    (h : ReadsMembers members entries) (hne : members ≠ []) (rest : Str) {fuel : ℕ}
    (hfuel : members.length < fuel) :
    parseMembers fuel (membersText members ++ 0x7d :: rest) = some (entries, rest) := by
  induction h generalizing fuel with
  | nil => exact absurd rfl hne
  | @cons text entry members entries hfirst hrest ih =>
    obtain ⟨key, valueText⟩ := text
    obtain ⟨key', value⟩ := entry
    obtain ⟨rfl, hreads⟩ := hfirst
    rw [List.length_cons] at hfuel
    obtain ⟨fuel, rfl⟩ := Nat.exists_eq_add_of_le' (show 2 ≤ fuel by omega)
    cases hrest with
    | nil =>
      have hvalue := hreads fuel (0x7d :: rest) (.inr rfl)
      have happend : membersText [(key, valueText)] ++ 0x7d :: rest =
          quote key ++ 0x3a :: (valueText ++ 0x7d :: rest) := by
        simp [membersText]
      rw [happend, parseMembers, parseKey_quote]
      dsimp only at hvalue ⊢
      rw [hvalue]
      rfl
    | @cons text entry members entries hnext hmore =>
      have hvalue := hreads fuel (0x2c :: (membersText (text :: members) ++ 0x7d :: rest)) (.inl rfl)
      have happend : membersText ((key, valueText) :: text :: members) ++ 0x7d :: rest =
          quote key ++ 0x3a ::
            (valueText ++ 0x2c :: (membersText (text :: members) ++ 0x7d :: rest)) := by
        simp [membersText]
      have hih := ih (by simp) (show (text :: members).length < fuel + 1 by omega)
      rw [happend, parseMembers, parseKey_quote]
      dsimp only at hvalue ⊢
      rw [hvalue]
      dsimp only
      rw [expect_cons _ (by decide), if_pos rfl]
      dsimp only
      rw [hih]
      rfl

theorem length_membersText (members : List (Str × Str)) :
    members.length ≤ (membersText members).length := by
  induction members using membersText.induct with
  | case1 => exact le_rfl
  | case2 key value =>
    rw [membersText, List.length_append, List.length_cons, List.length_cons, List.length_nil]
    omega
  | case3 key value members hne ih =>
    rw [membersText]
    · simp only [List.length_append, List.length_cons]
      omega
    · exact hne

theorem foldl_defineProperty {acc entries : List (Str × Json)}
    (h : ((acc ++ entries).map Prod.fst).Nodup) :
    entries.foldl defineProperty acc = acc ++ entries := by
  induction entries generalizing acc with
  | nil => simp
  | cons entry entries ih =>
    have hnew : entry.1 ∉ acc.map Prod.fst := by
      rw [List.map_append, List.map_cons] at h
      exact fun hmem => (List.nodup_append.mp h).2.2 _ hmem _ List.mem_cons_self rfl
    rw [List.foldl_cons, defineProperty, if_neg hnew, ih (by simpa using h)]
    simp

theorem ownProperties_eq_self {entries : List (Str × Json)} (hnodup : (entries.map Prod.fst).Nodup)
    (hindex : ∀ key ∈ entries.map Prod.fst, arrayIndex key = none) :
    ownProperties entries = entries := by
  have hfold : entries.foldl defineProperty [] = entries := foldl_defineProperty hnodup
  have hnone : ∀ e ∈ entries, arrayIndex e.1 = none := fun e he =>
    hindex e.1 (List.mem_map_of_mem he)
  have hfirst : (entries.filter fun e => (arrayIndex e.1).isSome) = [] := by
    rw [List.filter_eq_nil_iff]
    intro e he
    simp [hnone e he]
  have hrest : (entries.filter fun e => (arrayIndex e.1).isNone) = entries := by
    rw [List.filter_eq_self]
    intro e he
    simp [hnone e he]
  unfold ownProperties
  dsimp only
  rw [hfold, hfirst, hrest, List.mergeSort_nil, List.nil_append]

/-- An object with distinct names, none of them an array index, reads back with its entries. -/
theorem parse_objectText {members : List (Str × Str)} {entries : List (Str × Json)}
    (h : ReadsMembers members entries) (hne : members ≠ [])
    (hnodup : (entries.map Prod.fst).Nodup)
    (hindex : ∀ key ∈ entries.map Prod.fst, arrayIndex key = none) :
    parse (objectText members) = some (.obj entries) := by
  have hown := ownProperties_eq_self hnodup hindex
  have hlength : members.length < (objectText members).length := by
    have := length_membersText members
    simp only [objectText, List.cons_append, List.length_cons, List.length_append, List.length_nil]
    omega
  obtain ⟨more, hc⟩ : ∃ more, membersText members = 0x22 :: more := by
    match members, hne with
    | [(key, value)], _ => exact ⟨_, rfl⟩
    | (key, value) :: _ :: _, _ => exact ⟨_, rfl⟩
  have hmembers := parseMembers_membersText h hne [] hlength
  have hfirst : expect 0x7d (membersText members ++ [0x7d]) = none := by
    rw [hc, List.cons_append, expect_cons _ (by decide), if_neg (by decide)]
  have hspace : skipSpace (objectText members) = 0x7b :: (membersText members ++ [0x7d]) := rfl
  unfold parse
  rw [parseValue, hspace]
  dsimp only
  rw [if_pos rfl, hfirst]
  dsimp only
  rw [hmembers, Option.map_some, hown]
  rfl

theorem hexDigit_ascii {n : ℕ} (h : n < 16) : (hexDigit n).toNat < 0x80 ∧ hexDigit n ≠ 0x0a := by
  interval_cases n <;> decide

theorem fits_unicodeEscape (c : CodeUnit) : Fits (unicodeEscape c) 6 := by
  have hlt : c.toNat < 0x10000 := c.toNat_lt
  refine Fits.asciiText fun d hd => ?_
  simp only [unicodeEscape, List.mem_cons, List.not_mem_nil, or_false] at hd
  rcases hd with rfl | rfl | rfl | rfl | rfl | rfl
  · decide
  · decide
  · exact hexDigit_ascii (by omega)
  · exact hexDigit_ascii (Nat.mod_lt _ (by norm_num))
  · exact hexDigit_ascii (Nat.mod_lt _ (by norm_num))
  · exact hexDigit_ascii (Nat.mod_lt _ (by norm_num))

theorem fits_quoteUnit (c : CodeUnit) : Fits (quoteUnit c) 6 := by
  have hshort : ∀ e : CodeUnit, e.toNat < 0x80 → e ≠ 0x0a → Fits [0x5c, e] 6 := by
    intro e he hne
    exact ((Fits.ascii (c := 0x5c) (by decide) (by decide)).append (Fits.ascii he hne)).mono
      (by norm_num)
  unfold quoteUnit
  split_ifs with h22 h5c h08 h09 h0a h0c h0d hcontrol
  · exact hshort 0x22 (by decide) (by decide)
  · exact hshort 0x5c (by decide) (by decide)
  · exact hshort 0x62 (by decide) (by decide)
  · exact hshort 0x74 (by decide) (by decide)
  · exact hshort 0x6e (by decide) (by decide)
  · exact hshort 0x66 (by decide) (by decide)
  · exact hshort 0x72 (by decide) (by decide)
  · exact fits_unicodeEscape c
  · simp only [Bool.or_eq_true, not_or, Bool.not_eq_true] at hcontrol
    exact (Fits.unit h0a hcontrol.1.2 hcontrol.2).mono (by norm_num)

theorem fits_quoteUnits (s : Str) : Fits (quoteUnits s) (6 * s.length) := by
  induction s using quoteUnits.induct with
  | case1 => exact .nil
  | case2 c =>
    rw [quoteUnits]
    exact fits_quoteUnit c
  | case3 c d s hpair ih =>
    rw [quoteUnits, if_pos hpair]
    rw [Bool.and_eq_true] at hpair
    refine ((Fits.pair hpair.1 hpair.2).append ih).mono ?_
    simp only [List.length_cons]
    omega
  | case4 c d s hpair ih =>
    rw [quoteUnits, if_neg hpair]
    refine ((fits_quoteUnit c).append ih).mono ?_
    simp only [List.length_cons]
    omega

theorem fits_quote (s : Str) : Fits (quote s) (6 * s.length + 2) := by
  have hmark := Fits.ascii (c := 0x22) (by decide) (by decide)
  exact ((hmark.append (fits_quoteUnits s)).append hmark).mono (by omega)

theorem fits_naturalText {n k : ℕ} (h : n < 10 ^ (k + 1)) : Fits (naturalText n) (k + 1) := by
  refine (Fits.asciiText fun c hc => ?_).mono (length_naturalText h)
  have hdigit := all_isDigit_naturalText n c hc
  simp only [isDigit, Bool.and_eq_true, decide_eq_true_eq, UInt16.le_iff_toNat_le] at hdigit
  have h1 : (0x30 : UInt16).toNat = 0x30 := rfl
  have h2 : (0x39 : UInt16).toNat = 0x39 := rfl
  refine ⟨by omega, ?_⟩
  rintro rfl
  exact absurd hdigit.1 (by decide)

/-- A member of an object takes `size` bytes at most. -/
def MemberFits (member : Str × Str) (size : ℕ) : Prop :=
  Fits (quote member.1 ++ 0x3a :: member.2) size

theorem memberFits {key value : Str} {m n : ℕ} (hkey : key.length ≤ m) (hvalue : Fits value n) :
    MemberFits (key, value) (6 * m + 3 + n) := by
  have hcolon := Fits.ascii (c := 0x3a) (by decide) (by decide)
  exact ((fits_quote key).append (hcolon.append hvalue)).mono (by omega)

theorem fits_membersText {members : List (Str × Str)} {sizes : List ℕ}
    (h : List.Forall₂ MemberFits members sizes) :
    Fits (membersText members) (sizes.sum + members.length) := by
  have hcomma := Fits.ascii (c := 0x2c) (by decide) (by decide)
  induction h with
  | nil => exact Fits.nil
  | @cons member size members sizes hfirst hrest ih =>
    obtain ⟨key, value⟩ := member
    cases hrest with
    | nil =>
      refine Fits.mono (show Fits (membersText [(key, value)]) size from hfirst) ?_
      simp
    | @cons next nextSize members sizes hnext hmore =>
      have happend : membersText ((key, value) :: next :: members) =
          (quote key ++ 0x3a :: value) ++ ([0x2c] ++ membersText (next :: members)) := by
        simp [membersText]
      rw [happend]
      refine (Fits.append hfirst (hcomma.append ih)).mono ?_
      simp only [List.sum_cons, List.length_cons]
      omega

theorem fits_objectText {members : List (Str × Str)} {sizes : List ℕ}
    (h : List.Forall₂ MemberFits members sizes) :
    Fits (objectText members) (sizes.sum + members.length + 2) := by
  have hopen := Fits.ascii (c := 0x7b) (by decide) (by decide)
  have hclose := Fits.ascii (c := 0x7d) (by decide) (by decide)
  exact ((hopen.append (fits_membersText h)).append hclose).mono (by omega)

theorem getLast?_objectText {members : List (Str × Str)} {sizes : List ℕ}
    (h : List.Forall₂ MemberFits members sizes) :
    (utf8 (objectText members)).getLast? = some 0x7d := by
  have hopen := Fits.ascii (c := 0x7b) (by decide) (by decide)
  have happend : utf8 (objectText members) =
      utf8 ([0x7b] ++ membersText members) ++ String.utf8EncodeChar '}' :=
    (hopen.append (fits_membersText h)).utf8_append '}'
  rw [happend, List.getLast?_append]
  rfl

end Cyclo.Js.Json
