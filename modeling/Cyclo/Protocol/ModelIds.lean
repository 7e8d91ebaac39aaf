import Cyclo.Protocol.Ids
import Cyclo.Python.CodePoints

/-! The host's validators of model identifiers, and their agreement with those of the protocol. -/
namespace Cyclo.ModelIds
open Js Python

def maxProviderPrefixLength : ℕ := 64

def maxLocalModelIdUtf16Units : ℕ := 1024

def reservedProviderPrefixes : List (List CodePoint) :=
  ["__proto__", "constructor", "gateway", "prototype"].map codePoints

def isLower (c : CodePoint) : Bool := 0x61 ≤ c.val && c.val ≤ 0x7a

def isDigit (c : CodePoint) : Bool := 0x30 ≤ c.val && c.val ≤ 0x39

/-- The class `[a-z0-9_-]`. -/
def isPrefixCharacter (c : CodePoint) : Bool :=
  isLower c || isDigit c || c.val = 0x5f || c.val = 0x2d

/-- `_PROVIDER_PREFIX.fullmatch`: `[a-z0-9][a-z0-9_-]{0,63}` -/
def fullmatchProviderPrefix : List CodePoint → Bool
  | [] => false
  | c :: s => (isLower c || isDigit c) && s.length ≤ maxProviderPrefixLength - 1 &&
      s.all isPrefixCharacter

def isProviderPrefix (value : List CodePoint) : Bool :=
  fullmatchProviderPrefix value && value ∉ reservedProviderPrefixes

def utf16UnitCount (value : List CodePoint) : ℕ := (encodeUtf16le value).length / 2

def isHighSurrogate (c : CodePoint) : Bool := 0xd800 ≤ c.val && c.val ≤ 0xdbff

def isLowSurrogate (c : CodePoint) : Bool := 0xdc00 ≤ c.val && c.val ≤ 0xdfff

/-- `_has_unpaired_surrogate`; a high surrogate takes a low one after it along. -/
def hasUnpairedSurrogate : List CodePoint → Bool
  | [] => false
  | [c] => isHighSurrogate c || isLowSurrogate c
  | c :: d :: s =>
    if isHighSurrogate c then
      if isLowSurrogate d then hasUnpairedSurrogate s else true
    else if isLowSurrogate c then true
    else hasUnpairedSurrogate (d :: s)

/-- What no character of a local identifier may be. -/
def isExcluded (c : CodePoint) : Bool :=
  isSpacePoint c || c.val = 0xfeff || c.val ≤ 0x1f || c.val = 0x7f

def isLocalModelId (value : List CodePoint) : Bool :=
  value ≠ [] && utf16UnitCount value ≤ maxLocalModelIdUtf16Units &&
    !hasUnpairedSurrogate value && !value.any isExcluded

/-- `value.partition("/")`, nothing without a separator. -/
def partition (value : List CodePoint) : Option (List CodePoint × List CodePoint) :=
  match value.span (fun c => c.val ≠ 0x2f) with
  | (provider, _ :: model) => some (provider, model)
  | (_, []) => none

def splitPublicModelId (value : List CodePoint) : Option (List CodePoint × List CodePoint) :=
  match partition value with
  | none => none
  | some (provider, model) =>
    if !isProviderPrefix provider || !isLocalModelId model then none else some (provider, model)

variable {c : CodePoint} {value : List CodePoint}

theorem surrogate_units (h : 0x10000 ≤ c.val) :
    ∃ high low : CodeUnit, utf16Units c = [high, low] ∧ Protocol.isHighSurrogate high = true ∧
      Protocol.isLowSurrogate low = true := by
  have hc := c.isLt
  refine ⟨_, _, if_neg (not_lt.mpr h), ?_, ?_⟩
  · simp [Protocol.isHighSurrogate, UInt16.le_iff_toNat_le]
    omega
  · simp [Protocol.isLowSurrogate, UInt16.le_iff_toNat_le]
    omega

theorem isLower_unit (h : c.val < 0x10000) : Protocol.isLower c.val.toUInt16 = isLower c := by
  have hn := toNat_unit h
  simp only [Protocol.isLower, isLower, UInt16.le_iff_toNat_le, hn]
  rfl

theorem isDigit_unit (h : c.val < 0x10000) : Str.isDigit c.val.toUInt16 = isDigit c := by
  have hn := toNat_unit h
  simp only [Str.isDigit, isDigit, UInt16.le_iff_toNat_le, hn]
  rfl

theorem unit_eq_iff (h : c.val < 0x10000) (u : CodeUnit) : c.val.toUInt16 = u ↔ c.val = u.toNat := by
  rw [← UInt16.toNat_inj, toNat_unit h]

theorem nameUnit_unit (h : c.val < 0x10000) :
    Protocol.allNameCharacters.nameUnit c.val.toUInt16 =
      (!isExcluded c && !isHighSurrogate c && !isLowSurrogate c) := by
  have hn := toNat_unit h
  simp only [Protocol.allNameCharacters.nameUnit, Protocol.isUnicodeSpace, isExcluded, isSpacePoint,
    isHighSurrogate, isLowSurrogate, UInt16.le_iff_toNat_le, hn, unit_eq_iff h]
  rw [Bool.eq_iff_iff]
  simp
  omega

theorem isHighSurrogate_unit (h : c.val < 0x10000) :
    Protocol.isHighSurrogate c.val.toUInt16 = isHighSurrogate c := by
  have hn := toNat_unit h
  simp only [Protocol.isHighSurrogate, isHighSurrogate, UInt16.le_iff_toNat_le, hn]
  rfl

theorem isLowSurrogate_unit (h : c.val < 0x10000) :
    Protocol.isLowSurrogate c.val.toUInt16 = isLowSurrogate c := by
  have hn := toNat_unit h
  simp only [Protocol.isLowSurrogate, isLowSurrogate, UInt16.le_iff_toNat_le, hn]
  rfl

theorem isHighSurrogate_lt (h : isHighSurrogate c = true) : c.val < 0x10000 := by
  simp [isHighSurrogate] at h
  omega

theorem isLowSurrogate_lt (h : isLowSurrogate c = true) : c.val < 0x10000 := by
  simp [isLowSurrogate] at h
  omega

theorem not_isLowSurrogate_of_high {u : CodeUnit} (h : Protocol.isHighSurrogate u = true) :
    Protocol.isLowSurrogate u = false := by
  simp [Protocol.isHighSurrogate, Protocol.isLowSurrogate, UInt16.le_iff_toNat_le] at h ⊢
  omega

theorem isExcluded_astral (h : 0x10000 ≤ c.val) : isExcluded c = false := by
  simp [isExcluded, isSpacePoint]
  omega

theorem allNameCharacters_cons {u : CodeUnit} (s : Str)
    (h : Protocol.isHighSurrogate u = false) :
    Protocol.allNameCharacters (u :: s) =
      (Protocol.allNameCharacters.nameUnit u && Protocol.allNameCharacters s) := by
  cases s with
  | nil => simp [Protocol.allNameCharacters]
  | cons d s => simp [Protocol.allNameCharacters, h]

theorem allNameCharacters_pair {high low : CodeUnit} (s : Str)
    (hh : Protocol.isHighSurrogate high = true) (hl : Protocol.isLowSurrogate low = true) :
    Protocol.allNameCharacters (high :: low :: s) = Protocol.allNameCharacters s := by
  rw [Protocol.allNameCharacters, hh, hl]
  rfl

/-- A high surrogate that no low one follows is not a name character. -/
theorem allNameCharacters_unpaired {u : CodeUnit} (s : Str)
    (hu : Protocol.isHighSurrogate u = true)
    (hs : ∀ low ∈ s.head?, Protocol.isLowSurrogate low = false) :
    Protocol.allNameCharacters (u :: s) = false := by
  have hunit : Protocol.allNameCharacters.nameUnit u = false := by
    simp [Protocol.isHighSurrogate, Protocol.allNameCharacters.nameUnit,
      UInt16.le_iff_toNat_le] at hu ⊢
    omega
  cases s with
  | nil => rw [Protocol.allNameCharacters, hunit]
  | cons d s =>
    have hd := hs d (by simp)
    rw [Protocol.allNameCharacters, hu, hd, hunit]
    rfl

theorem head_units_not_low (h : isLowSurrogate c = false) (s : Str) :
    ∀ low ∈ (utf16Units c ++ s).head?, Protocol.isLowSurrogate low = false := by
  intro low hlow
  by_cases hc : c.val < 0x10000
  · rw [utf16Units_of_lt hc] at hlow
    cases hlow
    rw [isLowSurrogate_unit hc, h]
  · obtain ⟨high, l, hunits, hhigh, -⟩ := surrogate_units (not_lt.mp hc)
    rw [hunits] at hlow
    cases hlow
    exact not_isLowSurrogate_of_high hhigh

/-- A character that is no surrogate is a name character by itself. -/
theorem allNameCharacters_character (s : List CodePoint) (hh : isHighSurrogate c = false)
    (hl : isLowSurrogate c = false) :
    Protocol.allNameCharacters (utf16 (c :: s)) =
      (!isExcluded c && Protocol.allNameCharacters (utf16 s)) := by
  rw [utf16_cons]
  by_cases hc : c.val < 0x10000
  · have hunit := isHighSurrogate_unit hc
    rw [hh] at hunit
    rw [utf16Units_of_lt hc, List.singleton_append, allNameCharacters_cons _ hunit,
      nameUnit_unit hc, hh, hl]
    simp
  · obtain ⟨high, low, hunits, hhigh, hlow⟩ := surrogate_units (not_lt.mp hc)
    rw [hunits, isExcluded_astral (not_lt.mp hc)]
    exact allNameCharacters_pair _ hhigh hlow

theorem allNameCharacters_low (s : Str) (h : isLowSurrogate c = true) :
    Protocol.allNameCharacters (utf16Units c ++ s) = false := by
  have hc := isLowSurrogate_lt h
  have hhigh : isHighSurrogate c = false := by
    simp [isHighSurrogate, isLowSurrogate] at h ⊢
    omega
  have hunit := isHighSurrogate_unit hc
  rw [hhigh] at hunit
  rw [utf16Units_of_lt hc, List.singleton_append, allNameCharacters_cons _ hunit,
    nameUnit_unit hc, h]
  simp

theorem allNameCharacters_utf16 (value : List CodePoint) :
    Protocol.allNameCharacters (utf16 value) =
      (!hasUnpairedSurrogate value && !value.any isExcluded) := by
  induction value using hasUnpairedSurrogate.induct with
  | case1 => rfl
  | case2 c =>
    cases hl : isLowSurrogate c with
    | true =>
      rw [utf16_cons, allNameCharacters_low _ hl, hasUnpairedSurrogate, hl]
      simp
    | false =>
      cases hh : isHighSurrogate c with
      | false =>
        rw [allNameCharacters_character [] hh hl, hasUnpairedSurrogate, hh, hl]
        simp [Protocol.allNameCharacters]
      | true =>
        have hc := isHighSurrogate_lt hh
        have hunit := isHighSurrogate_unit hc
        rw [hh] at hunit
        rw [utf16_cons, utf16Units_of_lt hc, List.singleton_append, utf16_nil,
          allNameCharacters_unpaired [] hunit (by simp), hasUnpairedSurrogate, hh]
        rfl
  | case3 c d s hh hl ih =>
    have hc := isHighSurrogate_lt hh
    have hd := isLowSurrogate_lt hl
    have hhigh := isHighSurrogate_unit hc
    rw [hh] at hhigh
    have hlow := isLowSurrogate_unit hd
    rw [hl] at hlow
    have hexcluded : isExcluded c = false ∧ isExcluded d = false := by
      simp [isHighSurrogate, isLowSurrogate] at hh hl
      simp [isExcluded, isSpacePoint]
      omega
    rw [utf16_cons, utf16_cons, utf16Units_of_lt hc, utf16Units_of_lt hd,
      List.singleton_append, List.singleton_append, allNameCharacters_pair _ hhigh hlow, ih,
      hasUnpairedSurrogate, if_pos hh, if_pos hl, List.any_cons, List.any_cons, hexcluded.1,
      hexcluded.2, Bool.false_or, Bool.false_or]
  | case4 c d s hh hl =>
    have hc := isHighSurrogate_lt hh
    have hunit := isHighSurrogate_unit hc
    rw [hh] at hunit
    rw [utf16_cons, utf16_cons, utf16Units_of_lt hc, List.singleton_append,
      allNameCharacters_unpaired _ hunit (head_units_not_low (by simpa using hl) _),
      hasUnpairedSurrogate, if_pos hh, if_neg hl]
    rfl
  | case5 c d s hh hl =>
    rw [utf16_cons, allNameCharacters_low _ hl, hasUnpairedSurrogate, if_neg hh, if_pos hl]
    rfl
  | case6 c d s hh hl ih =>
    rw [allNameCharacters_character (d :: s) (by simpa using hh) (by simpa using hl), ih,
      hasUnpairedSurrogate, if_neg hh, if_neg hl]
    simp [Bool.and_left_comm]

theorem utf16_eq_nil : utf16 value = [] ↔ value = [] := by
  cases value with
  | nil => simp
  | cons c s =>
    rw [utf16_cons]
    unfold utf16Units
    split_ifs <;> simp

theorem isLocalModelId_utf16 (value : List CodePoint) :
    Protocol.isLocalModelId (utf16 value) = isLocalModelId value := by
  have hcount : utf16UnitCount value = (utf16 value).length := by
    rw [utf16UnitCount, length_encodeUtf16le]
    omega
  unfold Protocol.isLocalModelId isLocalModelId
  rw [allNameCharacters_utf16, hcount, Bool.eq_iff_iff]
  simp only [ne_eq, utf16_eq_nil, Bool.and_eq_true, decide_eq_true_eq,
    Protocol.maxLocalModelIdUnits, maxLocalModelIdUtf16Units]
  constructor
  · rintro ⟨⟨hlen, hne⟩, hpaired, hallowed⟩
    exact ⟨⟨⟨hne, hlen⟩, hpaired⟩, hallowed⟩
  · rintro ⟨⟨⟨hne, hlen⟩, hpaired⟩, hallowed⟩
    exact ⟨⟨hlen, hne⟩, hpaired, hallowed⟩

/-- The class `[a-z0-9_-]` of code units. -/
def isPrefixUnit (u : CodeUnit) : Bool :=
  Protocol.isLower u || Str.isDigit u || u = 0x5f || u = 0x2d

theorem isPrefixUnit_unit (h : c.val < 0x10000) :
    isPrefixUnit c.val.toUInt16 = isPrefixCharacter c := by
  simp only [isPrefixUnit, isPrefixCharacter, isLower_unit h, isDigit_unit h, unit_eq_iff h]
  rfl

theorem isPrefixCharacter_lt (h : isPrefixCharacter c = true) : c.val < 0x10000 := by
  simp [isPrefixCharacter, isLower, isDigit] at h
  omega

theorem isPrefixUnit_high {u : CodeUnit} (h : Protocol.isHighSurrogate u = true) :
    isPrefixUnit u = false := by
  simp [Protocol.isHighSurrogate, isPrefixUnit, Protocol.isLower, Str.isDigit,
    UInt16.le_iff_toNat_le, ← UInt16.toNat_inj] at h ⊢
  omega

theorem all_isPrefixUnit (value : List CodePoint) :
    (utf16 value).all isPrefixUnit = value.all isPrefixCharacter := by
  unfold utf16
  rw [List.all_flatMap]
  congr 1
  funext c
  by_cases hc : c.val < 0x10000
  · rw [utf16Units_of_lt hc, List.all_cons, List.all_nil, Bool.and_true, isPrefixUnit_unit hc]
  · obtain ⟨high, low, hunits, hhigh, -⟩ := surrogate_units (not_lt.mp hc)
    have hno : isPrefixCharacter c = false := by
      by_contra hyes
      exact hc (isPrefixCharacter_lt (by simpa using hyes))
    rw [hunits, List.all_cons, isPrefixUnit_high hhigh, hno, Bool.false_and]

/-- Characters of the basic plane are their own code units. -/
theorem utf16_basic (h : ∀ c ∈ value, c.val < 0x10000) :
    utf16 value = value.map fun c => c.val.toUInt16 := by
  induction value with
  | nil => rfl
  | cons c s ih =>
    rw [utf16_cons, utf16Units_of_lt (h c List.mem_cons_self),
      ih (fun d hd => h d (List.mem_cons_of_mem _ hd)), List.singleton_append, List.map_cons]

theorem utf16_basic_injective {other : List CodePoint} (hv : ∀ c ∈ value, c.val < 0x10000)
    (ho : ∀ c ∈ other, c.val < 0x10000) (h : utf16 value = utf16 other) : value = other := by
  rw [utf16_basic hv, utf16_basic ho] at h
  induction value generalizing other with
  | nil => exact (List.map_eq_nil_iff.mp h.symm).symm
  | cons c s ih =>
    cases other with
    | nil => simp at h
    | cons d t =>
      rw [List.map_cons, List.map_cons, List.cons.injEq, unit_eq_iff (hv c List.mem_cons_self),
        toNat_unit (ho d List.mem_cons_self)] at h
      have hrest := ih (fun e he => hv e (List.mem_cons_of_mem _ he))
        (fun e he => ho e (List.mem_cons_of_mem _ he)) h.2
      rw [Fin.ext h.1, hrest]

theorem reserved_utf16 :
    Protocol.reservedProviderPrefixes = reservedProviderPrefixes.map utf16 := by
  decide +kernel

theorem reserved_basic : ∀ reserved ∈ reservedProviderPrefixes, ∀ c ∈ reserved,
    c.val < 0x10000 := by
  have hall : reservedProviderPrefixes.all (fun reserved =>
      reserved.all fun c => decide (c.val < 0x10000)) = true := by decide +kernel
  intro reserved hr c hc
  exact of_decide_eq_true (List.all_eq_true.mp (List.all_eq_true.mp hall reserved hr) c hc)

theorem isReserved_utf16 (h : ∀ c ∈ value, c.val < 0x10000) :
    utf16 value ∈ Protocol.reservedProviderPrefixes ↔ value ∈ reservedProviderPrefixes := by
  rw [reserved_utf16, List.mem_map]
  constructor
  · rintro ⟨reserved, hr, heq⟩
    rwa [← utf16_basic_injective (reserved_basic reserved hr) h heq]
  · intro hr
    exact ⟨value, hr, rfl⟩

/-- Both patterns ask for prefix characters only and constrain the first one. -/
theorem matchesProviderPrefix_eq (value : Str) :
    Protocol.matchesProviderPrefix value =
      (value.all isPrefixUnit && value.head?.any fun u => Protocol.isLower u || Str.isDigit u) := by
  cases value with
  | nil => rfl
  | cons u s =>
    rw [Protocol.matchesProviderPrefix, List.all_cons, List.head?_cons, Option.any_some]
    unfold isPrefixUnit
    cases Protocol.isLower u || Str.isDigit u <;> simp

theorem fullmatchProviderPrefix_eq (value : List CodePoint) :
    fullmatchProviderPrefix value =
      (value.all isPrefixCharacter && (value.head?.any fun c => isLower c || isDigit c) &&
        decide (value.length ≤ maxProviderPrefixLength)) := by
  cases value with
  | nil => rfl
  | cons c s =>
    have hlen : decide ((c :: s).length ≤ maxProviderPrefixLength) =
        decide (s.length ≤ maxProviderPrefixLength - 1) := by
      unfold maxProviderPrefixLength
      rw [decide_eq_decide, List.length_cons]
      omega
    rw [fullmatchProviderPrefix, List.all_cons, List.head?_cons, Option.any_some, hlen]
    unfold isPrefixCharacter
    cases isLower c || isDigit c <;> simp [Bool.and_comm]

theorem isProviderPrefix_utf16 (value : List CodePoint) :
    Protocol.isProviderPrefix (utf16 value) = isProviderPrefix value := by
  unfold Protocol.isProviderPrefix isProviderPrefix
  rw [matchesProviderPrefix_eq, fullmatchProviderPrefix_eq, all_isPrefixUnit]
  cases hchars : value.all isPrefixCharacter with
  | false => simp
  | true =>
    have hbasic : ∀ c ∈ value, c.val < 0x10000 := by
      intro c hc
      exact isPrefixCharacter_lt (List.all_eq_true.mp hchars c hc)
    have hlen : (utf16 value).length = value.length := by
      rw [utf16_basic hbasic, List.length_map]
    have hhead : ((utf16 value).head?.any fun u => Protocol.isLower u || Str.isDigit u) =
        value.head?.any fun c => isLower c || isDigit c := by
      rw [utf16_basic hbasic]
      cases value with
      | nil => rfl
      | cons c s =>
        have hc := hbasic c List.mem_cons_self
        rw [List.map_cons, List.head?_cons, List.head?_cons, Option.any_some, Option.any_some,
          isLower_unit hc, isDigit_unit hc]
    rw [hlen, hhead, decide_eq_decide.mpr (not_congr (isReserved_utf16 hbasic)), Bool.true_and,
      Bool.and_comm (decide (value.length ≤ _))]
    rfl

theorem slash_units : (utf16Units c).all (fun u => decide (u ≠ 0x2f)) = decide (c.val ≠ 0x2f) := by
  by_cases hc : c.val < 0x10000
  · rw [utf16Units_of_lt hc]
    have hiff := unit_eq_iff hc 0x2f
    simp [hiff]
  · obtain ⟨high, low, hunits, hhigh, hlow⟩ := surrogate_units (not_lt.mp hc)
    have hne : high ≠ 0x2f ∧ low ≠ 0x2f := by
      simp [Protocol.isHighSurrogate, Protocol.isLowSurrogate, UInt16.le_iff_toNat_le,
        ← UInt16.toNat_inj] at hhigh hlow ⊢
      omega
    rw [hunits]
    simp [hne]
    omega

theorem takeWhile_utf16 (value : List CodePoint) :
    (utf16 value).takeWhile (fun u => decide (u ≠ 0x2f)) =
      utf16 (value.takeWhile fun c => decide (c.val ≠ 0x2f)) := by
  induction value with
  | nil => rfl
  | cons c s ih =>
    have hunits := slash_units (c := c)
    rw [utf16_cons, List.takeWhile_cons]
    by_cases hc : c.val = 0x2f
    · rw [if_neg (by simp [hc]), utf16Units_of_lt (by omega), hc]
      rfl
    · rw [decide_eq_true hc, List.all_eq_true] at hunits
      rw [if_pos (by simp [hc]), List.takeWhile_append_of_pos hunits, ih, utf16_cons]

theorem dropWhile_utf16 (value : List CodePoint) :
    (utf16 value).dropWhile (fun u => decide (u ≠ 0x2f)) =
      utf16 (value.dropWhile fun c => decide (c.val ≠ 0x2f)) := by
  induction value with
  | nil => rfl
  | cons c s ih =>
    have hunits := slash_units (c := c)
    rw [utf16_cons, List.dropWhile_cons]
    by_cases hc : c.val = 0x2f
    · rw [if_neg (by simp [hc]), utf16_cons, utf16Units_of_lt (by omega), hc]
      rfl
    · rw [decide_eq_true hc, List.all_eq_true] at hunits
      rw [if_pos (by simp [hc]), List.dropWhile_append_of_pos hunits, ih]

theorem splitAtSlash_utf16 (value : List CodePoint) :
    Protocol.splitAtSlash (utf16 value) =
      (partition value).map fun parts => (utf16 parts.1, utf16 parts.2) := by
  have htake := takeWhile_utf16 value
  have hdrop := dropWhile_utf16 value
  unfold Protocol.splitAtSlash partition
  rw [List.span_eq_takeWhile_dropWhile, List.span_eq_takeWhile_dropWhile, htake, hdrop]
  cases hrest : value.dropWhile fun c => decide (c.val ≠ 0x2f) with
  | nil => rfl
  | cons c model =>
    have hc : c.val = 0x2f := by
      have hne : value.dropWhile (fun c => decide (c.val ≠ 0x2f)) ≠ [] := by
        rw [hrest]
        exact List.cons_ne_nil c model
      have hhead := List.head_dropWhile_not _ hne
      simp only [hrest, List.head_cons] at hhead
      simpa using hhead
    rw [utf16_cons, utf16Units_of_lt (by omega), List.singleton_append]
    rfl

theorem splitPublicModelId_utf16 (value : List CodePoint) :
    Protocol.splitPublicModelId (utf16 value) =
      (splitPublicModelId value).map fun parts => ⟨utf16 parts.1, utf16 parts.2⟩ := by
  unfold Protocol.splitPublicModelId splitPublicModelId
  rw [splitAtSlash_utf16]
  cases partition value with
  | none => rfl
  | some parts =>
    obtain ⟨provider, model⟩ := parts
    dsimp only [Option.map_some]
    rw [isProviderPrefix_utf16, isLocalModelId_utf16]
    cases isProviderPrefix provider <;> cases isLocalModelId model <;> rfl

/-- An accepted identifier has no control characters. -/
theorem control_not_mem {parts : List CodePoint × List CodePoint}
    (h : splitPublicModelId value = some parts) : ∀ c ∈ value, 0x1f < c.val := by
  unfold splitPublicModelId partition at h
  rw [List.span_eq_takeWhile_dropWhile] at h
  have hsplit : value.takeWhile (fun c => decide (c.val ≠ 0x2f)) ++
      value.dropWhile (fun c => decide (c.val ≠ 0x2f)) = value := List.takeWhile_append_dropWhile
  generalize value.takeWhile (fun c => decide (c.val ≠ 0x2f)) = provider at h hsplit
  generalize hrest : value.dropWhile (fun c => decide (c.val ≠ 0x2f)) = rest at h hsplit
  cases rest with
  | nil => cases h
  | cons slash model =>
    have hslash : slash.val = 0x2f := by
      have hne : value.dropWhile (fun c => decide (c.val ≠ 0x2f)) ≠ [] := by
        rw [hrest]
        exact List.cons_ne_nil slash model
      have hhead := List.head_dropWhile_not _ hne
      simp only [hrest, List.head_cons] at hhead
      simpa using hhead
    dsimp only at h
    split_ifs at h with hno
    rw [Bool.or_eq_true, Bool.not_eq_true', Bool.not_eq_true', not_or, Bool.not_eq_false,
      Bool.not_eq_false] at hno
    obtain ⟨hprovider, hmodel⟩ := hno
    intro c hc
    rw [← hsplit] at hc
    rcases List.mem_append.mp hc with hc | hc
    · rw [isProviderPrefix, fullmatchProviderPrefix_eq, Bool.and_eq_true, Bool.and_eq_true,
        Bool.and_eq_true] at hprovider
      have hchar := List.all_eq_true.mp hprovider.1.1.1 c hc
      simp [isPrefixCharacter, isLower, isDigit] at hchar
      omega
    · rcases List.mem_cons.mp hc with rfl | hc
      · omega
      · rw [isLocalModelId, Bool.and_eq_true, Bool.not_eq_true'] at hmodel
        have hchar := List.any_eq_false.mp hmodel.2 c hc
        simp [isExcluded] at hchar
        omega

/-- The validators of the protocol and of the host accept the same provider prefixes, the same
local identifiers and the same public identifiers, and split the latter into the same parts. -/
theorem model_id_validators_agree (value : List CodePoint) :
    Protocol.isProviderPrefix (utf16 value) = isProviderPrefix value ∧
    Protocol.isLocalModelId (utf16 value) = isLocalModelId value ∧
    Protocol.splitPublicModelId (utf16 value) =
      (splitPublicModelId value).map fun parts => ⟨utf16 parts.1, utf16 parts.2⟩ :=
  ⟨isProviderPrefix_utf16 value, isLocalModelId_utf16 value, splitPublicModelId_utf16 value⟩

end Cyclo.ModelIds
