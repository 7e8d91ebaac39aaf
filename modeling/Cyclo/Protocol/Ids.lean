import Cyclo.Js.Text

/-! Public model identifiers: a provider prefix, a slash and the provider's own model name. -/
namespace Cyclo.Protocol
open Js

def maxProviderPrefixLength : ℕ := 64

def maxLocalModelIdUnits : ℕ := 1024

def reservedProviderPrefixes : List Str :=
  ["__proto__", "constructor", "gateway", "prototype"].map lit

def isLower (c : CodeUnit) : Bool := 0x61 ≤ c && c ≤ 0x7a

/-- `/^[a-z0-9][a-z0-9_-]*$/u` -/
def matchesProviderPrefix : Str → Bool
  | [] => false
  | c :: s => (isLower c || Str.isDigit c) &&
      s.all fun c => isLower c || Str.isDigit c || c = 0x5f || c = 0x2d

def isProviderPrefix (value : Str) : Bool :=
  value.length ≤ maxProviderPrefixLength && matchesProviderPrefix value &&
    value ∉ reservedProviderPrefixes

/-- The Unicode property `White_Space`. -/
def isUnicodeSpace (c : CodeUnit) : Bool :=
  (0x09 ≤ c && c ≤ 0x0d) || c = 0x20 || c = 0x85 || c = 0xa0 || c = 0x1680 ||
    (0x2000 ≤ c && c ≤ 0x200a) || c = 0x2028 || c = 0x2029 || c = 0x202f || c = 0x205f || c = 0x3000

def isHighSurrogate (c : CodeUnit) : Bool := 0xd800 ≤ c && c ≤ 0xdbff

def isLowSurrogate (c : CodeUnit) : Bool := 0xdc00 ≤ c && c ≤ 0xdfff

/-- The code points outside the class that local model names exclude; a surrogate counts only in
a pair. -/
def allNameCharacters : Str → Bool
  | [] => true
  | [c] => nameUnit c
  | c :: d :: s =>
    if isHighSurrogate c && isLowSurrogate d then allNameCharacters s
    else nameUnit c && allNameCharacters (d :: s)
where
  nameUnit (c : CodeUnit) : Bool :=
    !(isUnicodeSpace c || c = 0xfeff || c ≤ 0x1f || c = 0x7f || (0xd800 ≤ c && c ≤ 0xdfff))

def isLocalModelId (value : Str) : Bool :=
  value.length ≤ maxLocalModelIdUnits && value ≠ [] && allNameCharacters value

structure PublicModelId where
  provider : Str
  model : Str
  deriving DecidableEq

/-- The parts of an identifier before and after its first slash. -/
def splitAtSlash (value : Str) : Option (Str × Str) :=
  match value.span (· ≠ 0x2f) with
  | (provider, _ :: model) => some (provider, model)
  | (_, []) => none

def splitPublicModelId (value : Str) : Option PublicModelId :=
  match splitAtSlash value with
  | none => none
  | some (provider, model) =>
    if isProviderPrefix provider && isLocalModelId model then some ⟨provider, model⟩ else none

theorem splitAtSlash_append {provider model : Str} (h : (0x2f : CodeUnit) ∉ provider) :
    splitAtSlash (provider ++ 0x2f :: model) = some (provider, model) := by
  have hall : ∀ c ∈ provider, decide (c ≠ 0x2f) = true := by
    intro c hc
    rw [decide_eq_true_iff]
    rintro rfl
    exact h hc
  unfold splitAtSlash
  rw [List.span_eq_takeWhile_dropWhile, List.takeWhile_append_of_pos hall,
    List.dropWhile_append_of_pos hall]
  simp

theorem slash_not_mem {provider : Str} (h : isProviderPrefix provider = true) :
    (0x2f : CodeUnit) ∉ provider := by
  rw [isProviderPrefix, Bool.and_eq_true, Bool.and_eq_true] at h
  cases provider with
  | nil => exact List.not_mem_nil
  | cons c rest =>
    have hmatch := h.1.2
    rw [matchesProviderPrefix, Bool.and_eq_true, List.all_eq_true] at hmatch
    intro hmem
    rcases List.mem_cons.mp hmem with he | hmem
    · rw [← he] at hmatch
      exact absurd hmatch.1 (by decide)
    · exact absurd (hmatch.2 _ hmem) (by decide)

theorem splitAtSlash_eq_some {value provider model : Str}
    (h : splitAtSlash value = some (provider, model)) : value = provider ++ 0x2f :: model := by
  unfold splitAtSlash at h
  rw [List.span_eq_takeWhile_dropWhile] at h
  have hjoin : (value.takeWhile fun c => decide (c ≠ 0x2f)) ++
      (value.dropWhile fun c => decide (c ≠ 0x2f)) = value := List.takeWhile_append_dropWhile
  split at h
  · rename_i slash rest heq
    cases h
    have hdrop := congrArg Prod.snd heq
    have htake := congrArg Prod.fst heq
    dsimp only at hdrop htake
    have hslash : slash = 0x2f := by
      have hne : value.dropWhile (fun c => decide (c ≠ 0x2f)) ≠ [] := by
        rw [hdrop]
        exact List.cons_ne_nil _ _
      have hhead := List.head_dropWhile_not _ hne
      simp only [hdrop, List.head_cons] at hhead
      simpa using hhead
    rw [htake, hdrop, hslash] at hjoin
    exact hjoin.symm
  · cases h

theorem isSome_splitPublicModelId {value : Str} (h : (splitPublicModelId value).isSome = true) :
    ∃ provider model, splitAtSlash value = some (provider, model) ∧
      isProviderPrefix provider = true ∧ isLocalModelId model = true := by
  unfold splitPublicModelId at h
  cases hs : splitAtSlash value with
  | none =>
    rw [hs] at h
    cases h
  | some parts =>
    rw [hs] at h
    dsimp only at h
    split_ifs at h with hvalid
    · rw [Bool.and_eq_true] at hvalid
      exact ⟨parts.1, parts.2, rfl, hvalid⟩
    · cases h

end Cyclo.Protocol
