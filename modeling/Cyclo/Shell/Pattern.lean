import Mathlib.Data.List.Forall2
import Mathlib.Data.List.Nodup

/-! The pathname patterns of the shell, as `dash` expands them in an unquoted word that it took from
a variable: a backslash in the word escapes the byte after it. -/
namespace Cyclo.Shell

abbrev Word := List UInt8

def backslash : UInt8 := 0x5c

def slash : UInt8 := 0x2f

/-- The components of a pattern, between slashes; a slash may be escaped. -/
def components : Word → List Word
  | [] => [[]]
  | [b] => if b = slash then [[], []] else [[b]]
  | b :: c :: rest =>
    if b = slash then [] :: components (c :: rest)
    else if b ≠ backslash then (components (c :: rest)).modifyHead (b :: ·)
    else if c = slash then [] :: components rest
    else (components rest).modifyHead fun component => b :: c :: component

/-- What follows `[` and an optional `!` has a `]` behind its first byte. -/
def closesBracket : Word → Bool
  | [] => false
  | [_] => false
  | b :: c :: rest =>
    if b = backslash then rest.head? = some 0x5d || closesBracket rest
    else c = 0x5d || closesBracket (c :: rest)

def afterInversion (rest : Word) : Word := if rest.head? = some 0x21 then rest.tail else rest

/-- The component has an unescaped `*` or `?` or a bracket that is closed. -/
def isMeta : Word → Bool
  | [] => false
  | [b] => b = 0x2a || b = 0x3f
  | b :: c :: rest =>
    if b = backslash then isMeta rest
    else b = 0x2a || b = 0x3f || (b = 0x5b && closesBracket (afterInversion (c :: rest))) ||
      isMeta (c :: rest)

/-- The word is taken for a pattern. -/
def isPattern (word : Word) : Bool := (components word).any isMeta

/-- A component that is no pattern, without the backslashes that escape. -/
def unescape : Word → Word
  | [] => []
  | [b] => [b]
  | b :: c :: rest => if b = backslash then c :: unescape rest else b :: unescape (c :: rest)

inductive CharacterClass where
  | alnum | cntrl | lower | space | alpha | digit | print | upper | blank | graph | punct | xdigit
  deriving DecidableEq

namespace CharacterClass

def isUpper (b : UInt8) : Bool := 0x41 ≤ b && b ≤ 0x5a

def isLower (b : UInt8) : Bool := 0x61 ≤ b && b ≤ 0x7a

def isDigit (b : UInt8) : Bool := 0x30 ≤ b && b ≤ 0x39

def isGraph (b : UInt8) : Bool := 0x21 ≤ b && b ≤ 0x7e

/-- The bytes of a class in the locale `C`. -/
def contains (b : UInt8) : CharacterClass → Bool
  | alnum => isUpper b || isLower b || isDigit b
  | cntrl => b < 0x20 || b = 0x7f
  | lower => isLower b
  | space => 0x09 ≤ b && b ≤ 0x0d || b = 0x20
  | alpha => isUpper b || isLower b
  | digit => isDigit b
  | print => isGraph b || b = 0x20
  | upper => isUpper b
  | blank => b = 0x20 || b = 0x09
  | graph => isGraph b
  | punct => isGraph b && !(isUpper b || isLower b || isDigit b)
  | xdigit => isDigit b || 0x41 ≤ b && b ≤ 0x46 || 0x61 ≤ b && b ≤ 0x66

/-- What follows the second bracket of each class. -/
def names : List (CharacterClass × String) :=
  [(alnum, ":alnum:]"), (cntrl, ":cntrl:]"), (lower, ":lower:]"), (space, ":space:]"),
    (alpha, ":alpha:]"), (digit, ":digit:]"), (print, ":print:]"), (upper, ":upper:]"),
    (blank, ":blank:]"), (graph, ":graph:]"), (punct, ":punct:]"), (xdigit, ":xdigit:]")]

/-- The class whose name stands at the beginning, and what follows. -/
def read (rest : Word) : Option (CharacterClass × Word) :=
  names.findSome? fun (characters, name) =>
    (List.dropPrefix? rest name.toUTF8.data.toList).map fun rest => (characters, rest)

end CharacterClass

/-- What stands in a bracket expression. -/
inductive Element where
  | byte (b : UInt8)
  | range (low high : UInt8)
  | characters (c : CharacterClass)
  deriving DecidableEq

/-- A byte that a backslash may escape, behind the first one. -/
def escapable (b : UInt8) (rest : Word) : Option (UInt8 × Word) :=
  if b = backslash then
    match rest with
    | [] => none
    | c :: rest => some (c, rest)
  else some (b, rest)

/-- One element, which may be `]`. A `-` before the closing `]` makes no range. -/
def element (b : UInt8) (rest : Word) : Option (Element × Word) :=
  match if b = 0x5b then CharacterClass.read rest else none with
  | some (c, rest) => some (.characters c, rest)
  | none => do
    let (low, rest) ← escapable b rest
    match rest with
    | 0x2d :: c :: rest' =>
      if c = 0x5d then return (.byte low, rest)
      else do
        let (high, rest) ← escapable c rest'
        return (.range low high, rest)
    | _ => return (.byte low, rest)

/-- The elements up to the closing `]`, and what follows it. -/
def elements : ℕ → Word → Option (List Element × Word)
  | 0, _ => none
  | _, [] => none
  | fuel + 1, b :: rest => do
    let (first, rest) ← element b rest
    if rest.head? = some 0x5d then return ([first], rest.tail)
    else do
      let (others, rest) ← elements fuel rest
      return (first :: others, rest)

inductive Token where
  | byte (b : UInt8)
  | any
  | all
  | bracket (inverted : Bool) (elements : List Element)
  deriving DecidableEq

/-- The tokens of a component; a bracket that is not closed stands for itself. -/
def tokens : ℕ → Word → List Token
  | 0, _ => []
  | _, [] => []
  | fuel + 1, b :: rest =>
    if b = 0x3f then .any :: tokens fuel rest
    else if b = 0x2a then .all :: tokens fuel rest
    else if b = 0x5b then
      match elements rest.length (afterInversion rest) with
      | some (es, rest') => .bracket (rest.head? = some 0x21) es :: tokens fuel rest'
      | none => .byte b :: tokens fuel rest
    else match escapable b rest with
      | some (c, rest) => .byte c :: tokens fuel rest
      | none => [.byte b]

/-- The longest name in a directory. -/
def nameMax : ℕ := 255

/-- The order of the characters in a range where they have a sign; else they have the bytes' own. -/
def signed (b c : UInt8) : Bool := b.toInt8 ≤ c.toInt8

section
variable (order : UInt8 → UInt8 → Bool)

def Element.contains (b : UInt8) : Element → Bool
  | .byte c => b = c
  | .range low high => order low b && order b high
  | .characters c => c.contains b

/-- `pmatch` -/
def pmatch : List Token → Word → Bool
  | [], name => name = []
  | .all :: rest, name => name.tails.any (pmatch rest)
  | .byte _ :: _, [] | .any :: _, [] | .bracket .. :: _, [] => false
  | .byte c :: rest, b :: name => b = c && pmatch rest name
  | .any :: rest, _ :: name => pmatch rest name
  | .bracket inverted es :: rest, b :: name =>
    es.any (Element.contains order b) != inverted && pmatch rest name

/-- A name that starts with a dot is matched by a component that starts with one only. -/
def showsDot (component name : Word) : Bool :=
  name.head? ≠ some 0x2e ||
    (if component.head? = some backslash then component.tail else component).head? = some 0x2e

/-- A component of a pattern and one of a pathname that it matches. -/
def MatchesComponent (component name : Word) : Prop :=
  name.length ≤ nameMax ∧
    if isMeta component then
      name ≠ [] ∧ 0x00 ∉ name ∧ showsDot component name ∧
        pmatch order (tokens component.length component) name
    else name = unescape component

instance (component name : Word) : Decidable (MatchesComponent order component name) := by
  unfold MatchesComponent
  infer_instance

/-- The pathname is one that the pattern can match. -/
def Matches (pattern name : Word) : Prop :=
  List.Forall₂ (MatchesComponent order) (components pattern) (name.splitOn slash)

instance (pattern name : Word) : Decidable (Matches order pattern name) :=
  inferInstanceAs (Decidable (List.Forall₂ _ _ _))

/-- The word stands for no pathname but itself. -/
def Inert (word : Word) : Prop :=
  isPattern word = true → ∀ name, Matches order word name → name = word

/-- What a working directory has for each pattern: the pathnames that it matches there. -/
structure Directory where
  matching : Word → List Word
  sound : ∀ pattern, ∀ name ∈ matching pattern, Matches order pattern name
  nodup : ∀ pattern, (matching pattern).Nodup

end

variable {order : UInt8 → UInt8 → Bool} {word : Word}

namespace Directory

/-- The pathnames that a word stands for; the word itself if there are none. -/
def expand (directory : Directory order) (word : Word) : List Word :=
  if isPattern word then
    match directory.matching word with
    | [] => [word]
    | names => names
  else [word]

/-- A directory in which no pattern matches. -/
def empty : Directory order := ⟨fun _ => [], nofun, fun _ => List.nodup_nil⟩

/-- A directory with one pathname. -/
def single (name : Word) : Directory order where
  matching pattern := if Matches order pattern name then [name] else []
  sound pattern other h := by
    split_ifs at h with hname
    · rw [List.mem_singleton.mp h]
      exact hname
    · cases h
  nodup pattern := by
    split_ifs
    · exact List.nodup_singleton name
    · exact List.nodup_nil

theorem expand_of_not_pattern (directory : Directory order) (h : isPattern word = false) :
    directory.expand word = [word] := by
  unfold expand
  rw [h]
  rfl

theorem expand_empty (word : Word) : (empty : Directory order).expand word = [word] := by
  unfold expand
  split_ifs
  · rfl
  · rfl

theorem expand_single {name : Word} (hpattern : isPattern word = true)
    (h : Matches order word name) : (single name : Directory order).expand word = [name] := by
  have hmatching : (single name : Directory order).matching word = [name] := if_pos h
  unfold expand
  rw [if_pos hpattern, hmatching]

theorem expand_ne_nil (directory : Directory order) (word : Word) : directory.expand word ≠ [] := by
  unfold expand
  split_ifs
  · split
    · exact List.cons_ne_nil _ _
    · rename_i hne
      exact hne
  · exact List.cons_ne_nil _ _

end Directory

/-- A word is inert exactly if every directory leaves it as it is. -/
theorem inert_iff : Inert order word ↔
    ∀ directory : Directory order, directory.expand word = [word] := by
  constructor
  · intro h directory
    cases hpattern : isPattern word with
    | false => exact directory.expand_of_not_pattern hpattern
    | true =>
      have hall : ∀ name ∈ directory.matching word, name = word := fun name hname =>
        h hpattern name (directory.sound word name hname)
      have hnodup := directory.nodup word
      unfold Directory.expand
      rw [if_pos hpattern]
      split
      · rfl
      · rename_i names hne
        rw [List.eq_replicate_of_mem hall] at hnodup hne ⊢
        have hle : (directory.matching word).length ≤ 1 := List.nodup_replicate.mp hnodup
        have hlength : (directory.matching word).length = 1 := by
          have hzero : (directory.matching word).length ≠ 0 := fun hzero => hne (by rw [hzero]; rfl)
          omega
        rw [hlength]
        rfl
  · intro h hpattern name hname
    have hsingle := h (.single name)
    rw [Directory.expand_single hpattern hname] at hsingle
    exact List.singleton_injective hsingle

theorem inert_of_not_pattern (h : isPattern word = false) : Inert order word := by
  intro hpattern
  rw [h] at hpattern
  cases hpattern

theorem not_inert {name : Word} (hpattern : isPattern word = true) (h : Matches order word name)
    (hne : name ≠ word) : ¬ Inert order word := fun hinert => hne (hinert hpattern name h)

example : Inert signed "work/a\\*b".toUTF8.data.toList := inert_of_not_pattern (by decide +kernel)

example : ¬ Inert signed "work/[ab]*".toUTF8.data.toList :=
  not_inert (by decide +kernel) (by decide +kernel :
    Matches signed _ "work/a".toUTF8.data.toList) (by decide +kernel)

end Cyclo.Shell
