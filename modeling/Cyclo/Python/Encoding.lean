import Cyclo.Python.Text

/-! Texts that UTF-8 cannot encode: those with a lone surrogate, as a file name that is no UTF-8 has
one for each byte. -/
namespace Cyclo.Python

/-- The characters that stand for the lone surrogates of a text, which no character of Lean is. As
these they are neither ASCII nor white space. -/
structure Surrogates where
  stands : Char → Bool
  beyond : ∀ c, stands c = true → 0x80 ≤ c.toNat
  visible : ∀ c, stands c = true → isSpace c = false

/-- No character stands for one. -/
def Surrogates.none : Surrogates := ⟨fun _ => false, nofun, nofun⟩

def isAscii (c : Char) : Bool := c.toNat < 0x80

namespace Surrogates
variable (surrogates : Surrogates)

def Encodable (text : String) : Prop := ∀ c ∈ text.toList, surrogates.stands c = false

instance (text : String) : Decidable (surrogates.Encodable text) :=
  decidableForallChar text.toList

/-- `str.encode("utf-8")`, which raises for a lone surrogate. -/
def encode? (text : String) : Option (List UInt8) :=
  if surrogates.Encodable text then some (encode text) else Option.none

variable {surrogates}

@[simp] theorem encodable_append {left right : String} : surrogates.Encodable (left ++ right) ↔
    surrogates.Encodable left ∧ surrogates.Encodable right := by
  unfold Encodable
  rw [String.toList_append, List.forall_mem_append]

theorem encodable_of_ascii {text : String} (h : text.toList.all isAscii = true) :
    surrogates.Encodable text := by
  intro c hc
  have hascii := of_decide_eq_true (List.all_eq_true.mp h c hc)
  by_contra hstands
  have hbeyond := surrogates.beyond c ((Bool.not_eq_false _).mp hstands)
  omega

theorem encodable_nat (n : ℕ) : surrogates.Encodable (toString n) := by
  refine encodable_of_ascii (List.all_eq_true.mpr fun c hc => ?_)
  rw [Nat.toString_eq_repr, Nat.toList_repr] at hc
  have hdigit : c.isDigit = true := Nat.isDigit_of_mem_toDigits (by decide) (by decide) hc
  unfold Char.isDigit at hdigit
  rw [Bool.and_eq_true, decide_eq_true_eq, decide_eq_true_eq] at hdigit
  have hle : c.toNat ≤ 57 := hdigit.2
  exact decide_eq_true (by omega)

theorem encodable_int (n : ℤ) : surrogates.Encodable (toString n) := by
  cases n with
  | ofNat n => exact encodable_nat n
  | negSucc n =>
    have htext : toString (Int.negSucc n) = "-" ++ toString (n + 1) := rfl
    rw [htext, encodable_append]
    exact ⟨encodable_of_ascii (by decide), encodable_nat _⟩

theorem encodable_intercalate {separator : String} (hseparator : surrogates.Encodable separator)
    {texts : List String} : surrogates.Encodable (separator.intercalate texts) ↔
      ∀ text ∈ texts, surrogates.Encodable text := by
  induction texts with
  | nil =>
    rw [String.intercalate_nil]
    exact iff_of_true (encodable_of_ascii (by decide)) (List.forall_mem_nil _)
  | cons text texts ih =>
    rw [List.forall_mem_cons]
    cases texts with
    | nil => simp
    | cons next texts =>
      rw [String.intercalate_cons_cons, encodable_append, encodable_append, ih]
      exact and_congr_left' (and_iff_left hseparator)

theorem encode?_eq_some {text : String} {content : List UInt8} :
    surrogates.encode? text = some content ↔ surrogates.Encodable text ∧ content = encode text := by
  unfold encode?
  split_ifs with h
  · rw [Option.some.injEq, and_iff_right h]
    exact eq_comm
  · exact iff_of_false nofun fun hc => h hc.1

end Surrogates
end Cyclo.Python
