import Mathlib.Data.List.Basic

/-! Sequences cut at a separator: the terminated pieces, and the unterminated tail. -/
namespace Cyclo.Text

variable {α : Type*} [DecidableEq α] (sep : α)

/-- The terminated pieces without their separators, and what follows the last separator. -/
def cut : List α → List (List α) × List α
  | [] => ([], [])
  | x :: xs =>
    if x = sep then ([] :: (cut xs).1, (cut xs).2)
    else
      match cut xs with
      | ([], tail) => ([], x :: tail)
      | (piece :: pieces, tail) => ((x :: piece) :: pieces, tail)

def pieces (xs : List α) : List (List α) := (cut sep xs).1

def tail (xs : List α) : List α := (cut sep xs).2

/-- The sequence up to its last separator. -/
def terminated (xs : List α) : List α := (pieces sep xs).flatMap (· ++ [sep])

/-- A sequence that is empty or ends in the separator. -/
def Terminated (xs : List α) : Prop := xs = [] ∨ xs.getLast? = some sep

@[simp] theorem pieces_nil : pieces sep [] = [] := rfl

@[simp] theorem tail_nil : tail sep [] = [] := rfl

theorem cut_sep (xs : List α) : cut sep (sep :: xs) = ([] :: pieces sep xs, tail sep xs) := by
  rw [cut, if_pos rfl]
  rfl

theorem pieces_eq_nil {xs : List α} (h : sep ∉ xs) : pieces sep xs = [] ∧ tail sep xs = xs := by
  induction xs with
  | nil => exact ⟨rfl, rfl⟩
  | cons x xs ih =>
    rw [List.mem_cons, not_or] at h
    have hx : x ≠ sep := fun he => h.1 he.symm
    have hc : cut sep xs = ([], xs) := Prod.ext (ih h.2).1 (ih h.2).2
    rw [pieces, tail, cut, if_neg hx, hc]
    exact ⟨rfl, rfl⟩

/-- The first piece and the rest. -/
theorem cut_append_sep {piece : List α} (h : sep ∉ piece) (xs : List α) :
    cut sep (piece ++ sep :: xs) = (piece :: pieces sep xs, tail sep xs) := by
  induction piece with
  | nil => exact cut_sep sep xs
  | cons x piece ih =>
    rw [List.mem_cons, not_or] at h
    have hx : x ≠ sep := fun he => h.1 he.symm
    rw [List.cons_append, cut, if_neg hx, ih h.2]

theorem pieces_append_sep {piece : List α} (h : sep ∉ piece) (xs : List α) :
    pieces sep (piece ++ sep :: xs) = piece :: pieces sep xs := by
  rw [pieces, cut_append_sep sep h]

theorem tail_append_sep {piece : List α} (h : sep ∉ piece) (xs : List α) :
    tail sep (piece ++ sep :: xs) = tail sep xs := by
  rw [tail, cut_append_sep sep h]

/-- A sequence without the separator, or its first piece and the rest. -/
theorem separator_cases (xs : List α) :
    sep ∉ xs ∨ ∃ piece rest, sep ∉ piece ∧ xs = piece ++ sep :: rest := by
  induction xs with
  | nil => exact .inl (List.not_mem_nil)
  | cons x xs ih =>
    by_cases hx : x = sep
    · subst hx
      exact .inr ⟨[], xs, List.not_mem_nil, rfl⟩
    have hne : sep ≠ x := fun he => hx he.symm
    rcases ih with h | ⟨piece, rest, hp, rfl⟩
    · exact .inl (List.not_mem_cons_of_ne_of_not_mem hne h)
    · exact .inr ⟨x :: piece, rest, List.not_mem_cons_of_ne_of_not_mem hne hp, rfl⟩

/-- Induction over the pieces of a sequence. -/
theorem piece_induction {P : List α → Prop} (htail : ∀ xs, sep ∉ xs → P xs)
    (hpiece : ∀ piece xs, sep ∉ piece → P xs → P (piece ++ sep :: xs)) (xs : List α) : P xs := by
  induction hn : xs.length using Nat.strongRecOn generalizing xs with
  | ind n ih =>
    rcases separator_cases sep xs with h | ⟨piece, rest, hp, rfl⟩
    · exact htail xs h
    · refine hpiece piece rest hp (ih rest.length ?_ rest rfl)
      rw [← hn, List.length_append, List.length_cons]
      omega

theorem terminated_append_tail (xs : List α) : terminated sep xs ++ tail sep xs = xs := by
  induction xs using piece_induction sep with
  | htail xs h => rw [terminated, (pieces_eq_nil sep h).1, (pieces_eq_nil sep h).2]; rfl
  | hpiece piece xs h ih =>
    unfold terminated at ih ⊢
    rw [pieces_append_sep sep h, tail_append_sep sep h, List.flatMap_cons, List.append_assoc, ih]
    simp

theorem not_mem_tail (xs : List α) : sep ∉ tail sep xs := by
  induction xs using piece_induction sep with
  | htail xs h => rwa [(pieces_eq_nil sep h).2]
  | hpiece piece xs h ih => rwa [tail_append_sep sep h]

/-- Cutting a concatenation: the tail of the first part is carried into the second. -/
theorem pieces_append (xs ys : List α) :
    pieces sep (xs ++ ys) = pieces sep xs ++ pieces sep (tail sep xs ++ ys) := by
  induction xs using piece_induction sep with
  | htail xs h => rw [(pieces_eq_nil sep h).1, (pieces_eq_nil sep h).2, List.nil_append]
  | hpiece piece xs h ih =>
    rw [List.append_assoc, List.cons_append, pieces_append_sep sep h, pieces_append_sep sep h,
      tail_append_sep sep h, ih, List.cons_append]

theorem tail_append (xs ys : List α) : tail sep (xs ++ ys) = tail sep (tail sep xs ++ ys) := by
  induction xs using piece_induction sep with
  | htail xs h => rw [(pieces_eq_nil sep h).2]
  | hpiece piece xs h ih =>
    rw [List.append_assoc, List.cons_append, tail_append_sep sep h, tail_append_sep sep h, ih]

theorem tail_eq_nil {xs : List α} (h : Terminated sep xs) : tail sep xs = [] := by
  rcases h with rfl | h
  · rfl
  · obtain ⟨init, rfl⟩ := List.getLast?_eq_some_iff.mp h
    have hsep : tail sep (tail sep init ++ [sep]) = tail sep [] :=
      tail_append_sep sep (not_mem_tail sep init) []
    rw [tail_append, hsep, tail_nil]

theorem terminated_terminated (xs : List α) : Terminated sep (terminated sep xs) := by
  unfold terminated
  rcases List.eq_nil_or_concat (pieces sep xs) with h | ⟨init, last, h⟩
  · exact .inl (by rw [h]; rfl)
  · right
    rw [h]
    simp

theorem terminated_eq_self {xs : List α} (h : Terminated sep xs) : terminated sep xs = xs := by
  have hx := terminated_append_tail sep xs
  rwa [tail_eq_nil sep h, List.append_nil] at hx

/-- A terminated part before a tail without separators is the sequence up to its last separator. -/
theorem terminated_append {xs ys : List α} (hxs : Terminated sep xs) (hys : sep ∉ ys) :
    terminated sep (xs ++ ys) = xs := by
  have hp : pieces sep (xs ++ ys) = pieces sep xs := by
    rw [pieces_append, tail_eq_nil sep hxs, List.nil_append, (pieces_eq_nil sep hys).1,
      List.append_nil]
  rw [terminated, hp]
  exact terminated_eq_self sep hxs

@[simp] theorem pieces_terminated (xs : List α) : pieces sep (terminated sep xs) = pieces sep xs := by
  have ht := tail_eq_nil sep (terminated_terminated sep xs)
  conv_rhs => rw [← terminated_append_tail sep xs, pieces_append, ht, List.nil_append,
    (pieces_eq_nil sep (not_mem_tail sep xs)).1, List.append_nil]

/-- The sequence up to its last separator is its longest terminated prefix. -/
theorem prefix_terminated {xs ys : List α} (hp : ys <+: xs) (hys : Terminated sep ys) :
    ys <+: terminated sep xs := by
  obtain ⟨rest, rfl⟩ := hp
  have h : terminated sep (ys ++ rest) = ys ++ terminated sep rest := by
    have hy := terminated_eq_self sep hys
    unfold terminated at hy ⊢
    rw [pieces_append, tail_eq_nil sep hys, List.nil_append, List.flatMap_append, hy]
  rw [h]
  exact List.prefix_append _ _

theorem terminated_isPrefix_self (xs : List α) : terminated sep xs <+: xs :=
  ⟨tail sep xs, terminated_append_tail sep xs⟩

end Cyclo.Text
