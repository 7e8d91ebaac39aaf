import Mathlib.Data.List.Basic
import Mathlib.Data.List.Infix

/-! Words spelled by a sequence of fragments: inside one fragment, or from a suffix of one
through whole later fragments to a prefix of another, with other fragments skipped between. -/
namespace Cyclo.Text

variable {α : Type*} {w g : List α} {fs : List (List α)} {m : ℕ}

/-- A non-empty suffix of a fragment and whole later fragments spell `w` up to length `m`. -/
def Begun (w : List α) (m : ℕ) (fs : List (List α)) : Prop :=
  ∃ f mids s, (f :: mids).Sublist fs ∧ s ≠ [] ∧ s <:+ f ∧ s ++ mids.flatten = w.take m

/-- The fragments spell `w`. -/
def Spelled (w : List α) (fs : List (List α)) : Prop :=
  (∃ f ∈ fs, w <:+: f) ∨
    ∃ f mids g s p, (f :: (mids ++ [g])).Sublist fs ∧ s ≠ [] ∧ s <:+ f ∧ p ≠ [] ∧ p <+: g ∧
      w = s ++ mids.flatten ++ p

theorem not_begun_nil : ¬ Begun w m [] := by
  rintro ⟨f, mids, s, h, -⟩
  cases h

theorem not_spelled_nil : ¬ Spelled w [] := by
  rintro (⟨f, hf, -⟩ | ⟨f, mids, g, s, p, h, -⟩)
  · cases hf
  · cases h

theorem Begun.mono {gs : List (List α)} (h : Begun w m fs) (hs : fs.Sublist gs) :
    Begun w m gs := by
  obtain ⟨f, mids, s, hf, hrest⟩ := h
  exact ⟨f, mids, s, hf.trans hs, hrest⟩

theorem Spelled.mono {gs : List (List α)} (h : Spelled w fs) (hs : fs.Sublist gs) :
    Spelled w gs := by
  rcases h with ⟨f, hf, hw⟩ | ⟨f, mids, g, s, p, hf, hrest⟩
  · exact .inl ⟨f, hs.subset hf, hw⟩
  · exact .inr ⟨f, mids, g, s, p, hf.trans hs, hrest⟩

/-- A selection of `fs ++ [g]` selects from `fs`, and may take `g` last. -/
theorem sublist_concat_iff {l : List (List α)} :
    l.Sublist (fs ++ [g]) ↔ l.Sublist fs ∨ ∃ k, l = k ++ [g] ∧ k.Sublist fs := by
  rw [List.sublist_append_iff]
  constructor
  · rintro ⟨l₁, l₂, rfl, h₁, h₂⟩
    rcases List.sublist_singleton.mp h₂ with rfl | rfl
    · exact .inl (by simpa using h₁)
    · exact .inr ⟨l₁, rfl, h₁⟩
  · rintro (h | ⟨k, rfl, hk⟩)
    · exact ⟨l, [], by simp, h, by simp⟩
    · exact ⟨k, [g], rfl, hk, List.Sublist.refl _⟩

/-- A beginning of `w` after one more fragment was there before, continues an earlier one
through the whole fragment, or starts in the fragment. -/
theorem begun_concat_iff (hm : m < w.length) :
    Begun w m (fs ++ [g]) ↔
      Begun w m fs ∨ (∃ k, k + g.length = m ∧ Begun w k fs ∧ g <+: w.drop k) ∨
        (0 < m ∧ w.take m <:+ g) := by
  constructor
  · rintro ⟨f, mids, s, hsub, hs, hsf, heq⟩
    rcases sublist_concat_iff.mp hsub with hsub | ⟨k, hk, hksub⟩
    · exact .inl ⟨f, mids, s, hsub, hs, hsf, heq⟩
    have hlen := congrArg List.length heq
    rw [List.length_take, min_eq_left hm.le] at hlen
    rcases k with - | ⟨f', k⟩
    · obtain ⟨rfl, rfl⟩ : f = g ∧ mids = [] := by simpa using hk
      rw [List.flatten_nil, List.append_nil] at heq
      refine .inr (.inr ⟨?_, heq ▸ hsf⟩)
      have hpos := List.length_pos_iff.mpr hs
      simp only [List.flatten_nil, List.append_nil] at hlen
      omega
    · obtain ⟨rfl, rfl⟩ : f = f' ∧ mids = k ++ [g] := by simpa using hk
      rw [List.flatten_append, List.flatten_singleton, ← List.append_assoc] at heq
      simp only [List.flatten_append, List.flatten_singleton, List.length_append] at hlen
      -- the word up to the last fragment, and the last fragment after it
      have hk' : s ++ k.flatten = w.take (s ++ k.flatten).length := by
        have h := congrArg (List.take (s ++ k.flatten).length) heq
        rw [List.take_left, List.take_take] at h
        rwa [min_eq_left (by rw [List.length_append]; omega)] at h
      refine .inr (.inl ⟨(s ++ k.flatten).length, ?_, ⟨f, k, s, hksub, hs, hsf, hk'⟩, ?_⟩)
      · rw [List.length_append]
        omega
      · refine ⟨w.drop m, (List.append_right_inj (s ++ k.flatten)).mp ?_⟩
        rw [← List.append_assoc, heq, List.take_append_drop]
        conv_rhs => rw [hk']
        rw [List.length_take, min_eq_left (by rw [List.length_append]; omega),
          List.take_append_drop]
  · rintro (h | ⟨k, hk, ⟨f, mids, s, hsub, hs, hsf, heq⟩, hg⟩ | ⟨hpos, hsuf⟩)
    · exact h.mono (List.sublist_append_left fs [g])
    · refine ⟨f, mids ++ [g], s, ?_, hs, hsf, ?_⟩
      · exact sublist_concat_iff.mpr (.inr ⟨f :: mids, rfl, hsub⟩)
      · rw [List.flatten_append, List.flatten_singleton, ← List.append_assoc, heq, ← hk,
          List.take_add, List.prefix_iff_eq_take.mp hg]
        simp
    · refine ⟨g, [], w.take m, ?_, ?_, hsuf, by simp⟩
      · exact sublist_concat_iff.mpr (.inr ⟨[], rfl, List.nil_sublist fs⟩)
      · rw [← List.length_pos_iff, List.length_take]
        omega

/-- A word that one more fragment completes lies in it, or was begun and is ended by it. -/
theorem spelled_concat_iff :
    Spelled w (fs ++ [g]) ↔
      Spelled w fs ∨ w <:+: g ∨ ∃ k < w.length, Begun w k fs ∧ w.drop k <+: g := by
  constructor
  · rintro (⟨f, hf, hw⟩ | ⟨f, mids, g', s, p, hsub, hs, hsf, hp, hpg, heq⟩)
    · rcases List.mem_append.mp hf with hf | hf
      · exact .inl (.inl ⟨f, hf, hw⟩)
      · rw [List.mem_singleton.mp hf] at hw
        exact .inr (.inl hw)
    · rcases sublist_concat_iff.mp hsub with hsub | ⟨k, hk, hksub⟩
      · exact .inl (.inr ⟨f, mids, g', s, p, hsub, hs, hsf, hp, hpg, heq⟩)
      · rw [← List.cons_append] at hk
        obtain ⟨rfl, hg⟩ := List.append_inj' hk rfl
        obtain rfl : g' = g := by simpa using hg
        have hpos := List.length_pos_iff.mpr hp
        refine .inr (.inr ⟨(s ++ mids.flatten).length, ?_,
          ⟨f, mids, s, hksub, hs, hsf, ?_⟩, ?_⟩)
        · rw [heq]
          simp only [List.length_append] at hpos ⊢
          omega
        · rw [heq, List.take_left]
        · rw [heq, List.drop_left]
          exact hpg
  · rintro (h | hw | ⟨k, hk, ⟨f, mids, s, hsub, hs, hsf, heq⟩, hg⟩)
    · exact h.mono (List.sublist_append_left fs [g])
    · exact .inl ⟨g, by simp, hw⟩
    · refine .inr ⟨f, mids, g, s, w.drop k, ?_, hs, hsf, ?_, hg, ?_⟩
      · exact sublist_concat_iff.mpr (.inr ⟨f :: mids, rfl, hsub⟩)
      · rw [← List.length_pos_iff, List.length_drop]
        omega
      · rw [heq, List.take_append_drop]

end Cyclo.Text
