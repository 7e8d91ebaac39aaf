import Mathlib.Data.List.DropRight
import Mathlib.Tactic.Common

/-! Sequences split at marks: the words between the marks, stripping, and how both fare under an
encoding that keeps the marks apart from everything else. -/
namespace Cyclo.Text

variable {α β : Type*} {p q : α → Bool}

/-- The non-empty pieces between the marks. -/
def words (p : α → Bool) (s : List α) : List (List α) := (s.splitOnP p).filter fun w => !w.isEmpty

/-- The sequence without the marks at its ends. -/
def strip (p : α → Bool) (s : List α) : List α := (s.dropWhile p).rdropWhile p

theorem splitOnP_cons_of_pos {a : α} (s : List α) (h : p a = true) :
    (a :: s).splitOnP p = [] :: s.splitOnP p := by
  rw [List.splitOnP_cons_eq_if_modifyHead, if_pos h]

theorem splitOnP_cons_of_neg {a : α} (s : List α) (h : p a = false) :
    (a :: s).splitOnP p = (s.splitOnP p).modifyHead (a :: ·) := by
  rw [List.splitOnP_cons_eq_if_modifyHead, if_neg (by simp [h])]

/-- Splitting at more marks splits the pieces further. -/
theorem splitOnP_splitOnP (h : ∀ a, q a = true → p a = true) (s : List α) :
    s.splitOnP p = (s.splitOnP q).flatMap (List.splitOnP p) := by
  induction s with
  | nil => simp
  | cons a s ih =>
    obtain ⟨piece, pieces, hq⟩ := List.exists_cons_of_ne_nil (List.splitOnP_ne_nil q s)
    cases hqa : q a with
    | true =>
      rw [splitOnP_cons_of_pos s hqa, splitOnP_cons_of_pos s (h a hqa), ih, List.flatMap_cons,
        List.splitOnP_nil, List.singleton_append]
    | false =>
      rw [hq, List.flatMap_cons] at ih
      rw [splitOnP_cons_of_neg s hqa, hq, List.modifyHead_cons, List.flatMap_cons]
      cases hpa : p a with
      | true => rw [splitOnP_cons_of_pos s hpa, splitOnP_cons_of_pos piece hpa, ih]; rfl
      | false =>
        obtain ⟨head, heads, hp⟩ := List.exists_cons_of_ne_nil (List.splitOnP_ne_nil p piece)
        rw [splitOnP_cons_of_neg s hpa, splitOnP_cons_of_neg piece hpa, ih, hp]
        rfl

theorem splitOnP_congr {s : List α} (h : ∀ a ∈ s, p a = q a) : s.splitOnP p = s.splitOnP q := by
  induction s with
  | nil => simp
  | cons a s ih =>
    rw [List.forall_mem_cons] at h
    rw [List.splitOnP_cons_eq_if_modifyHead, List.splitOnP_cons_eq_if_modifyHead, h.1, ih h.2]

/-- Two splittings with at most as many pieces of each line agree on every line. -/
theorem flatMap_eq {β : Type*} {f g : α → List β} {lines : List α}
    (hle : ∀ line ∈ lines, (f line).length ≤ (g line).length)
    (h : lines.flatMap f = lines.flatMap g) : ∀ line ∈ lines, f line = g line := by
  have hlength : ∀ ls : List α, (∀ line ∈ ls, (f line).length ≤ (g line).length) →
      (ls.flatMap f).length ≤ (ls.flatMap g).length := by
    intro ls hls
    induction ls with
    | nil => exact le_rfl
    | cons line ls ih =>
      rw [List.forall_mem_cons] at hls
      have hrest := ih hls.2
      simp only [List.flatMap_cons, List.length_append]
      omega
  induction lines with
  | nil => exact List.forall_mem_nil _
  | cons line lines ih =>
    rw [List.forall_mem_cons] at hle ⊢
    have hrest := hlength lines hle.2
    have htotal := congrArg List.length h
    simp only [List.flatMap_cons, List.length_append] at htotal
    obtain ⟨hhead, htail⟩ := List.append_inj h (by omega)
    exact ⟨hhead, ih hle.2 htail⟩

/-- No piece holds a mark. -/
theorem mem_splitOnP {s piece : List α} (h : piece ∈ s.splitOnP p) : ∀ a ∈ piece, p a = false := by
  intro a ha
  induction s generalizing piece with
  | nil =>
    rw [List.splitOnP_nil, List.mem_singleton] at h
    rw [h] at ha
    cases ha
  | cons b s ih =>
    cases hb : p b with
    | true =>
      rw [splitOnP_cons_of_pos s hb] at h
      rcases List.mem_cons.mp h with rfl | h
      · cases ha
      · exact ih h ha
    | false =>
      obtain ⟨head, pieces, hs⟩ := List.exists_cons_of_ne_nil (List.splitOnP_ne_nil p s)
      rw [splitOnP_cons_of_neg s hb, hs, List.modifyHead_cons] at h
      rw [hs] at ih
      rcases List.mem_cons.mp h with rfl | h
      · rcases List.mem_cons.mp ha with rfl | ha
        · exact hb
        · exact ih List.mem_cons_self ha
      · exact ih (List.mem_cons_of_mem _ h) ha

/-- What is no mark can be left out before or after the splitting. -/
theorem splitOnP_filter (h : ∀ a, p a = true → q a = true) (s : List α) :
    (s.filter q).splitOnP p = (s.splitOnP p).map (List.filter q) := by
  induction s with
  | nil => simp
  | cons a s ih =>
    cases hp : p a with
    | true =>
      rw [List.filter_cons_of_pos (h a hp), splitOnP_cons_of_pos _ hp, splitOnP_cons_of_pos _ hp, ih]
      rfl
    | false =>
      obtain ⟨head, pieces, hs⟩ := List.exists_cons_of_ne_nil (List.splitOnP_ne_nil p s)
      rw [splitOnP_cons_of_neg _ hp, hs, List.modifyHead_cons, List.map_cons]
      rw [hs, List.map_cons] at ih
      cases hq : q a with
      | true =>
        rw [List.filter_cons_of_pos hq, splitOnP_cons_of_neg _ hp, ih, List.filter_cons_of_pos hq]
        rfl
      | false =>
        rw [List.filter_cons_of_neg (by simp [hq]), ih, List.filter_cons_of_neg (by simp [hq])]

@[simp] theorem words_nil (p : α → Bool) : words p [] = [] := by simp [words]

theorem words_congr {s : List α} (h : ∀ a ∈ s, p a = q a) : words p s = words q s := by
  rw [words, splitOnP_congr h, words]

/-- The words on both sides of a mark. -/
theorem words_append_mark {a : α} (h : p a = true) (s t : List α) :
    words p (s ++ a :: t) = words p s ++ words p t := by
  unfold words
  rw [List.splitOnP_append_cons s t h, List.filter_append]

theorem words_cons_mark {a : α} (h : p a = true) (s : List α) : words p (a :: s) = words p s := by
  simpa using words_append_mark h [] s

theorem words_concat_mark {a : α} (h : p a = true) (s : List α) :
    words p (s ++ [a]) = words p s := by
  simpa using words_append_mark h s []

/-- The words are what remains of the sequence without its marks. -/
theorem flatten_words (p : α → Bool) (s : List α) :
    (words p s).flatten = s.filter fun a => !p a := by
  unfold words
  induction s with
  | nil => simp
  | cons a s ih =>
    cases hp : p a with
    | true => simpa [splitOnP_cons_of_pos s hp, hp] using ih
    | false =>
      obtain ⟨piece, pieces, hs⟩ := List.exists_cons_of_ne_nil (List.splitOnP_ne_nil p s)
      rw [hs] at ih
      rw [splitOnP_cons_of_neg s hp, hs]
      cases piece with
      | nil => simpa [hp] using ih
      | cons b piece => simpa [hp] using ih

theorem mem_words {s w : List α} {a : α} (hw : w ∈ words p s) (ha : a ∈ w) :
    a ∈ s ∧ p a = false := by
  have hmem : a ∈ (words p s).flatten := List.mem_flatten_of_mem hw ha
  rw [flatten_words, List.mem_filter] at hmem
  simpa using hmem

theorem exists_word {s : List α} {a : α} (ha : a ∈ s) (hp : p a = false) :
    ∃ w ∈ words p s, a ∈ w := by
  have hmem : a ∈ (words p s).flatten := by
    rw [flatten_words, List.mem_filter]
    exact ⟨ha, by simp [hp]⟩
  simpa using hmem

theorem ne_nil_of_mem_words {s w : List α} (hw : w ∈ words p s) : w ≠ [] := by
  have hne := (List.mem_filter.mp hw).2
  simpa using hne

/-- Words without marks, put together with marks between and after them. -/
theorem words_of_no_marks {w : List α} (hne : w ≠ []) (h : ∀ a ∈ w, p a = false) :
    words p w = [w] := by
  rw [words, List.splitOnP_eq_singleton h]
  simp [hne]

/-- The first element that is no mark stays the first one when others are left out. -/
theorem head?_dropWhile_filter (hq : ∀ a, p a = true → q a = true) {s : List α} {a : α}
    (h : (s.dropWhile p).head? = some a) (ha : q a = true) :
    ((s.filter q).dropWhile p).head? = some a := by
  induction s with
  | nil => cases h
  | cons b s ih =>
    cases hb : p b with
    | true =>
      rw [List.dropWhile_cons_of_pos hb] at h
      rw [List.filter_cons_of_pos (hq b hb), List.dropWhile_cons_of_pos hb]
      exact ih h
    | false =>
      rw [List.dropWhile_cons_of_neg (by simp [hb]), List.head?_cons] at h
      cases h
      rw [List.filter_cons_of_pos ha, List.dropWhile_cons_of_neg (by simp [hb]), List.head?_cons]

theorem words_dropWhile (p : α → Bool) (s : List α) : words p (s.dropWhile p) = words p s := by
  induction s with
  | nil => rfl
  | cons a s ih =>
    cases hp : p a with
    | true => rw [List.dropWhile_cons_of_pos hp, ih, words_cons_mark hp]
    | false => rw [List.dropWhile_cons_of_neg (by simp [hp])]

theorem words_rdropWhile (p : α → Bool) (s : List α) : words p (s.rdropWhile p) = words p s := by
  induction s using List.reverseRecOn with
  | nil => rfl
  | append_singleton s a ih =>
    cases hp : p a with
    | true => rw [List.rdropWhile_concat_pos _ _ _ hp, ih, words_concat_mark hp]
    | false => rw [List.rdropWhile_concat_neg _ _ _ (by simp [hp])]

@[simp] theorem words_strip (p : α → Bool) (s : List α) : words p (strip p s) = words p s := by
  rw [strip, words_rdropWhile, words_dropWhile]

theorem rdropWhile_cons_of_neg {a : α} (s : List α) (h : p a = false) :
    (a :: s).rdropWhile p = a :: s.rdropWhile p := by
  induction s using List.reverseRecOn with
  | nil => simp [List.rdropWhile, h]
  | append_singleton s b ih =>
    rw [← List.cons_append]
    cases hb : p b with
    | true => rw [List.rdropWhile_concat_pos _ _ _ hb, List.rdropWhile_concat_pos _ _ _ hb, ih]
    | false =>
      rw [List.rdropWhile_concat_neg _ _ _ (by simp [hb]),
        List.rdropWhile_concat_neg _ _ _ (by simp [hb]), List.cons_append]

/-- A stripped sequence starts where the marks at its beginning end. -/
theorem head?_strip (p : α → Bool) (s : List α) : (strip p s).head? = (s.dropWhile p).head? := by
  unfold strip
  cases hd : s.dropWhile p with
  | nil => rfl
  | cons a t =>
    have hne : s.dropWhile p ≠ [] := by
      rw [hd]
      exact List.cons_ne_nil a t
    have ha := List.head_dropWhile_not p hne
    simp only [hd, List.head_cons] at ha
    rw [rdropWhile_cons_of_neg t ha, List.head?_cons, List.head?_cons]

theorem strip_eq_nil {s : List α} : strip p s = [] ↔ ∀ a ∈ s, p a = true := by
  rw [← List.head?_eq_none_iff, head?_strip, List.head?_eq_none_iff, List.dropWhile_eq_nil_iff]

theorem strip_subset (p : α → Bool) (s : List α) : strip p s ⊆ s := fun _ ha =>
  (List.dropWhile_sublist p).subset ((List.rdropWhile_prefix p _).subset ha)

/-- A sequence without marks at its ends is its own stripping. -/
theorem strip_eq_self {s : List α} (hfirst : ∀ a ∈ s.head?, p a = false)
    (hlast : ∀ a ∈ s.getLast?, p a = false) : strip p s = s := by
  have hdrop : s.dropWhile p = s := by
    cases s with
    | nil => rfl
    | cons a s => rw [List.dropWhile_cons_of_neg (by simp [hfirst a (by simp)])]
  unfold strip
  rw [hdrop]
  induction s using List.reverseRecOn with
  | nil => rfl
  | append_singleton s a ih => rw [List.rdropWhile_concat_neg _ _ _ (by simp [hlast a (by simp)])]

theorem strip_head (s : List α) : ∀ a ∈ (strip p s).head?, p a = false := by
  intro a ha
  have hno := List.head?_dropWhile_not p s
  rw [head?_strip] at ha
  rw [ha] at hno
  exact hno

theorem strip_getLast (s : List α) : ∀ a ∈ (strip p s).getLast?, p a = false := by
  intro a ha
  unfold strip at ha
  by_contra hp
  rw [Bool.not_eq_false] at hp
  obtain ⟨init, hinit⟩ := List.getLast?_eq_some_iff.mp ha
  have hne : (s.dropWhile p).rdropWhile p ≠ [] := by
    rw [hinit]
    exact List.append_ne_nil_of_right_ne_nil _ (List.cons_ne_nil a [])
  have hlast := List.rdropWhile_last_not p (s.dropWhile p) hne
  simp only [hinit, List.getLast_append_singleton] at hlast
  exact hlast hp

@[simp] theorem strip_strip (s : List α) : strip p (strip p s) = strip p s :=
  strip_eq_self (strip_head s) (strip_getLast s)

/-- The marks at the ends are all that stripping takes away. -/
theorem strip_decompose (p : α → Bool) (s : List α) :
    ∃ before after, s = before ++ strip p s ++ after ∧ (∀ a ∈ before, p a = true) ∧
      ∀ a ∈ after, p a = true := by
  have hdrop : s.takeWhile p ++ s.dropWhile p = s := List.takeWhile_append_dropWhile
  have hrdrop : (s.dropWhile p).rdropWhile p ++ (s.dropWhile p).rtakeWhile p = s.dropWhile p :=
    List.rdropWhile_append_rtakeWhile ..
  refine ⟨s.takeWhile p, (s.dropWhile p).rtakeWhile p, ?_, ?_, ?_⟩
  · rw [strip, List.append_assoc, hrdrop, hdrop]
  · intro a ha
    exact List.mem_takeWhile_imp ha
  · intro a ha
    exact List.mem_rtakeWhile_imp ha

/-- Marks around a sequence do not change its stripping. -/
theorem strip_append {before after s : List α} (hbefore : ∀ a ∈ before, p a = true)
    (hafter : ∀ a ∈ after, p a = true) : strip p (before ++ s ++ after) = strip p s := by
  unfold strip
  have hleft : ∀ t : List α, (before ++ t).dropWhile p = t.dropWhile p := by
    intro t
    induction before with
    | nil => rfl
    | cons a before ih =>
      rw [List.forall_mem_cons] at hbefore
      rw [List.cons_append, List.dropWhile_cons_of_pos hbefore.1, ih hbefore.2]
  have hright : ∀ t : List α, (t ++ after).rdropWhile p = t.rdropWhile p := by
    intro t
    induction after using List.reverseRecOn with
    | nil => rw [List.append_nil]
    | append_singleton after a ih =>
      rw [List.forall_mem_append, List.forall_mem_singleton] at hafter
      rw [← List.append_assoc, List.rdropWhile_concat_pos _ _ _ hafter.2, ih hafter.1]
  rw [List.append_assoc, hleft]
  by_cases hs : ∀ a ∈ s, p a = true
  · have hall : ∀ a ∈ s ++ after, p a = true := List.forall_mem_append.mpr ⟨hs, hafter⟩
    rw [List.dropWhile_eq_nil_iff.mpr hs, List.dropWhile_eq_nil_iff.mpr hall]
  · rw [List.dropWhile_append, if_neg, hright]
    rw [List.isEmpty_iff, List.dropWhile_eq_nil_iff]
    exact hs

/-- Marks are stripped from the end behind the last element that is none. -/
theorem rdropWhile_append {s t : List α} (h : ∃ a ∈ s.getLast?, p a = false) :
    (s ++ t).rdropWhile p = s ++ t.rdropWhile p := by
  obtain ⟨a, hlast, ha⟩ := h
  obtain ⟨init, rfl⟩ := List.getLast?_eq_some_iff.mp hlast
  induction t using List.reverseRecOn with
  | nil => rw [List.append_nil, List.rdropWhile_concat_neg _ _ _ (by simp [ha])]; simp
  | append_singleton t b ih =>
    rw [← List.append_assoc]
    cases hb : p b with
    | true => rw [List.rdropWhile_concat_pos _ _ _ hb, List.rdropWhile_concat_pos _ _ _ hb, ih]
    | false =>
      rw [List.rdropWhile_concat_neg _ _ _ (by simp [hb]),
        List.rdropWhile_concat_neg _ _ _ (by simp [hb]), List.append_assoc]

theorem strip_rdropWhile (p : α → Bool) (s : List α) : strip p (s.rdropWhile p) = strip p s := by
  obtain ⟨after, hs, hafter⟩ : ∃ after, s = s.rdropWhile p ++ after ∧ ∀ a ∈ after, p a = true :=
    ⟨s.rtakeWhile p, (List.rdropWhile_append_rtakeWhile ..).symm,
      fun _ ha => List.mem_rtakeWhile_imp ha⟩
  have h : strip p ([] ++ s.rdropWhile p ++ after) = strip p (s.rdropWhile p) :=
    strip_append (List.forall_mem_nil _) hafter
  rw [List.nil_append, ← hs] at h
  exact h.symm

theorem subset_of_mem_splitOnP {s piece : List α} (h : piece ∈ s.splitOnP p) : piece ⊆ s := by
  induction s generalizing piece with
  | nil =>
    rw [List.splitOnP_nil, List.mem_singleton] at h
    rw [h]
    exact List.nil_subset _
  | cons a s ih =>
    cases ha : p a with
    | true =>
      rw [splitOnP_cons_of_pos s ha] at h
      rcases List.mem_cons.mp h with rfl | h
      · exact List.nil_subset _
      · exact List.subset_cons_of_subset a (ih h)
    | false =>
      obtain ⟨head, pieces, hs⟩ := List.exists_cons_of_ne_nil (List.splitOnP_ne_nil p s)
      rw [splitOnP_cons_of_neg s ha, hs, List.modifyHead_cons] at h
      rw [hs] at ih
      rcases List.mem_cons.mp h with rfl | h
      · exact List.cons_subset_cons a (ih List.mem_cons_self)
      · exact List.subset_cons_of_subset a (ih (List.mem_cons_of_mem _ h))

/-- What comes before the first mark belongs to the first piece. -/
theorem splitOnP_append_of_no_marks {s : List α} (h : ∀ a ∈ s, p a = false) (t : List α) :
    (s ++ t).splitOnP p = (t.splitOnP p).modifyHead (s ++ ·) := by
  induction s with
  | nil =>
    obtain ⟨head, pieces, ht⟩ := List.exists_cons_of_ne_nil (List.splitOnP_ne_nil p t)
    rw [List.nil_append, ht]
    rfl
  | cons a s ih =>
    rw [List.forall_mem_cons] at h
    obtain ⟨head, pieces, ht⟩ := List.exists_cons_of_ne_nil (List.splitOnP_ne_nil p t)
    rw [List.cons_append, splitOnP_cons_of_neg _ h.1, ih h.2, ht]
    rfl

/-- Where the stripped sequence has no marks of the coarser kind, a first piece that is not blank
holds all of it, and the others are blank. -/
theorem splitOnP_of_strip {s piece : List α} {pieces : List (List α)}
    (hcore : ∀ a ∈ strip p s, q a = false) (hs : s.splitOnP q = piece :: pieces)
    (hne : strip p piece ≠ []) :
    strip p piece = strip p s ∧ ∀ other ∈ pieces, strip p other = [] := by
  obtain ⟨before, after, hsplit, hbefore, hafter⟩ := strip_decompose p s
  set core := strip p s with hcoreDef
  by_cases hbreak : ∀ a ∈ before, q a = false
  · have hfront : ∀ a ∈ before ++ core, q a = false := List.forall_mem_append.mpr ⟨hbreak, hcore⟩
    obtain ⟨head, others, ht⟩ := List.exists_cons_of_ne_nil (List.splitOnP_ne_nil q after)
    rw [hsplit, splitOnP_append_of_no_marks hfront, ht, List.modifyHead_cons, List.cons.injEq] at hs
    have hblank : ∀ other ∈ head :: others, ∀ a ∈ other, p a = true := by
      intro other hother a ha
      rw [← ht] at hother
      exact hafter a (subset_of_mem_splitOnP hother ha)
    rw [List.forall_mem_cons] at hblank
    constructor
    · rw [← hs.1, strip_append hbefore hblank.1, hcoreDef, strip_strip]
    · rw [← hs.2]
      intro other hother
      exact strip_eq_nil.mpr (hblank.2 other hother)
  · push Not at hbreak
    obtain ⟨a, ha, hqa⟩ := hbreak
    obtain ⟨front, rest, hfront⟩ := List.append_of_mem ha
    rw [Bool.ne_false_iff] at hqa
    obtain ⟨head, others, hh⟩ := List.exists_cons_of_ne_nil (List.splitOnP_ne_nil q front)
    have hassoc : s = front ++ a :: (rest ++ core ++ after) := by
      rw [hsplit, hfront]
      simp
    rw [hassoc, List.splitOnP_append_cons _ _ hqa, hh, List.cons_append, List.cons.injEq] at hs
    refine absurd (strip_eq_nil.mpr fun b hb => ?_) hne
    have hmem : b ∈ front := subset_of_mem_splitOnP (hh ▸ List.mem_cons_self) (hs.1 ▸ hb)
    exact hbefore b (hfront ▸ List.mem_append_left _ hmem)

/-- An encoding that writes every mark as one mark, and everything else without marks. -/
structure KeepsMarks (f : α → List β) (p : α → Bool) (q : β → Bool) : Prop where
  mark : ∀ a, p a = true → ∃ b, f a = [b] ∧ q b = true
  other : ∀ a, p a = false → f a ≠ [] ∧ ∀ b ∈ f a, q b = false

namespace KeepsMarks
variable {f : α → List β} {q : β → Bool}

/-- Dropping the marks at the beginning. -/
theorem dropWhile (h : KeepsMarks f p q) (s : List α) :
    (s.flatMap f).dropWhile q = (s.dropWhile p).flatMap f := by
  induction s with
  | nil => rfl
  | cons a s ih =>
    rw [List.flatMap_cons]
    cases hp : p a with
    | true =>
      obtain ⟨b, hb, hq⟩ := h.mark a hp
      rw [hb, List.singleton_append, List.dropWhile_cons_of_pos hq, ih,
        List.dropWhile_cons_of_pos hp]
    | false =>
      obtain ⟨hne, hnone⟩ := h.other a hp
      obtain ⟨b, rest, hb⟩ := List.exists_cons_of_ne_nil hne
      have hq : q b = false := hnone b (by simp [hb])
      rw [List.dropWhile_cons_of_neg (by simp [hp]), List.flatMap_cons, hb, List.cons_append,
        List.dropWhile_cons_of_neg (by simp [hq])]

theorem filter_not (h : KeepsMarks f p q) (s : List α) :
    (s.flatMap f).filter (fun b => !q b) = (s.filter fun a => !p a).flatMap f := by
  induction s with
  | nil => rfl
  | cons a s ih =>
    rw [List.flatMap_cons, List.filter_append, ih, List.filter_cons]
    cases hp : p a with
    | true =>
      obtain ⟨b, hb, hq⟩ := h.mark a hp
      simp [hb, hq]
    | false =>
      have hall : (f a).filter (fun b => !q b) = f a := by
        rw [List.filter_eq_self]
        intro b hb
        rw [(h.other a hp).2 b hb]
        rfl
      rw [hall]
      rfl

theorem splitOnP (h : KeepsMarks f p q) (s : List α) :
    (s.flatMap f).splitOnP q = (s.splitOnP p).map (List.flatMap f) := by
  induction s with
  | nil => simp
  | cons a s ih =>
    rw [List.flatMap_cons]
    cases hp : p a with
    | true =>
      obtain ⟨b, hb, hq⟩ := h.mark a hp
      rw [hb, List.singleton_append, splitOnP_cons_of_pos _ hq, splitOnP_cons_of_pos _ hp, ih]
      rfl
    | false =>
      obtain ⟨piece, pieces, hs⟩ := List.exists_cons_of_ne_nil (List.splitOnP_ne_nil p s)
      rw [splitOnP_cons_of_neg _ hp, hs, List.modifyHead_cons, List.map_cons, List.flatMap_cons]
      rw [hs, List.map_cons] at ih
      have hnone := (h.other a hp).2
      revert hnone
      induction f a with
      | nil =>
        intro _
        rw [List.nil_append, List.nil_append, ih]
      | cons b rest ihrest =>
        intro hnone
        rw [List.forall_mem_cons] at hnone
        rw [List.cons_append, splitOnP_cons_of_neg _ hnone.1, ihrest hnone.2]
        rfl

theorem words (h : KeepsMarks f p q) (s : List α) :
    Text.words q (s.flatMap f) = (Text.words p s).map (List.flatMap f) := by
  unfold Text.words
  rw [h.splitOnP, List.filter_map]
  congr 1
  apply List.filter_congr
  intro piece hpiece
  cases piece with
  | nil => rfl
  | cons a piece =>
    have hne : f a ≠ [] := by
      cases hp : p a with
      | true =>
        obtain ⟨b, hb, -⟩ := h.mark a hp
        simp [hb]
      | false => exact (h.other a hp).1
    simp [hne]

end KeepsMarks
end Cyclo.Text
