import Cyclo.Text.Lines
import Mathlib.Logic.Relation

/-! Named contents written one after the other, a mark behind every name and every content. Where
contents may hold the mark, a stream does not say where they end: the streams of two lists are equal
exactly where one list arises from the other by cutting contents at marks and joining frames. -/
namespace Cyclo.Text

variable {α : Type*} (mark : α)

abbrev Frame (α : Type*) := List α × List α

def frame (f : Frame α) : List α := f.1 ++ mark :: (f.2 ++ [mark])

def framed (frames : List (Frame α)) : List α := frames.flatMap (frame mark)

/-- A content is cut at two marks: what is between them becomes the name of another frame. -/
inductive Cut : List (Frame α) → List (Frame α) → Prop
  | cut (before after : List (Frame α)) (name content next rest : List α) (h : mark ∉ next) :
    Cut (before ++ (name, content ++ mark :: (next ++ mark :: rest)) :: after)
      (before ++ (name, content) :: (next, rest) :: after)

/-- One list arises from the other by cutting and joining. -/
def Recut : List (Frame α) → List (Frame α) → Prop := Relation.EqvGen (Cut mark)

/-- The content of one frame and the frames behind it, read as the content of that frame. -/
def joined (content : List α) (frames : List (Frame α)) : List α :=
  content ++ frames.flatMap fun f => mark :: (f.1 ++ mark :: f.2)

variable {mark}

@[simp] theorem framed_nil : framed mark [] = [] := rfl

@[simp] theorem framed_cons (f : Frame α) (frames : List (Frame α)) :
    framed mark (f :: frames) = frame mark f ++ framed mark frames := rfl

@[simp] theorem framed_append (fs gs : List (Frame α)) :
    framed mark (fs ++ gs) = framed mark fs ++ framed mark gs := List.flatMap_append

theorem Cut.framed_eq {fs gs : List (Frame α)} (h : Cut mark fs gs) :
    framed mark fs = framed mark gs := by
  cases h with
  | cut before after name content next rest h =>
    rw [framed_append, framed_append, framed_cons, framed_cons, framed_cons]
    simp [frame]

theorem Recut.framed_eq {fs gs : List (Frame α)} (h : Recut mark fs gs) :
    framed mark fs = framed mark gs := by
  induction h with
  | rel _ _ hc => exact hc.framed_eq
  | refl => rfl
  | symm _ _ _ ih => exact ih.symm
  | trans _ _ _ _ _ ih ih' => exact ih.trans ih'

theorem framed_cons_joined (name content : List α) (frames : List (Frame α)) :
    framed mark ((name, content) :: frames) = frame mark (name, joined mark content frames) := by
  induction frames generalizing content with
  | nil => simp [joined]
  | cons f frames ih =>
    have hjoined : joined mark content (f :: frames) =
        joined mark (content ++ mark :: (f.1 ++ mark :: f.2)) frames := by
      simp [joined]
    rw [hjoined, ← ih, framed_cons, framed_cons, framed_cons]
    simp [frame]

/-- Every list of frames can be joined to one frame. -/
theorem recut_joined (name content : List α) {frames : List (Frame α)}
    (h : ∀ f ∈ frames, mark ∉ f.1) :
    Recut mark ((name, content) :: frames) [(name, joined mark content frames)] := by
  induction frames generalizing content with
  | nil =>
    have hjoined : joined mark content [] = content := by simp [joined]
    rw [hjoined]
    exact Relation.EqvGen.refl _
  | cons f frames ih =>
    have hcut := Cut.cut [] frames name content f.1 f.2 (h f List.mem_cons_self)
    have hrest := ih (content ++ mark :: (f.1 ++ mark :: f.2)) fun g hg =>
      h g (List.mem_cons_of_mem _ hg)
    have hjoined : joined mark content (f :: frames) =
        joined mark (content ++ mark :: (f.1 ++ mark :: f.2)) frames := by
      simp [joined]
    rw [hjoined]
    exact Relation.EqvGen.trans _ _ _ (Relation.EqvGen.symm _ _ (Relation.EqvGen.rel _ _ hcut)) hrest

theorem append_mark_inj [DecidableEq α] {s s' t t' : List α} (hs : mark ∉ s) (hs' : mark ∉ s')
    (h : s ++ mark :: t = s' ++ mark :: t') : s = s' ∧ t = t' := by
  have hp : s :: pieces mark t = s' :: pieces mark t' := by
    rw [← pieces_append_sep mark hs, ← pieces_append_sep mark hs', h]
  have he : s = s' := (List.cons.inj hp).1
  rw [he] at h
  have ht := List.append_cancel_left h
  exact ⟨he, (List.cons.inj ht).2⟩

/-- Streams are equal exactly where cutting and joining leads from one list to the other. -/
theorem framed_eq_iff [DecidableEq α] {fs gs : List (Frame α)} (hfs : ∀ f ∈ fs, mark ∉ f.1)
    (hgs : ∀ g ∈ gs, mark ∉ g.1) : framed mark fs = framed mark gs ↔ Recut mark fs gs := by
  constructor
  swap
  · exact Recut.framed_eq
  intro h
  cases fs with
  | nil =>
    cases gs with
    | nil => exact Relation.EqvGen.refl _
    | cons g gs => simp [frame] at h
  | cons f fs =>
    cases gs with
    | nil => simp [frame] at h
    | cons g gs =>
      obtain ⟨name, content⟩ := f
      obtain ⟨name', content'⟩ := g
      have hf := recut_joined name content fun f hf => hfs f (List.mem_cons_of_mem _ hf)
      have hg := recut_joined name' content' fun g hg => hgs g (List.mem_cons_of_mem _ hg)
      rw [framed_cons_joined, framed_cons_joined] at h
      obtain ⟨hname, hrest⟩ := append_mark_inj (hfs _ List.mem_cons_self)
        (hgs _ List.mem_cons_self) h
      have hname : name = name' := hname
      have hcontent : joined mark content fs = joined mark content' gs :=
        List.append_cancel_right hrest
      subst hname
      rw [← hcontent] at hg
      exact Relation.EqvGen.trans _ _ _ hf (Relation.EqvGen.symm _ _ hg)

/-- Without marks in contents a stream can be read back. -/
theorem framed_injective [DecidableEq α] {fs gs : List (Frame α)}
    (hfs : ∀ f ∈ fs, mark ∉ f.1 ∧ mark ∉ f.2) (hgs : ∀ g ∈ gs, mark ∉ g.1 ∧ mark ∉ g.2)
    (h : framed mark fs = framed mark gs) : fs = gs := by
  induction fs generalizing gs with
  | nil =>
    cases gs with
    | nil => rfl
    | cons g gs => simp [frame] at h
  | cons f fs ih =>
    cases gs with
    | nil => simp [frame] at h
    | cons g gs =>
      rw [List.forall_mem_cons] at hfs hgs
      simp only [framed_cons, frame, List.append_assoc, List.cons_append] at h
      obtain ⟨hname, h⟩ := append_mark_inj hfs.1.1 hgs.1.1 h
      obtain ⟨hcontent, h⟩ := append_mark_inj hfs.1.2 hgs.1.2 h
      rw [List.nil_append, List.nil_append] at h
      rw [ih hfs.2 hgs.2 h, Prod.ext hname hcontent]

end Cyclo.Text
