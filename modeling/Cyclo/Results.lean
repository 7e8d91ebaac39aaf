import Mathlib.Data.List.Forall2
import Mathlib.Tactic.Common

/-! Calls that return or raise, one after another and over lists. -/
namespace Cyclo

variable {ε α β : Type}

theorem ok_bind {a : α} {f : α → Except ε β} : (.ok a >>= f) = f a := rfl

theorem bind_eq_ok {x : Except ε α} {f : α → Except ε β} {b : β} :
    x >>= f = .ok b ↔ ∃ a, x = .ok a ∧ f a = .ok b := by
  cases x with
  | error e => exact iff_of_false nofun fun h => nomatch h.choose_spec.1
  | ok a =>
    constructor
    · intro h
      exact ⟨a, rfl, h⟩
    · intro h
      obtain ⟨_, ha, h⟩ := h
      cases ha
      exact h

theorem forM_eq_ok {values : List α} {f : α → Except ε Unit} :
    values.forM f = .ok () ↔ ∀ value ∈ values, f value = .ok () := by
  induction values with
  | nil => exact iff_of_true rfl (List.forall_mem_nil _)
  | cons value values ih =>
    rw [List.forall_mem_cons, ← ih]
    change (f value >>= fun _ => values.forM f) = .ok () ↔ _
    rw [bind_eq_ok]
    constructor
    · intro h
      obtain ⟨_, hvalue, h⟩ := h
      exact ⟨hvalue, h⟩
    · intro h
      exact ⟨(), h.1, h.2⟩

theorem mapError_eq_ok {δ : Type} {x : Except ε α} {f : ε → δ} {a : α} :
    x.mapError f = .ok a ↔ x = .ok a := by
  cases x with
  | error e => exact iff_of_false nofun nofun
  | ok b =>
    constructor
    · intro h
      cases h
      rfl
    · intro h
      cases h
      rfl

theorem mem_of_forall₂ {r : α → β → Prop} {xs : List α} {ys : List β}
    (h : List.Forall₂ r xs ys) : (∀ y ∈ ys, ∃ x ∈ xs, r x y) ∧ ∀ x ∈ xs, ∃ y ∈ ys, r x y := by
  induction h with
  | nil => exact ⟨List.forall_mem_nil _, List.forall_mem_nil _⟩
  | cons hxy _ ih =>
    constructor
    · refine List.forall_mem_cons.mpr ⟨⟨_, List.mem_cons_self, hxy⟩, fun y hy => ?_⟩
      obtain ⟨x, hx, hxy⟩ := ih.1 y hy
      exact ⟨x, List.mem_cons_of_mem _ hx, hxy⟩
    · refine List.forall_mem_cons.mpr ⟨⟨_, List.mem_cons_self, hxy⟩, fun x hx => ?_⟩
      obtain ⟨y, hy, hxy⟩ := ih.2 x hx
      exact ⟨y, List.mem_cons_of_mem _ hy, hxy⟩

theorem forall₂_imp_of_mem {r s : α → β → Prop} {xs : List α} {ys : List β} (h : List.Forall₂ r xs ys)
    (himp : ∀ x ∈ xs, ∀ y, r x y → s x y) : List.Forall₂ s xs ys := by
  induction h with
  | nil => exact List.Forall₂.nil
  | cons hxy _ ih =>
    rw [List.forall_mem_cons] at himp
    exact List.Forall₂.cons (himp.1 _ hxy) (ih himp.2)

theorem toOption_eq_some {result : Except ε α} {a : α} :
    result.toOption = some a ↔ result = .ok a := by
  cases result with
  | error e => exact iff_of_false nofun nofun
  | ok b =>
    rw [Except.ok.injEq]
    exact Option.some_inj

theorem mapM_eq_ok {values : List α} {f : α → Except ε β} {results : List β} :
    values.mapM f = .ok results ↔
      List.Forall₂ (fun value result => f value = .ok result) values results := by
  induction values generalizing results with
  | nil =>
    rw [List.mapM_nil, List.forall₂_nil_left_iff]
    constructor
    · intro h
      cases h
      rfl
    · intro h
      rw [h]
      rfl
  | cons value values ih =>
    rw [List.mapM_cons, bind_eq_ok, List.forall₂_cons_left_iff]
    constructor
    · intro h
      obtain ⟨result, hresult, h⟩ := h
      obtain ⟨rest, hrest, h⟩ := bind_eq_ok.mp h
      cases h
      exact ⟨result, rest, hresult, ih.mp hrest, rfl⟩
    · intro h
      obtain ⟨result, rest, hresult, hrest, rfl⟩ := h
      exact ⟨result, hresult, bind_eq_ok.mpr ⟨rest, ih.mpr hrest, rfl⟩⟩

/-- A loop returns results of a kind exactly where it returns one for each of its values. -/
theorem mapM_returns_all {p : β → Prop} {values : List α} {f : α → Except ε β} :
    (∃ results, values.mapM f = .ok results ∧ ∀ result ∈ results, p result) ↔
      ∀ value ∈ values, ∃ result, f value = .ok result ∧ p result := by
  induction values with
  | nil => exact iff_of_true ⟨[], rfl, List.forall_mem_nil _⟩ (List.forall_mem_nil _)
  | cons value values ih =>
    rw [List.forall_mem_cons, ← ih]
    constructor
    · rintro ⟨results, h, hall⟩
      rw [List.mapM_cons] at h
      obtain ⟨result, hresult, h⟩ := bind_eq_ok.mp h
      obtain ⟨rest, hrest, h⟩ := bind_eq_ok.mp h
      cases h
      rw [List.forall_mem_cons] at hall
      exact ⟨⟨result, hresult, hall.1⟩, rest, hrest, hall.2⟩
    · rintro ⟨⟨result, hresult, hone⟩, rest, hrest, hall⟩
      refine ⟨result :: rest, ?_, List.forall_mem_cons.mpr ⟨hone, hall⟩⟩
      rw [List.mapM_cons]
      exact bind_eq_ok.mpr ⟨result, hresult, bind_eq_ok.mpr ⟨rest, hrest, rfl⟩⟩

/-- A loop returns exactly where it returns for each of its values. -/
theorem mapM_returns {values : List α} {f : α → Except ε β} :
    (∃ results, values.mapM f = .ok results) ↔ ∀ value ∈ values, ∃ result, f value = .ok result := by
  have h : _ ↔ _ := @mapM_returns_all ε α β (fun _ => True) values f
  simpa using h

/-- What holds at the start of a loop and is kept by each round holds at its end. -/
theorem foldlM_invariant {values : List α} {f : β → α → Except ε β} {init result : β} (P : β → Prop)
    (hstep : ∀ value ∈ values, ∀ b b', P b → f b value = .ok b' → P b') (hinit : P init)
    (h : values.foldlM f init = .ok result) : P result := by
  induction values generalizing init with
  | nil =>
    cases h
    exact hinit
  | cons value values ih =>
    rw [List.foldlM_cons] at h
    obtain ⟨next, hnext, h⟩ := bind_eq_ok.mp h
    exact ih (fun v hv => hstep v (List.mem_cons_of_mem _ hv))
      (hstep value List.mem_cons_self _ _ hinit hnext) h

end Cyclo
