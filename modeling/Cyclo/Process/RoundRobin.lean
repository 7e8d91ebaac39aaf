import Mathlib.Data.List.Rotate
import Mathlib.Data.List.Nodup
import Mathlib.Tactic.Common

/-! Round robin over a list of distinct members. Every choice is the first suitable member in
cyclic order after the previous choice; what is suitable may change from one choice to the next. -/
namespace Cyclo.Process

variable {α : Type*}

/-- The first suitable member in cyclic order from a position. -/
def firstFrom (members : List α) (start : ℕ) (suitable : α → Bool) : Option α :=
  (members.rotate start).find? suitable

@[simp] theorem firstFrom_mod (members : List α) (start : ℕ) (suitable : α → Bool) :
    firstFrom members (start % members.length) suitable = firstFrom members start suitable := by
  unfold firstFrom
  rw [List.rotate_mod]

theorem firstFrom_eq_some {members : List α} {start : ℕ} {suitable : α → Bool} {member : α}
    (h : firstFrom members start suitable = some member) :
    member ∈ members ∧ suitable member = true := by
  have hm := List.mem_of_find?_eq_some h
  exact ⟨List.mem_rotate.mp hm, List.find?_some h⟩

theorem firstFrom_eq_none {members : List α} {start : ℕ} {suitable : α → Bool} :
    firstFrom members start suitable = none ↔ ∀ member ∈ members, suitable member = false := by
  simp [firstFrom, List.find?_eq_none]

/-- Where every member suits, the first one is where the search starts. -/
theorem firstFrom_all {members : List α} {start : ℕ} {suitable : α → Bool}
    (h : ∀ member ∈ members, suitable member = true) :
    firstFrom members start suitable = (members.rotate start).head? := by
  unfold firstFrom
  cases hr : members.rotate start with
  | nil => rfl
  | cons member rest =>
    have hm : member ∈ members := by
      rw [← List.mem_rotate (n := start), hr]
      exact List.mem_cons_self
    rw [List.find?_cons_of_pos (h member hm), List.head?_cons]

variable [BEq α]

/-- The position behind the last choice, where the next search starts. -/
def turn (members choices : List α) : ℕ :=
  match choices.getLast? with
  | none => 0
  | some choice => members.idxOf choice + 1

@[simp] theorem turn_nil (members : List α) : turn members [] = 0 := rfl

@[simp] theorem turn_concat (members choices : List α) (choice : α) :
    turn members (choices ++ [choice]) = members.idxOf choice + 1 := by
  simp [turn]

/-- Every choice of a history was the first suitable one in its turn. -/
def InTurn (members : List α) (history : List (α × (α → Bool))) : Prop :=
  ∀ before choice suitable after, history = before ++ (choice, suitable) :: after →
    firstFrom members (turn members (before.map Prod.fst)) suitable = some choice

theorem inTurn_nil (members : List α) : InTurn members [] := by
  intro before choice suitable after h
  simp at h

theorem InTurn.concat {members : List α} {history : List (α × (α → Bool))} {choice : α}
    {suitable : α → Bool} (h : InTurn members history)
    (hc : firstFrom members (turn members (history.map Prod.fst)) suitable = some choice) :
    InTurn members (history ++ [(choice, suitable)]) := by
  intro before choice' suitable' after heq
  rcases List.eq_nil_or_concat after with rfl | ⟨after, last, rfl⟩
  · have hlast := List.append_inj' heq rfl
    have hpair := List.cons_eq_cons.mp hlast.2
    cases hpair.1
    rw [← hlast.1]
    exact hc
  · rw [List.concat_eq_append, ← List.cons_append, ← List.append_assoc] at heq
    exact h before choice' suitable' after (List.append_inj' heq rfl).1

theorem InTurn.head {members : List α} {before after : List (α × (α → Bool))}
    {entry : α × (α → Bool)} (h : InTurn members (before ++ entry :: after)) :
    firstFrom members (turn members (before.map Prod.fst)) entry.2 = some entry.1 :=
  h before entry.1 entry.2 after rfl

variable [LawfulBEq α]

/-- The members from behind a member on are those from that member on, less itself. -/
theorem rotate_idxOf_succ {members : List α} {start : ℕ} {member : α} {rest : List α}
    (hd : members.Nodup) (h : members.rotate start = member :: rest) :
    members.rotate (members.idxOf member + 1) = rest ++ [member] := by
  have hpos : 0 < members.length := by
    have hlen := congrArg List.length h
    rw [List.length_rotate, List.length_cons] at hlen
    omega
  have hlt := Nat.mod_lt start hpos
  have hmember : member = members[start % members.length] := by
    have hhead := congrArg List.head? h
    rw [← List.rotate_mod, List.head?_rotate hlt, List.head?_cons,
      List.getElem?_eq_getElem hlt] at hhead
    exact (Option.some.inj hhead).symm
  have hidx : members.idxOf member = start % members.length := by
    rw [hmember]
    exact hd.idxOf_getElem _ hlt
  rw [hidx, ← List.rotate_rotate, List.rotate_mod, h, List.rotate_cons_succ, List.rotate_zero]

/-- Successive choices while every member suits are successive members. -/
theorem InTurn.window {members : List α} (hd : members.Nodup)
    {before window after : List (α × (α → Bool))}
    (h : InTurn members (before ++ window ++ after)) (hlen : window.length ≤ members.length)
    (hall : ∀ entry ∈ window, ∀ member ∈ members, entry.2 member = true) :
    window.map Prod.fst =
      (members.rotate (turn members (before.map Prod.fst))).take window.length := by
  induction window generalizing before with
  | nil => simp
  | cons entry window ih =>
    have hfirst := hall entry List.mem_cons_self
    have hnext : InTurn members ((before ++ [entry]) ++ window ++ after) := by
      simpa using h
    have hrest := ih hnext (by simp at hlen; omega)
      (fun e he => hall e (List.mem_cons_of_mem _ he))
    have hchoice := (show InTurn members (before ++ entry :: (window ++ after)) by simpa using h).head
    rw [firstFrom_all hfirst] at hchoice
    obtain ⟨rest, hr⟩ := List.head?_eq_some_iff.mp hchoice
    have hlenrest : window.length ≤ rest.length := by
      have hl := congrArg List.length hr
      rw [List.length_rotate, List.length_cons] at hl
      rw [List.length_cons] at hlen
      omega
    rw [List.map_append, List.map_singleton, turn_concat, rotate_idxOf_succ hd hr,
      List.take_append_of_le_length hlenrest] at hrest
    rw [List.map_cons, hrest, hr, List.length_cons, List.take_succ_cons]

/-- One full round reaches every member once. -/
theorem InTurn.round {members : List α} (hd : members.Nodup)
    {before window after : List (α × (α → Bool))}
    (h : InTurn members (before ++ window ++ after)) (hlen : window.length = members.length)
    (hall : ∀ entry ∈ window, ∀ member ∈ members, entry.2 member = true) :
    (window.map Prod.fst).Perm members := by
  rw [h.window hd hlen.le hall, hlen]
  have hfull := List.length_rotate members (turn members (before.map Prod.fst))
  rw [List.take_of_length_le hfull.le]
  exact List.rotate_perm ..

end Cyclo.Process
