import Cyclo.Python.Text

/-! `json.dumps` with `ensure_ascii=False` and compact separators: the text determines the value. -/
namespace Cyclo.Python.Json

/-- The characters that are escaped. -/
def isEscaped (c : Char) : Bool := c.toNat < 0x20 || c = '"' || c = '\\'

def escape (c : Char) : List Char :=
  if c = '"' then ['\\', '"']
  else if c = '\\' then ['\\', '\\']
  else if c = '\n' then ['\\', 'n']
  else if c = '\r' then ['\\', 'r']
  else if c = '\t' then ['\\', 't']
  else if c.toNat = 0x0c then ['\\', 'f']
  else if c.toNat = 0x08 then ['\\', 'b']
  else if c.toNat < 0x20 then unitEscape c.toNat
  else [c]

def quoted (value : List Char) : List Char := '"' :: (value.flatMap escape ++ ['"'])

mutual

/-- The keys of dictionaries are in the order given. -/
def dumps : Json → List Char
  | .str value => quoted value.toList
  | .int value => (toString value).toList
  | .bool value => if value then "true".toList else "false".toList
  | .list [] => ['[', ']']
  | .list (value :: values) => '[' :: (dumps value ++ dumpsValues values)
  | .dict [] => ['\x7b', '\x7d']
  | .dict ((key, value) :: entries) =>
    '\x7b' :: (quoted key.toList ++ ':' :: (dumps value ++ dumpsEntries entries))

/-- The values behind the first, and the end of the list. -/
def dumpsValues : List Json → List Char
  | [] => [']']
  | value :: values => ',' :: (dumps value ++ dumpsValues values)

def dumpsEntries : List (String × Json) → List Char
  | [] => ['\x7d']
  | (key, value) :: entries =>
    ',' :: (quoted key.toList ++ ':' :: (dumps value ++ dumpsEntries entries))

end

theorem escape_of_not_isEscaped {c : Char} (h : isEscaped c = false) : escape c = [c] := by
  simp only [isEscaped, Bool.or_eq_false_iff, decide_eq_false_iff_not] at h
  have hlow : ∀ d : Char, d.toNat < 0x20 → c ≠ d := by
    intro d hd he
    rw [he] at h
    exact h.1.1 hd
  unfold escape
  rw [if_neg h.1.2, if_neg h.2, if_neg (hlow _ (by decide)), if_neg (hlow _ (by decide)),
    if_neg (hlow _ (by decide)), if_neg (by omega), if_neg (by omega), if_neg (by omega)]

/-- The escaped characters. -/
def escapedChars : List Char := '"' :: '\\' :: (List.range 0x20).map Char.ofNat

theorem mem_escapedChars {c : Char} (h : isEscaped c = true) : c ∈ escapedChars := by
  simp only [isEscaped, Bool.or_eq_true, decide_eq_true_eq] at h
  rcases h with (h | h) | h
  · refine List.mem_cons_of_mem _ (List.mem_cons_of_mem _ (List.mem_map.mpr ⟨c.toNat, ?_, ?_⟩))
    · exact List.mem_range.mpr h
    · exact Char.ofNat_toNat c
  · rw [h]
    exact List.mem_cons_self
  · rw [h]
    exact List.mem_cons_of_mem _ List.mem_cons_self

theorem escape_head {c : Char} (h : isEscaped c = true) : (escape c).head? = some '\\' := by
  have hall : ∀ c ∈ escapedChars, (escape c).head? = some '\\' := by decide +kernel
  exact hall c (mem_escapedChars h)

/-- No escape sequence is the beginning of another. -/
theorem escape_append_inj {c d : Char} {r r' : List Char} (h : escape c ++ r = escape d ++ r') :
    c = d ∧ r = r' := by
  have hcd : c = d := by
    by_cases hc : isEscaped c = true
    · have hhead := escape_head hc
      by_cases hd : isEscaped d = true
      · have hall : ∀ c ∈ escapedChars, ∀ d ∈ escapedChars, escape c <+: escape d → c = d := by
          decide +kernel
        have hp : escape c <+: escape d ++ r' := ⟨r, h⟩
        have hq : escape d <+: escape d ++ r' := List.prefix_append _ _
        rcases List.prefix_or_prefix_of_prefix hp hq with hpre | hpre
        · exact hall c (mem_escapedChars hc) d (mem_escapedChars hd) hpre
        · exact (hall d (mem_escapedChars hd) c (mem_escapedChars hc) hpre).symm
      · have hplain := escape_of_not_isEscaped (by simpa using hd)
        rw [hplain] at h
        obtain ⟨rest, hrest⟩ := List.head?_eq_some_iff.mp hhead
        rw [hrest] at h
        have he : '\\' = d := (List.cons.inj h).1
        rw [← he] at hd
        exact absurd rfl hd
    · have hplain := escape_of_not_isEscaped (by simpa using hc)
      by_cases hd : isEscaped d = true
      · obtain ⟨rest, hrest⟩ := List.head?_eq_some_iff.mp (escape_head hd)
        rw [hplain, hrest] at h
        have he : c = '\\' := (List.cons.inj h).1
        rw [he] at hc
        exact absurd rfl hc
      · rw [hplain, escape_of_not_isEscaped (by simpa using hd)] at h
        exact (List.cons.inj h).1
  rw [hcd] at h
  exact ⟨hcd, List.append_cancel_left h⟩

theorem escape_append_ne_quote (c : Char) (r r' : List Char) : escape c ++ r ≠ '"' :: r' := by
  intro h
  by_cases hc : isEscaped c = true
  · obtain ⟨rest, hrest⟩ := List.head?_eq_some_iff.mp (escape_head hc)
    rw [hrest] at h
    exact absurd (List.cons.inj h).1 (by decide)
  · rw [escape_of_not_isEscaped (by simpa using hc)] at h
    rw [(List.cons.inj h).1] at hc
    exact absurd rfl hc

theorem quoted_append_inj {s t r r' : List Char} (h : quoted s ++ r = quoted t ++ r') :
    s = t ∧ r = r' := by
  have hbody : s.flatMap escape ++ '"' :: r = t.flatMap escape ++ '"' :: r' := by
    simpa [quoted] using h
  clear h
  induction s generalizing t with
  | nil =>
    cases t with
    | nil => exact ⟨rfl, (List.cons.inj hbody).2⟩
    | cons d t =>
      rw [List.flatMap_cons, List.append_assoc] at hbody
      exact absurd hbody.symm (escape_append_ne_quote d _ _)
  | cons c s ih =>
    rw [List.flatMap_cons, List.append_assoc] at hbody
    cases t with
    | nil => exact absurd hbody (escape_append_ne_quote c _ _)
    | cons d t =>
      rw [List.flatMap_cons, List.append_assoc] at hbody
      obtain ⟨hcd, hrest⟩ := escape_append_inj hbody
      obtain ⟨hst, hr⟩ := ih hrest
      exact ⟨by rw [hcd, hst], hr⟩

/-- What follows a value does not continue a number. -/
def Delimited (r : List Char) : Prop := ∀ c ∈ r.head?, c.isDigit = false

theorem delimited_nil : Delimited [] := nofun

theorem delimited_cons {c : Char} (h : c.isDigit = false) (r : List Char) : Delimited (c :: r) := by
  intro d hd
  cases hd
  exact h

theorem takeWhile_digits (n : ℕ) {r : List Char} (hr : Delimited r) :
    (Nat.toDigits 10 n ++ r).takeWhile Char.isDigit = Nat.toDigits 10 n := by
  have hdigits : ∀ c ∈ Nat.toDigits 10 n, c.isDigit = true :=
    fun c hc => Nat.isDigit_of_mem_toDigits (by decide) (by decide) hc
  have hnone : r.takeWhile Char.isDigit = [] := by
    cases r with
    | nil => rfl
    | cons c r =>
      have hc := hr c rfl
      simp [hc]
  rw [List.takeWhile_append_of_pos hdigits, hnone, List.append_nil]

theorem digits_append_inj {m n : ℕ} {r r' : List Char} (hr : Delimited r) (hr' : Delimited r')
    (h : Nat.toDigits 10 m ++ r = Nat.toDigits 10 n ++ r') : m = n ∧ r = r' := by
  have hdigits : Nat.toDigits 10 m = Nat.toDigits 10 n := by
    rw [← takeWhile_digits m hr, h, takeWhile_digits n hr']
  rw [hdigits] at h
  have hvalue := congrArg (fun digits => Nat.ofDigitChars 10 digits 0) hdigits
  simp only [Nat.ofDigitChars_ten_toDigits] at hvalue
  exact ⟨hvalue, List.append_cancel_left h⟩

theorem int_text (n : ℤ) : (toString n).toList =
    if 0 ≤ n then Nat.toDigits 10 n.toNat else '-' :: Nat.toDigits 10 (-n).toNat := by
  rw [Int.toString_eq_repr, Int.repr_eq_if]
  split_ifs
  · exact Nat.toList_repr
  · rw [String.toList_append, Nat.toList_repr]
    rfl

theorem minus_not_digit {n : ℕ} {r : List Char} (hr : Delimited r) (r' : List Char) :
    Nat.toDigits 10 n ++ r ≠ '-' :: r' := by
  intro h
  have htake := takeWhile_digits n hr
  rw [h] at htake
  have hnil : Nat.toDigits 10 n = [] := by simpa using htake.symm
  exact Nat.toDigits_ne_nil hnil

theorem int_append_inj {m n : ℤ} {r r' : List Char} (hr : Delimited r) (hr' : Delimited r')
    (h : (toString m).toList ++ r = (toString n).toList ++ r') : m = n ∧ r = r' := by
  rw [int_text, int_text] at h
  split_ifs at h with hm hn hn
  · obtain ⟨hmn, hrest⟩ := digits_append_inj hr hr' h
    exact ⟨by omega, hrest⟩
  · exact absurd h (minus_not_digit hr _)
  · exact absurd h.symm (minus_not_digit hr' _)
  · obtain ⟨hmn, hrest⟩ := digits_append_inj hr hr' (List.cons.inj h).2
    exact ⟨by omega, hrest⟩

/-- The kinds of values, and the kind that a text begins like. -/
def kind : Json → ℕ
  | .str _ => 0
  | .int _ => 1
  | .bool _ => 2
  | .list _ => 3
  | .dict _ => 4

def kindOfChar (c : Char) : ℕ :=
  if c = '"' then 0
  else if c.isDigit || c = '-' then 1
  else if c = 't' || c = 'f' then 2
  else if c = '[' then 3
  else if c = '\x7b' then 4
  else 5

theorem kind_dumps (v : Json) : (dumps v).head?.map kindOfChar = some (kind v) := by
  cases v with
  | str value => simp [dumps, quoted, kind, kindOfChar]
  | bool value => cases value <;> simp only [dumps, kind] <;> decide
  | list values => cases values <;> simp only [dumps, kind, List.head?_cons] <;> decide
  | dict entries => cases entries <;> simp only [dumps, kind, List.head?_cons] <;> decide
  | int n =>
    have hdigit : ∀ n : ℕ, (Nat.toDigits 10 n).head?.map kindOfChar = some 1 := by
      intro n
      obtain ⟨c, rest, hc⟩ := List.exists_cons_of_ne_nil (Nat.toDigits_ne_nil (n := n) (b := 10))
      have hc' := Nat.isDigit_of_mem_toDigits (by decide) (by decide)
        (hc ▸ List.mem_cons_self : c ∈ Nat.toDigits 10 n)
      have hne : c ≠ '"' := fun he => absurd (he ▸ hc') (by decide)
      rw [hc, List.head?_cons, Option.map_some, kindOfChar, if_neg hne, if_pos (by simp [hc'])]
    rw [dumps, int_text]
    split_ifs
    · exact hdigit _
    · rfl

theorem kind_eq_of_append {v w : Json} {r r' : List Char} (h : dumps v ++ r = dumps w ++ r') :
    kind v = kind w := by
  have hhead : ∀ (v : Json) (r : List Char), (dumps v ++ r).head? = (dumps v).head? := by
    intro v r
    have hk := kind_dumps v
    cases hd : dumps v with
    | nil => simp [hd] at hk
    | cons c rest => rfl
  have hk := kind_dumps v
  rw [← hhead v r, h, hhead w r', kind_dumps w] at hk
  exact (Option.some.inj hk).symm

theorem dumps_append_ne_bracket (v : Json) (r r' : List Char) : dumps v ++ r ≠ ']' :: r' := by
  intro h
  have hk := kind_dumps v
  cases hd : dumps v with
  | nil => simp [hd] at hk
  | cons c rest =>
    rw [hd] at h hk
    have hc : c = ']' := (List.cons.inj h).1
    rw [hc] at hk
    have hfive : kind v = 5 := (Option.some.inj hk).symm
    cases v <;> simp [kind] at hfive

theorem delimited_values (values : List Json) (r : List Char) :
    Delimited (dumpsValues values ++ r) := by
  cases values <;> exact delimited_cons (by decide) _

theorem delimited_entries (entries : List (String × Json)) (r : List Char) :
    Delimited (dumpsEntries entries ++ r) := by
  cases entries with
  | nil => exact delimited_cons (by decide) _
  | cons entry entries => exact delimited_cons (by decide) _

mutual

/-- A value can be read off the beginning of a text in one way only. -/
theorem dumps_append_inj : ∀ (v w : Json) (r r' : List Char), Delimited r → Delimited r' →
    dumps v ++ r = dumps w ++ r' → v = w ∧ r = r'
  | .str s, w, r, r', _, _, h => by
    have hk := kind_eq_of_append h
    cases w <;> simp [kind] at hk
    rw [dumps, dumps] at h
    obtain ⟨hs, hr⟩ := quoted_append_inj h
    exact ⟨by rw [String.toList_inj.mp hs], hr⟩
  | .int m, w, r, r', hr, hr', h => by
    have hk := kind_eq_of_append h
    cases w <;> simp [kind] at hk
    rw [dumps, dumps] at h
    obtain ⟨hmn, hrest⟩ := int_append_inj hr hr' h
    exact ⟨by rw [hmn], hrest⟩
  | .bool b, w, r, r', _, _, h => by
    have hk := kind_eq_of_append h
    cases w <;> simp [kind] at hk
    rename_i b'
    cases b <;> cases b' <;> simp [dumps] at h ⊢ <;> exact h
  | .list [], w, r, r', _, _, h => by
    have hk := kind_eq_of_append h
    cases w <;> simp [kind] at hk
    rename_i values
    cases values with
    | nil => exact ⟨rfl, List.append_cancel_left h⟩
    | cons v values =>
      simp only [dumps, List.cons_append, List.append_assoc] at h
      exact absurd (List.cons.inj h).2.symm (dumps_append_ne_bracket v _ _)
  | .list (v :: vs), w, r, r', _, _, h => by
    have hk := kind_eq_of_append h
    cases w <;> simp [kind] at hk
    rename_i values
    cases values with
    | nil =>
      simp only [dumps, List.cons_append, List.append_assoc] at h
      exact absurd (List.cons.inj h).2 (dumps_append_ne_bracket v _ _)
    | cons w ws =>
      rw [dumps, dumps, List.cons_append, List.cons_append, List.append_assoc,
        List.append_assoc] at h
      obtain ⟨hvw, hrest⟩ := dumps_append_inj v w _ _ (delimited_values vs r)
        (delimited_values ws r') (List.cons.inj h).2
      obtain ⟨hvs, hr⟩ := dumpsValues_append_inj vs ws r r' hrest
      exact ⟨by rw [hvw, hvs], hr⟩
  | .dict [], w, r, r', _, _, h => by
    have hk := kind_eq_of_append h
    cases w <;> simp [kind] at hk
    rename_i entries
    cases entries with
    | nil => exact ⟨rfl, List.append_cancel_left h⟩
    | cons entry entries =>
      rw [dumps, dumps] at h
      exact absurd (List.cons.inj (List.cons.inj h).2).1 (by decide)
  | .dict ((k, v) :: es), w, r, r', _, _, h => by
    have hk := kind_eq_of_append h
    cases w <;> simp [kind] at hk
    rename_i entries
    cases entries with
    | nil =>
      rw [dumps, dumps] at h
      exact absurd (List.cons.inj (List.cons.inj h).2).1 (by decide)
    | cons entry es' =>
      obtain ⟨k', w⟩ := entry
      rw [dumps, dumps, List.cons_append, List.cons_append, List.append_assoc, List.append_assoc,
        List.cons_append, List.cons_append, List.append_assoc, List.append_assoc] at h
      obtain ⟨hkk, hrest⟩ := quoted_append_inj (List.cons.inj h).2
      obtain ⟨hvw, hrest⟩ := dumps_append_inj v w _ _ (delimited_entries es r)
        (delimited_entries es' r') (List.cons.inj hrest).2
      obtain ⟨hes, hr⟩ := dumpsEntries_append_inj es es' r r' hrest
      exact ⟨by rw [String.toList_inj.mp hkk, hvw, hes], hr⟩

theorem dumpsValues_append_inj : ∀ (vs ws : List Json) (r r' : List Char),
    dumpsValues vs ++ r = dumpsValues ws ++ r' → vs = ws ∧ r = r'
  | [], [], r, r', h => ⟨rfl, List.append_cancel_left h⟩
  | [], _ :: _, _, _, h => by
    rw [dumpsValues, dumpsValues] at h
    exact absurd (List.cons.inj h).1 (by decide)
  | _ :: _, [], _, _, h => by
    rw [dumpsValues, dumpsValues] at h
    exact absurd (List.cons.inj h).1 (by decide)
  | v :: vs, w :: ws, r, r', h => by
    rw [dumpsValues, dumpsValues, List.cons_append, List.cons_append, List.append_assoc,
      List.append_assoc] at h
    obtain ⟨hvw, hrest⟩ := dumps_append_inj v w _ _ (delimited_values vs r)
      (delimited_values ws r') (List.cons.inj h).2
    obtain ⟨hvs, hr⟩ := dumpsValues_append_inj vs ws r r' hrest
    exact ⟨by rw [hvw, hvs], hr⟩

theorem dumpsEntries_append_inj : ∀ (es es' : List (String × Json)) (r r' : List Char),
    dumpsEntries es ++ r = dumpsEntries es' ++ r' → es = es' ∧ r = r'
  | [], [], r, r', h => ⟨rfl, List.append_cancel_left h⟩
  | [], (_, _) :: _, _, _, h => by
    rw [dumpsEntries, dumpsEntries] at h
    exact absurd (List.cons.inj h).1 (by decide)
  | (_, _) :: _, [], _, _, h => by
    rw [dumpsEntries, dumpsEntries] at h
    exact absurd (List.cons.inj h).1 (by decide)
  | (k, v) :: es, (k', w) :: es', r, r', h => by
    rw [dumpsEntries, dumpsEntries, List.cons_append, List.cons_append, List.append_assoc,
      List.append_assoc, List.cons_append, List.cons_append, List.append_assoc,
      List.append_assoc] at h
    obtain ⟨hkk, hrest⟩ := quoted_append_inj (List.cons.inj h).2
    obtain ⟨hvw, hrest⟩ := dumps_append_inj v w _ _ (delimited_entries es r)
      (delimited_entries es' r') (List.cons.inj hrest).2
    obtain ⟨hes, hr⟩ := dumpsEntries_append_inj es es' r r' hrest
    exact ⟨by rw [String.toList_inj.mp hkk, hvw, hes], hr⟩

end

theorem dumps_injective {v w : Json} (h : dumps v = dumps w) : v = w := by
  have happend : dumps v ++ [] = dumps w ++ [] := by rw [h]
  exact (dumps_append_inj v w [] [] delimited_nil delimited_nil happend).1

end Cyclo.Python.Json
