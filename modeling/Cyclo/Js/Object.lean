import Cyclo.Js.RoundTrip

/-! Assignment, deletion and spreading of the properties of objects, by the lookups that follow. -/
namespace Cyclo.Js.Json

/-- `CreateDataProperty`, of values of any kind. -/
def define {β : Type} (object : List (Str × β)) (property : Str × β) : List (Str × β) :=
  if property.1 ∈ object.map Prod.fst then object.map fun e => if e.1 = property.1 then property else e
  else object ++ [property]

/-- `object[name] = value`. -/
def assign (object : List (Str × Json)) (name : Str) (value : Json) : List (Str × Json) :=
  ownProperties (object ++ [(name, value)])

/-- `delete object[name]`. -/
def remove (object : List (Str × Json)) (name : Str) : List (Str × Json) :=
  object.filter fun e => e.1 ≠ name

/-- `{ ...object, ...properties }` as it is written to a file: without the undefined properties. -/
def spread (object : List (Str × Json)) (properties : List (Str × Option Json)) : List (Str × Json) :=
  let all := properties.foldl define (object.map fun e => (e.1, some e.2))
  ownProperties (all.filterMap fun e => e.2.map (e.1, ·))

def truthy : Option Json → Bool
  | none | some .null => false
  | some (.bool b) => b
  | some (.num n) => decide (n ≠ .nan) && !(n.isFinite && decide (n.value = 0))
  | some (.str s) => decide (s ≠ [])
  | some (.arr _) => true
  | some (.obj _) => true

section
variable {β : Type} {object : List (Str × β)} {name other : Str}

theorem lookup_cons_ite (e : Str × β) (rest : List (Str × β)) :
    (e :: rest).lookup name = if name = e.1 then some e.2 else rest.lookup name := by
  obtain ⟨key, value⟩ := e
  rw [List.lookup_cons]
  split_ifs with h
  · rw [h, beq_self_eq_true]
  · rw [beq_false_of_ne h]

theorem lookup_define (object : List (Str × β)) (property : Str × β) :
    (define object property).lookup name = if name = property.1 then some property.2
      else object.lookup name := by
  unfold define
  split_ifs with hmem hname hname
  · rw [hname]
    induction object with
    | nil => cases hmem
    | cons e rest ih =>
      rw [List.map_cons, lookup_cons_ite]
      by_cases he : e.1 = property.1
      · rw [if_pos he, if_pos rfl]
      · rw [if_neg he, if_neg (Ne.symm he)]
        exact ih ((List.mem_cons.mp hmem).resolve_left (Ne.symm he))
  · clear hmem
    induction object with
    | nil => rfl
    | cons e rest ih =>
      rw [List.map_cons, lookup_cons_ite, lookup_cons_ite, ih]
      by_cases he : e.1 = property.1
      · rw [if_pos he, if_neg hname, he, if_neg hname]
      · rw [if_neg he]
  · rw [List.lookup_append, List.lookup_eq_none_iff.mpr, lookup_cons_ite, if_pos hname]
    · rfl
    · intro e he
      rw [hname, bne_iff_ne]
      intro hsame
      rw [hsame] at hmem
      exact hmem (List.mem_map_of_mem he)
  · rw [List.lookup_append, lookup_cons_ite, if_neg hname]
    exact Option.or_none

theorem keys_define (object : List (Str × β)) (property : Str × β) :
    (define object property).map Prod.fst =
    if property.1 ∈ object.map Prod.fst then object.map Prod.fst else object.map Prod.fst ++
      [property.1] := by
  unfold define
  split_ifs with hmem
  · rw [List.map_map]
    refine List.map_congr_left fun e _ => ?_
    dsimp only [Function.comp]
    split_ifs with hsame
    · exact hsame.symm
    · rfl
  · rw [List.map_append, List.map_singleton]

theorem nodup_define {property : Str × β} (h : (object.map Prod.fst).Nodup) :
    ((define object property).map Prod.fst).Nodup := by
  rw [keys_define]
  split_ifs with hmem
  · exact h
  · exact List.nodup_append.mpr ⟨h, List.nodup_singleton _, fun key hkey other hother hsame =>
      hmem (by rwa [← List.mem_singleton.mp hother, ← hsame])⟩

theorem nodup_foldl_define (properties : List (Str × β)) (h : (object.map Prod.fst).Nodup) :
    ((properties.foldl define object).map Prod.fst).Nodup := by
  induction properties generalizing object with
  | nil => exact h
  | cons property rest ih => exact ih (nodup_define h)

/-- Under distinct names a lookup finds every property. -/
theorem lookup_eq_some_iff_mem (h : (object.map Prod.fst).Nodup) {value : β} :
    object.lookup name = some value ↔ (name, value) ∈ object := by
  induction object with
  | nil => exact iff_of_false (fun h => by cases h) (fun h => by cases h)
  | cons e rest ih =>
    rw [List.map_cons, List.nodup_cons] at h
    rw [lookup_cons_ite, List.mem_cons, ← ih h.2]
    split_ifs with hname
    · constructor
      · intro hvalue
        cases hvalue
        left
        rw [hname]
      · intro hcase
        rcases hcase with hsame | hrest
        · rw [← hsame]
        · rw [ih h.2, hname] at hrest
          exact (h.1 (List.mem_map.mpr ⟨_, hrest, rfl⟩)).elim
    · constructor
      · exact Or.inr
      · intro hcase
        refine hcase.resolve_left fun hsame => hname ?_
        rw [← hsame]

theorem lookup_perm {l l' : List (Str × β)} (h : (l.map Prod.fst).Nodup) (hperm : l.Perm l') :
    l.lookup name = l'.lookup name := by
  have h' : (l'.map Prod.fst).Nodup := (hperm.map Prod.fst).nodup_iff.mp h
  refine Option.ext fun value => ?_
  rw [lookup_eq_some_iff_mem h, lookup_eq_some_iff_mem h', hperm.mem_iff]

end

variable {object : List (Str × Json)} {name other : Str} {value : Json}

theorem lookup_ownProperties (members : List (Str × Json)) :
    (ownProperties members).lookup name = (members.foldl defineProperty []).lookup name :=
  lookup_perm (nodup_ownProperties members) (ownProperties_perm members)

/-- Properties under distinct names are those that are looked up. -/
theorem lookup_ownProperties_of_nodup (h : (object.map Prod.fst).Nodup) :
    (ownProperties object).lookup name = object.lookup name := by
  have hfold : object.foldl defineProperty [] = object := foldl_defineProperty h
  rw [lookup_ownProperties, hfold]

theorem lookup_assign (h : (object.map Prod.fst).Nodup) :
    (assign object name value).lookup other = if other = name then some value
      else object.lookup other := by
  have hfold : object.foldl defineProperty [] = object := foldl_defineProperty h
  have hdefine : defineProperty object (name, value) = define object (name, value) := rfl
  unfold assign
  rw [lookup_ownProperties, List.foldl_append, hfold, List.foldl_cons, List.foldl_nil,
    hdefine, lookup_define]

theorem nodup_assign (object : List (Str × Json)) (name : Str) (value : Json) :
    ((assign object name value).map Prod.fst).Nodup := nodup_ownProperties _

theorem mem_assign {e : Str × Json} (h : e ∈ assign object name value) :
    e ∈ object ∨ e = (name, value) := by
  have hmem := mem_ownProperties h
  rwa [List.mem_append, List.mem_singleton] at hmem

theorem lookup_remove (object : List (Str × Json)) :
    (remove object name).lookup other = if other = name then none else object.lookup other := by
  unfold remove
  induction object with
  | nil => split_ifs <;> rfl
  | cons e rest ih =>
    rw [List.filter_cons, lookup_cons_ite]
    by_cases he : e.1 = name
    · rw [if_neg (by simpa using he), ih, he]
      split_ifs <;> rfl
    · rw [if_pos (by simpa using he), lookup_cons_ite, ih]
      by_cases hother : other = name
      · rw [if_pos hother, if_neg (fun hsame => he (hsame.symm.trans hother)), if_pos hother]
      · rw [if_neg hother, if_neg hother]

theorem nodup_remove (h : (object.map Prod.fst).Nodup) : ((remove object name).map Prod.fst).Nodup :=
  h.sublist (List.filter_sublist.map Prod.fst)

theorem nodup_spread (object : List (Str × Json)) (properties : List (Str × Option Json)) :
    ((spread object properties).map Prod.fst).Nodup := nodup_ownProperties _

/-- The last property of a name is the one that is found. -/
theorem lookup_spread (h : (object.map Prod.fst).Nodup) (before : List (Str × Option Json))
    {after : List (Str × Option Json)} (hafter : ∀ e ∈ after, e.1 ≠ name) :
    (spread object (before ++ (name, some value) :: after)).lookup name = some value := by
  have hsome : ((object.map fun e => (e.1, some e.2)).map Prod.fst).Nodup := by
    rw [List.map_map]
    exact h
  have hall := nodup_foldl_define (before ++ (name, some value) :: after) hsome
  have hfound : ((before ++ (name, some value) :: after).foldl define
      (object.map fun e => (e.1, some e.2))).lookup name = some (some value) := by
    rw [List.foldl_append, List.foldl_cons]
    generalize before.foldl define (object.map fun e => (e.1, some e.2)) = first
    have hkept : ∀ (l : List (Str × Option Json)) (acc : List (Str × Option Json)),
        (∀ e ∈ l, e.1 ≠ name) → (l.foldl define acc).lookup name = acc.lookup name := by
      intro l
      induction l with
      | nil => exact fun _ _ => rfl
      | cons e rest ih =>
        intro acc hl
        obtain ⟨he, hrest⟩ := List.forall_mem_cons.mp hl
        rw [List.foldl_cons, ih _ hrest, lookup_define, if_neg (Ne.symm he)]
    rw [hkept after _ hafter, lookup_define, if_pos rfl]
  unfold spread
  dsimp only
  generalize (before ++ (name, some value) :: after).foldl define
    (object.map fun e => (e.1, some e.2)) = all at hall hfound
  have hkeys : ((all.filterMap fun e => e.2.map (e.1, ·)).map Prod.fst).Sublist
      (all.map Prod.fst) := by
    clear hall hfound
    induction all with
    | nil => exact List.Sublist.refl _
    | cons e rest ih =>
      obtain ⟨key, found⟩ := e
      cases found with
      | none => exact ih.cons _
      | some v => exact ih.cons_cons _
  have hnodup := hall.sublist hkeys
  rw [lookup_ownProperties_of_nodup hnodup, lookup_eq_some_iff_mem hnodup, List.mem_filterMap]
  exact ⟨(name, some value), (lookup_eq_some_iff_mem hall).mp hfound, rfl⟩

theorem lookup_wireEntries (object : List (Str × Json)) :
    (wireEntries object).lookup name = (object.lookup name).map wire := by
  induction object with
  | nil => rfl
  | cons e rest ih =>
    obtain ⟨key, v⟩ := e
    rw [wireEntries, lookup_cons_ite, lookup_cons_ite, ih]
    split_ifs <;> rfl

theorem wireEntries_eq_map (object : List (Str × Json)) :
    wireEntries object = object.map fun e => (e.1, e.2.wire) := by
  induction object with
  | nil => rfl
  | cons e rest ih =>
    obtain ⟨key, v⟩ := e
    rw [wireEntries, ih, List.map_cons]

theorem keys_wireEntries (object : List (Str × Json)) :
    (wireEntries object).map Prod.fst = object.map Prod.fst := by
  rw [wireEntries_eq_map, List.map_map]
  rfl

end Cyclo.Js.Json
