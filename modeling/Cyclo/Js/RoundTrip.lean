import Cyclo.Js.NumberText

/-! `JSON.parse` undoes `JSON.stringify` on what it builds, unless a number is a negative zero or
none that JSON has. -/
namespace Cyclo.Js.Json
open Str

mutual

/-- What `JSON.parse` builds: numbers are binary64, and objects list their properties in order. -/
def Proper : Json → Prop
  | .num n => n.IsDouble
  | .arr items => ProperItems items
  | .obj entries => ownProperties entries = entries ∧ ProperEntries entries
  | _ => True

def ProperItems : List Json → Prop
  | [] => True
  | value :: values => value.Proper ∧ ProperItems values

def ProperEntries : List (Str × Json) → Prop
  | [] => True
  | (_, value) :: entries => value.Proper ∧ ProperEntries entries

end

mutual

/-- No number is NaN, infinite or a negative zero. -/
def plain : Json → Bool
  | .num n => n.plain
  | .arr items => plainItems items
  | .obj entries => plainEntries entries
  | _ => true

def plainItems : List Json → Bool
  | [] => true
  | value :: values => value.plain && plainItems values

def plainEntries : List (Str × Json) → Bool
  | [] => true
  | (_, value) :: entries => value.plain && plainEntries entries

end

/-- A unit that a value can start with. -/
def Starts (c : CodeUnit) : Prop := isJsonSpace c = false ∧ c ≠ 0x5d

theorem numberText_head {n : Number} (hdouble : n.IsDouble) (hplain : n.plain = true) :
    ∃ c rest, n.text = c :: rest ∧ (isDigit c = true ∨ c = 0x2d) := by
  cases n with
  | nan => cases hplain
  | infinite negative => cases hplain
  | negativeZero => cases hplain
  | finite q =>
    unfold Number.text
    dsimp only
    split_ifs with hzero hnegative
    · exact ⟨0x30, [], by decide, Or.inl rfl⟩
    · exact ⟨0x2d, _, rfl, Or.inr rfl⟩
    · have hpos : 0 < q := lt_of_le_of_ne (not_lt.mp hnegative) (Ne.symm hzero)
      obtain ⟨c, rest, htext, hdigit⟩ := positiveText_digit hpos hdouble.1
      exact ⟨c, rest, htext, Or.inl hdigit⟩

theorem numberUnit_space {c : CodeUnit} (hc : isDigit c = true ∨ c = 0x2d) :
    isJsonSpace c = false := by
  refine Bool.eq_false_iff.mpr fun hspace => ?_
  unfold isJsonSpace at hspace
  rw [Bool.or_eq_true, Bool.or_eq_true, Bool.or_eq_true, decide_eq_true_iff, decide_eq_true_iff,
    decide_eq_true_iff, decide_eq_true_iff] at hspace
  rcases hspace with ((rfl | rfl) | rfl) | rfl <;> rcases hc with hc | hc <;> cases hc

/-- The first unit of a number starts no other kind of value. -/
theorem parseValue_number {fuel : ℕ} {c : CodeUnit} {t : Str} (hc : isDigit c = true ∨ c = 0x2d) :
    parseValue (fuel + 1) (c :: t) =
      (parseNumber (c :: t)).map fun (value, rest) => (.num value, rest) := by
  have hother : ∀ d : CodeUnit, isDigit d = false → d ≠ 0x2d → c ≠ d := by
    rintro d hdigit hminus rfl
    rcases hc with h | h
    · rw [hdigit] at h
      cases h
    · exact hminus h
  have hspace : skipSpace (c :: t) = c :: t := by
    simp [skipSpace, numberUnit_space hc]
  have hliteral : ∀ (d : CodeUnit) (l : Str), isDigit d = false → d ≠ 0x2d →
      Str.startsWith (c :: t) (d :: l) = false := by
    intro d l hd hminus
    have hne : (d == c) = false := by simpa using fun he => hother d hd hminus he.symm
    simp [Str.startsWith, List.isPrefixOf, hne]
  rw [parseValue, hspace]
  dsimp only
  rw [if_neg (hother 0x7b rfl (by decide)), if_neg (hother 0x5b rfl (by decide)),
    if_neg (hother 0x22 rfl (by decide)),
    if_neg (by rw [show lit "null" = 0x6e ::
      lit "ull" by decide, hliteral _ _ rfl (by decide)]; exact Bool.false_ne_true),
    if_neg (by rw [show lit "true" = 0x74 ::
      lit "rue" by decide, hliteral _ _ rfl (by decide)]; exact Bool.false_ne_true),
    if_neg (by rw [show lit "false" = 0x66 ::
      lit "alse" by decide, hliteral _ _ rfl (by decide)]; exact Bool.false_ne_true)]

theorem stringify_num {n : Number} (hplain : n.plain = true) : (Json.num n).stringify = n.text := by
  unfold stringify
  cases n with
  | finite q => rfl
  | nan => cases hplain
  | infinite negative => cases hplain
  | negativeZero => cases hplain

theorem stringify_head {v : Json} (hproper : v.Proper) (hplain : v.plain = true) :
    ∃ c rest, v.stringify = c :: rest ∧ Starts c := by
  cases v with
  | null => exact ⟨0x6e, lit "ull", by decide, by decide, by decide⟩
  | bool b =>
    cases b with
    | true => exact ⟨0x74, lit "rue", by decide, by decide, by decide⟩
    | false => exact ⟨0x66, lit "alse", by decide, by decide, by decide⟩
  | num n =>
    obtain ⟨c, rest, htext, hc⟩ := numberText_head hproper hplain
    refine ⟨c, rest, by rw [stringify_num hplain, htext], numberUnit_space hc, ?_⟩
    rintro rfl
    rcases hc with hc | hc
    · cases hc
    · cases hc
  | str s => exact ⟨0x22, _, rfl, by decide, by decide⟩
  | arr items => exact ⟨0x5b, _, rfl, by decide, by decide⟩
  | obj entries => exact ⟨0x7b, _, rfl, by decide, by decide⟩

/-- Any fuel above the length of the text of a value reads it. -/
def ReadsBack (v : Json) : Prop :=
  ∀ fuel rest, v.stringify.length < fuel → EndsNumber rest →
    parseValue fuel (v.stringify ++ rest) = some (v, rest)

theorem endsNumber_cons {c : CodeUnit} (rest : Str)
    (h : isDigit c = false ∧ c ≠ 0x2e ∧ c ≠ 0x65 ∧ c ≠ 0x45) : EndsNumber (c :: rest) := by
  intro d hd
  cases hd
  exact h

/-- The items of an array and its bracket, read with one more unit of fuel than their text is long. -/
theorem parseItems_joined {values : List Json} (hvalues : ∀ v ∈ values, ReadsBack v)
    (hne : values ≠ []) (rest : Str) {fuel : ℕ}
    (hfuel : (joined [0x2c] (stringifyItems values)).length + 1 < fuel) :
    parseItems fuel (joined [0x2c] (stringifyItems values) ++ 0x5d :: rest) = some (values, rest) := by
  induction values generalizing fuel with
  | nil => exact absurd rfl hne
  | cons v values ih =>
    obtain ⟨hv, hvalues⟩ := List.forall_mem_cons.mp hvalues
    obtain ⟨fuel, rfl⟩ := Nat.exists_eq_add_of_le' (show 1 ≤ fuel by omega)
    cases values with
    | nil =>
      have htext : joined [0x2c] (stringifyItems [v]) = v.stringify := rfl
      rw [htext] at hfuel ⊢
      have hread := hv fuel (0x5d :: rest) (by omega) (endsNumber_cons _ (by decide))
      rw [parseItems, hread]
      rfl
    | cons w values =>
      have htext : joined [0x2c] (stringifyItems (v :: w :: values)) =
          v.stringify ++ [0x2c] ++ joined [0x2c] (stringifyItems (w :: values)) := rfl
      rw [htext] at hfuel ⊢
      rw [List.length_append, List.length_append, List.length_singleton] at hfuel
      have hread := hv fuel (0x2c :: (joined [0x2c] (stringifyItems (w :: values)) ++ 0x5d :: rest))
        (by omega) (endsNumber_cons _ (by decide))
      have hrest : parseItems fuel (joined [0x2c] (stringifyItems (w :: values)) ++ 0x5d :: rest) =
          some (w :: values, rest) := ih hvalues (List.cons_ne_nil _ _) (by omega)
      rw [List.append_assoc, List.append_assoc, List.singleton_append, parseItems, hread]
      dsimp only
      rw [expect_cons _ (by decide), if_pos rfl]
      dsimp only
      rw [hrest]
      rfl

theorem objectText_append (members : List (Str × Str)) (rest : Str) :
    objectText members ++ rest = 0x7b :: (membersText members ++ 0x7d :: rest) := by
  unfold objectText
  rw [List.cons_append, List.cons_append, List.append_assoc]
  rfl

theorem quote_length (s : Str) : 2 ≤ (quote s).length := by
  unfold quote
  rw [List.length_append, List.length_cons, List.length_singleton]
  omega

/-- The members of an object and its brace. -/
theorem parseMembers_stringify {entries : List (Str × Json)} (hentries : ∀ e ∈ entries, ReadsBack e.2)
    (hne : entries ≠ []) (rest : Str) {fuel : ℕ}
    (hfuel : (membersText (stringifyEntries entries)).length < fuel) :
    parseMembers fuel (membersText (stringifyEntries entries) ++ 0x7d :: rest) =
      some (entries, rest) := by
  induction entries generalizing fuel with
  | nil => exact absurd rfl hne
  | cons e entries ih =>
    obtain ⟨key, v⟩ := e
    obtain ⟨hv, hentries⟩ := List.forall_mem_cons.mp hentries
    dsimp only at hv
    obtain ⟨fuel, rfl⟩ := Nat.exists_eq_add_of_le' (show 1 ≤ fuel by omega)
    have hkey := quote_length key
    cases entries with
    | nil =>
      have htext : membersText (stringifyEntries [(key, v)]) = quote key ++ 0x3a :: v.stringify := rfl
      rw [htext] at hfuel ⊢
      rw [List.length_append, List.length_cons] at hfuel
      have hread := hv fuel (0x7d :: rest) (by omega) (endsNumber_cons _ (by decide))
      rw [List.append_assoc, List.cons_append, parseMembers, parseKey_quote]
      dsimp only
      rw [hread]
      rfl
    | cons e entries =>
      have htext : membersText (stringifyEntries ((key, v) :: e :: entries)) =
          quote key ++ 0x3a :: v.stringify ++
          0x2c :: membersText (stringifyEntries (e :: entries)) := rfl
      rw [htext] at hfuel ⊢
      rw [List.length_append, List.length_append, List.length_cons, List.length_cons] at hfuel
      have hread := hv fuel (0x2c :: (membersText (stringifyEntries (e :: entries)) ++
        0x7d :: rest)) (by omega) (endsNumber_cons _ (by decide))
      have hrest : parseMembers fuel (membersText (stringifyEntries (e :: entries)) ++ 0x7d :: rest) =
          some (e :: entries, rest) := ih hentries (List.cons_ne_nil _ _) (by omega)
      rw [List.append_assoc, List.append_assoc, List.cons_append, List.cons_append, parseMembers,
        parseKey_quote]
      dsimp only
      rw [hread]
      dsimp only
      rw [expect_cons _ (by decide), if_pos rfl]
      dsimp only
      rw [hrest]
      rfl

theorem readsBack_literal {name : String} {v : Json} (htext : v.stringify = lit name)
    (hread : ∀ fuel rest, parseValue (fuel + 1) (lit name ++ rest) = some (v, rest)) :
    ReadsBack v := by
  intro fuel rest hfuel _
  obtain ⟨fuel, rfl⟩ := Nat.exists_eq_add_of_le' (show 1 ≤ fuel by omega)
  rw [htext]
  exact hread fuel rest

theorem readsBack_num {n : Number} (hdouble : n.IsDouble) (hplain : n.plain = true) :
    ReadsBack (.num n) := by
  intro fuel rest hfuel hrest
  obtain ⟨fuel, rfl⟩ := Nat.exists_eq_add_of_le' (show 1 ≤ fuel by omega)
  obtain ⟨c, t, htext, hc⟩ := numberText_head hdouble hplain
  have hread := parseNumber_text hdouble hplain hrest
  rw [stringify_num hplain]
  rw [htext, List.cons_append] at hread ⊢
  rw [parseValue_number hc, hread]
  rfl

theorem readsBack_str (s : Str) : ReadsBack (.str s) := by
  intro fuel rest hfuel _
  obtain ⟨fuel, rfl⟩ := Nat.exists_eq_add_of_le' (show 1 ≤ fuel by omega)
  exact parseValue_quote fuel s rest

theorem expect_of_starts {c d : CodeUnit} (s : Str) (hc : Starts c) (hne : c ≠ d) :
    expect d (c :: s) = none := by
  rw [expect_cons _ hc.1, if_neg hne]

theorem readsBack_arr {items : List Json} (hproper : ProperItems items)
    (hplain : plainItems items = true)
    (hitems : ∀ v ∈ items, ReadsBack v) : ReadsBack (.arr items) := by
  intro fuel rest hfuel hrest
  obtain ⟨fuel, rfl⟩ := Nat.exists_eq_add_of_le' (show 1 ≤ fuel by omega)
  have htext : (Json.arr items).stringify ++ rest =
      0x5b :: (joined [0x2c] (stringifyItems items) ++ 0x5d :: rest) := by
    show 0x5b :: joined [0x2c] (stringifyItems items) ++ [0x5d] ++ rest = _
    rw [List.append_assoc]
    rfl
  have hlength : (Json.arr items).stringify.length =
      (joined [0x2c] (stringifyItems items)).length + 2 := by
    show (0x5b :: joined [0x2c] (stringifyItems items) ++ [0x5d]).length = _
    rw [List.length_append, List.length_cons, List.length_singleton]
  rw [htext]
  cases items with
  | nil => rfl
  | cons v values =>
    have hread := parseItems_joined hitems (List.cons_ne_nil _ _) rest (show _ < fuel by omega)
    obtain ⟨hv, -⟩ : v.Proper ∧ ProperItems values := hproper
    have hvplain : v.plain = true := by
      unfold plainItems at hplain
      exact (Bool.and_eq_true_iff.mp hplain).1
    obtain ⟨c, t, hhead, hstarts⟩ := stringify_head hv hvplain
    obtain ⟨t', hjoined⟩ : ∃ t', joined [0x2c] (stringifyItems (v :: values)) = c :: t' := by
      cases values with
      | nil => exact ⟨t, hhead⟩
      | cons w values =>
        refine ⟨t ++ [0x2c] ++ joined [0x2c] (stringifyItems (w :: values)), ?_⟩
        show v.stringify ++ [0x2c] ++ _ = _
        rw [hhead]
        rfl
    have hspace : skipSpace (0x5b :: (joined [0x2c] (stringifyItems (v :: values)) ++ 0x5d :: rest)) =
        0x5b :: (joined [0x2c] (stringifyItems (v :: values)) ++ 0x5d :: rest) := rfl
    have hopen : expect 0x5d (joined [0x2c] (stringifyItems (v :: values)) ++ 0x5d :: rest) =
        none := by
      rw [hjoined]
      exact expect_of_starts _ hstarts hstarts.2
    rw [parseValue, hspace]
    dsimp only
    rw [if_neg (by decide), if_pos rfl, hopen]
    dsimp only
    rw [hread]
    rfl

theorem readsBack_obj {entries : List (Str × Json)} (hown : ownProperties entries = entries)
    (hentries : ∀ e ∈ entries, ReadsBack e.2) : ReadsBack (.obj entries) := by
  intro fuel rest hfuel hrest
  obtain ⟨fuel, rfl⟩ := Nat.exists_eq_add_of_le' (show 1 ≤ fuel by omega)
  have htext : (Json.obj entries).stringify ++ rest =
      0x7b :: (membersText (stringifyEntries entries) ++ 0x7d :: rest) := objectText_append _ rest
  have hlength : (Json.obj entries).stringify.length =
      (membersText (stringifyEntries entries)).length + 2 := by
    show (0x7b :: membersText (stringifyEntries entries) ++ [0x7d]).length = _
    rw [List.length_append, List.length_cons, List.length_singleton]
  rw [htext]
  cases entries with
  | nil => rfl
  | cons e entries =>
    have hread := parseMembers_stringify hentries (List.cons_ne_nil _ _) rest (show _ < fuel by omega)
    obtain ⟨t, hmembers⟩ : ∃ t, membersText (stringifyEntries (e :: entries)) = 0x22 :: t := by
      cases entries with
      | nil => exact ⟨_, rfl⟩
      | cons f entries => exact ⟨_, rfl⟩
    have hspace : skipSpace (0x7b :: (membersText (stringifyEntries (e :: entries)) ++ 0x7d :: rest)) =
        0x7b :: (membersText (stringifyEntries (e :: entries)) ++ 0x7d :: rest) := rfl
    have hopen : expect 0x7d (membersText (stringifyEntries (e :: entries)) ++ 0x7d :: rest) =
        none := by
      rw [hmembers]
      exact expect_of_starts _ ⟨by decide, by decide⟩ (by decide)
    rw [parseValue, hspace]
    dsimp only
    rw [if_pos rfl, hopen]
    dsimp only
    rw [hread, Option.map_some, hown]

mutual

theorem readsBack {v : Json} (hproper : v.Proper) (hplain : v.plain = true) : ReadsBack v :=
  match v with
  | .null => readsBack_literal rfl fun _ _ => rfl
  | .bool true => readsBack_literal rfl fun _ _ => rfl
  | .bool false => readsBack_literal rfl fun _ _ => rfl
  | .num _ => readsBack_num hproper hplain
  | .str s => readsBack_str s
  | .arr _ => readsBack_arr hproper hplain (readsBack_items hproper hplain)
  | .obj _ => readsBack_obj hproper.1 (readsBack_entries hproper.2 hplain)

theorem readsBack_items {values : List Json} (hproper : ProperItems values)
    (hplain : plainItems values = true) : ∀ v ∈ values, ReadsBack v :=
  match values with
  | [] => List.forall_mem_nil _
  | _ :: _ =>
    have hboth := Bool.and_eq_true_iff.mp hplain
    List.forall_mem_cons.mpr ⟨readsBack hproper.1 hboth.1, readsBack_items hproper.2 hboth.2⟩

theorem readsBack_entries {entries : List (Str × Json)} (hproper : ProperEntries entries)
    (hplain : plainEntries entries = true) : ∀ e ∈ entries, ReadsBack e.2 :=
  match entries with
  | [] => List.forall_mem_nil _
  | (_, _) :: _ =>
    have hboth := Bool.and_eq_true_iff.mp hplain
    List.forall_mem_cons.mpr ⟨readsBack hproper.1 hboth.1, readsBack_entries hproper.2 hboth.2⟩

end

theorem parse_stringify {v : Json} (hproper : v.Proper) (hplain : v.plain = true) :
    parse v.stringify = some v := by
  have hread := readsBack hproper hplain (v.stringify.length + 1) [] (by omega) nofun
  rw [List.append_nil] at hread
  unfold parse
  rw [hread]
  rfl

theorem keys_defineProperty (entries : List (Str × Json)) (entry : Str × Json) :
    (defineProperty entries entry).map Prod.fst =
      if entry.1 ∈ entries.map Prod.fst then entries.map Prod.fst else entries.map Prod.fst ++
        [entry.1] := by
  unfold defineProperty
  split_ifs with hmem
  · rw [List.map_map]
    refine List.map_congr_left fun e _ => ?_
    dsimp only [Function.comp]
    split_ifs with hsame
    · exact hsame.symm
    · rfl
  · rw [List.map_append, List.map_singleton]

theorem nodup_foldl_defineProperty (members : List (Str × Json)) {acc : List (Str × Json)}
    (h : (acc.map Prod.fst).Nodup) : ((members.foldl defineProperty acc).map Prod.fst).Nodup := by
  induction members generalizing acc with
  | nil => exact h
  | cons entry members ih =>
    rw [List.foldl_cons]
    refine ih ?_
    rw [keys_defineProperty]
    split_ifs with hmem
    · exact h
    · exact List.nodup_append.mpr ⟨h, List.nodup_singleton _, by
        intro key hkey other hother hsame
        rw [List.mem_singleton] at hother
        rw [hsame, hother] at hkey
        exact hmem hkey⟩

theorem mem_foldl_defineProperty {members acc : List (Str × Json)} {e : Str × Json}
    (h : e ∈ members.foldl defineProperty acc) : e ∈ members ∨ e ∈ acc := by
  induction members generalizing acc with
  | nil => exact Or.inr h
  | cons entry members ih =>
    rw [List.foldl_cons] at h
    rcases ih h with h | h
    · exact Or.inl (List.mem_cons_of_mem _ h)
    · unfold defineProperty at h
      split_ifs at h
      · obtain ⟨other, hother, hsame⟩ := List.mem_map.mp h
        split_ifs at hsame
        · exact Or.inl (by rw [← hsame]; exact List.mem_cons_self)
        · exact Or.inr (hsame ▸ hother)
      · rcases List.mem_append.mp h with h | h
        · exact Or.inr h
        · exact Or.inl (by rw [List.mem_singleton.mp h]; exact List.mem_cons_self)

theorem ownProperties_perm (members : List (Str × Json)) :
    (ownProperties members).Perm (members.foldl defineProperty []) := by
  unfold ownProperties
  dsimp only
  generalize members.foldl defineProperty [] = entries
  have hnot : (entries.filter fun e => (arrayIndex e.1).isNone) =
      entries.filter fun e => !(arrayIndex e.1).isSome :=
    List.filter_congr fun e _ => by rw [Option.not_isSome]
  rw [hnot]
  exact ((List.mergeSort_perm _ _).append_right _).trans (List.filter_append_perm _ entries)

theorem nodup_ownProperties (members : List (Str × Json)) :
    ((ownProperties members).map Prod.fst).Nodup :=
  ((ownProperties_perm members).map Prod.fst).nodup_iff.mpr
    (nodup_foldl_defineProperty members List.nodup_nil)

def indexOrder (e f : Str × Json) : Bool := (arrayIndex e.1).getD 0 ≤ (arrayIndex f.1).getD 0

theorem mergeSort_mergeSort (l : List (Str × Json)) :
    (l.mergeSort indexOrder).mergeSort indexOrder = l.mergeSort indexOrder := by
  refine List.mergeSort_of_pairwise (List.pairwise_mergeSort ?_ ?_ l)
  · intro a b c hab hbc
    exact decide_eq_true ((of_decide_eq_true hab).trans (of_decide_eq_true hbc))
  · intro a b
    rcases le_total ((arrayIndex a.1).getD 0) ((arrayIndex b.1).getD 0) with h | h
    · exact Bool.or_eq_true_iff.mpr (Or.inl (decide_eq_true h))
    · exact Bool.or_eq_true_iff.mpr (Or.inr (decide_eq_true h))

/-- Properties that are in order stay so. -/
theorem ownProperties_ownProperties (members : List (Str × Json)) :
    ownProperties (ownProperties members) = ownProperties members := by
  have hfold : (ownProperties members).foldl defineProperty [] = ownProperties members :=
    foldl_defineProperty (nodup_ownProperties members)
  have hown : ∀ l : List (Str × Json), ownProperties l =
      ((l.foldl defineProperty []).filter fun e => (arrayIndex e.1).isSome).mergeSort indexOrder ++
        (l.foldl defineProperty []).filter fun e => (arrayIndex e.1).isNone := fun _ => rfl
  have hmembers := hown members
  generalize members.foldl defineProperty [] = entries at hmembers
  generalize hindexed : (entries.filter fun e => (arrayIndex e.1).isSome).mergeSort indexOrder =
    indexed at hmembers
  generalize hnamed : (entries.filter fun e => (arrayIndex e.1).isNone) = named at hmembers
  have hsome : ∀ e ∈ indexed, (arrayIndex e.1).isSome = true := by
    intro e he
    rw [← hindexed] at he
    exact (List.mem_filter.mp (List.mem_mergeSort.mp he)).2
  have hnone : ∀ e ∈ named, (arrayIndex e.1).isNone = true := by
    intro e he
    rw [← hnamed] at he
    exact (List.mem_filter.mp he).2
  have hfirst : ((indexed ++ named).filter fun e => (arrayIndex e.1).isSome) = indexed := by
    rw [List.filter_append, List.filter_eq_self.mpr hsome, List.filter_eq_nil_iff.mpr, List.append_nil]
    intro e he
    rw [Bool.not_eq_true, Option.isSome_eq_false_iff]
    exact hnone e he
  have hlast : ((indexed ++ named).filter fun e => (arrayIndex e.1).isNone) = named := by
    rw [List.filter_append, List.filter_eq_self.mpr hnone, List.filter_eq_nil_iff.mpr, List.nil_append]
    intro e he
    rw [Bool.not_eq_true, Option.isNone_eq_false_iff]
    exact hsome e he
  rw [hown, hfold, hmembers, hfirst, hlast, ← hindexed, mergeSort_mergeSort]

theorem mem_ownProperties {members : List (Str × Json)} {e : Str × Json}
    (h : e ∈ ownProperties members) : e ∈ members := by
  unfold ownProperties at h
  have hmem : e ∈ members.foldl defineProperty [] := by
    rcases List.mem_append.mp h with h | h
    · exact List.mem_of_mem_filter (List.mem_mergeSort.mp h)
    · exact List.mem_of_mem_filter h
  rcases mem_foldl_defineProperty hmem with h | h
  · exact h
  · cases h

theorem properEntries_iff {entries : List (Str × Json)} : ProperEntries entries ↔
    ∀ e ∈ entries, e.2.Proper := by
  induction entries with
  | nil => exact iff_of_true trivial (List.forall_mem_nil _)
  | cons e entries ih =>
    rw [List.forall_mem_cons, ← ih]
    rfl

theorem isDouble_unsignedDecimal {s : Str} {n : Number} (h : unsignedDecimal s = some n) :
    n.IsDouble := by
  unfold unsignedDecimal at h
  split_ifs at h
  · cases h
    trivial
  · dsimp only at h
    split_ifs at h
    obtain ⟨e, -, rfl⟩ := Option.map_eq_some_iff.mp h
    exact Number.isDouble_round _

theorem isDouble_parseUnsigned {s rest : Str} {n : Number} (h : parseUnsigned s = some (n, rest)) :
    n.IsDouble := by
  unfold parseUnsigned at h
  obtain ⟨⟨whole, s₁⟩, -, h⟩ := Option.bind_eq_some_iff.mp h
  obtain ⟨⟨fraction, s₂⟩, -, h⟩ := Option.bind_eq_some_iff.mp h
  obtain ⟨⟨exponent, s₃⟩, -, h⟩ := Option.bind_eq_some_iff.mp h
  obtain ⟨value, hvalue, h⟩ := Option.bind_eq_some_iff.mp h
  cases h
  exact isDouble_unsignedDecimal hvalue

theorem isDouble_parseNumber {s rest : Str} {n : Number} (h : parseNumber s = some (n, rest)) :
    n.IsDouble := by
  unfold parseNumber at h
  split at h
  · obtain ⟨⟨m, t⟩, hm, h⟩ := Option.map_eq_some_iff.mp h
    cases h
    exact (isDouble_parseUnsigned hm).neg
  · exact isDouble_parseUnsigned h

/-- What is read with some fuel is proper. -/
theorem proper_parse (fuel : ℕ) :
    (∀ s v rest, parseValue fuel s = some (v, rest) → v.Proper) ∧
    (∀ s values rest, parseItems fuel s = some (values, rest) → ProperItems values) ∧
    (∀ s entries rest, parseMembers fuel s = some (entries, rest) → ProperEntries entries) := by
  induction fuel with
  | zero => exact ⟨nofun, nofun, nofun⟩
  | succ fuel ih =>
    obtain ⟨hvalue, hitems, hmembers⟩ := ih
    refine ⟨?_, ?_, ?_⟩
    · intro s v rest h
      unfold parseValue at h
      split at h
      · cases h
      split_ifs at h
      · split at h
        · cases h
          exact ⟨ownProperties_eq_self List.nodup_nil (List.forall_mem_nil _), trivial⟩
        · obtain ⟨⟨members, t⟩, hparse, h⟩ := Option.map_eq_some_iff.mp h
          cases h
          have hall := properEntries_iff.mp (hmembers _ _ _ hparse)
          exact ⟨ownProperties_ownProperties members,
            properEntries_iff.mpr fun e he => hall e (mem_ownProperties he)⟩
      · split at h
        · cases h
          trivial
        · obtain ⟨⟨values, t⟩, hparse, h⟩ := Option.map_eq_some_iff.mp h
          cases h
          exact hitems _ _ _ hparse
      · obtain ⟨⟨text, t⟩, -, h⟩ := Option.map_eq_some_iff.mp h
        cases h
        trivial
      · cases h
        trivial
      · cases h
        trivial
      · cases h
        trivial
      · obtain ⟨⟨n, t⟩, hparse, h⟩ := Option.map_eq_some_iff.mp h
        cases h
        exact isDouble_parseNumber hparse
    · intro s values rest h
      unfold parseItems at h
      split at h
      · cases h
      rename_i value t hfirst
      have hproper := hvalue _ _ _ hfirst
      split at h
      · obtain ⟨⟨others, t'⟩, hparse, h⟩ := Option.map_eq_some_iff.mp h
        cases h
        exact ⟨hproper, hitems _ _ _ hparse⟩
      · obtain ⟨t', -, h⟩ := Option.map_eq_some_iff.mp h
        cases h
        exact ⟨hproper, trivial⟩
    · intro s entries rest h
      unfold parseMembers at h
      split at h
      · cases h
      split at h
      · cases h
      rename_i value t hfirst
      have hproper := hvalue _ _ _ hfirst
      split at h
      · obtain ⟨⟨others, t'⟩, hparse, h⟩ := Option.map_eq_some_iff.mp h
        cases h
        exact ⟨hproper, hmembers _ _ _ hparse⟩
      · obtain ⟨t', -, h⟩ := Option.map_eq_some_iff.mp h
        cases h
        exact ⟨hproper, trivial⟩

theorem proper_of_parse {s : Str} {v : Json} (h : parse s = some v) : v.Proper := by
  unfold parse at h
  split at h
  · rename_i value rest hread
    split_ifs at h
    cases h
    exact (proper_parse _).1 _ _ _ hread
  · cases h

end Cyclo.Js.Json
