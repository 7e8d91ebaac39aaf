import Cyclo.Js.RoundTrip
import Cyclo.OpenAi.Conversation
import Cyclo.OpenAi.Reconciliation

/-! What the items of a response say of the blocks of a message. -/
namespace Cyclo.OpenAi
open Js Js.Json

theorem deepEqualEntries_iff {entries others : List (Str × Json)} :
    deepEqualEntries entries others = true ↔
      ∀ e ∈ entries, ∃ other, others.lookup e.1 = some other ∧ deepEqual e.2 other = true := by
  induction entries with
  | nil => exact iff_of_true rfl (List.forall_mem_nil _)
  | cons e entries ih =>
    obtain ⟨key, value⟩ := e
    unfold deepEqualEntries
    rw [Bool.and_eq_true, ih, List.forall_mem_cons]
    refine and_congr_left' ?_
    cases others.lookup key with
    | none => exact iff_of_false nofun nofun
    | some other =>
      constructor
      · exact fun h => ⟨other, rfl, h⟩
      · rintro ⟨_, hsame, h⟩
        cases hsame
        exact h

theorem lookup_of_mem {entries : List (Str × Json)} (hnodup : (entries.map Prod.fst).Nodup)
    {e : Str × Json} (he : e ∈ entries) : entries.lookup e.1 = some e.2 := by
  induction entries with
  | nil => cases he
  | cons f entries ih =>
    rw [List.map_cons, List.nodup_cons] at hnodup
    rcases List.mem_cons.mp he with rfl | he
    · exact List.lookup_cons_self
    · have hne : e.1 ≠ f.1 := by
        intro hsame
        exact hnodup.1 (hsame ▸ List.mem_map_of_mem he)
      rw [List.lookup_cons, beq_false_of_ne hne]
      exact ih hnodup.2 he

theorem mem_of_lookup {entries : List (Str × Json)} {key : Str} {value : Json}
    (h : entries.lookup key = some value) : (key, value) ∈ entries := by
  induction entries with
  | nil => cases h
  | cons f entries ih =>
    rw [List.lookup_cons] at h
    split at h
    · rename_i hsame
      cases h
      rw [beq_iff_eq] at hsame
      rw [hsame]
      exact List.mem_cons_self
    · exact List.mem_cons_of_mem _ (ih h)

theorem nodup_of_proper {entries : List (Str × Json)} (h : (Json.obj entries).Proper) :
    (entries.map Prod.fst).Nodup := by
  have hnodup := nodup_ownProperties entries
  rwa [h.1] at hnodup

mutual

theorem deepEqual_refl {v : Json} (h : v.Proper) : deepEqual v v = true :=
  match v with
  | .null => rfl
  | .bool _ => decide_eq_true rfl
  | .num _ => decide_eq_true rfl
  | .str _ => decide_eq_true rfl
  | .arr _ => deepEqualItems_refl h
  | .obj entries => by
    have hentries := deepEqual_entries_refl h.2
    show (entries.length = entries.length && deepEqualEntries entries entries) = true
    rw [decide_eq_true rfl, Bool.true_and, deepEqualEntries_iff]
    exact fun e he => ⟨e.2, lookup_of_mem (nodup_of_proper h) he, hentries e he⟩

theorem deepEqualItems_refl {values : List Json} (h : ProperItems values) :
    deepEqualItems values values = true :=
  match values with
  | [] => rfl
  | _ :: _ => Bool.and_eq_true_iff.mpr ⟨deepEqual_refl h.1, deepEqualItems_refl h.2⟩

theorem deepEqual_entries_refl {entries : List (Str × Json)} (h : ProperEntries entries) :
    ∀ e ∈ entries, deepEqual e.2 e.2 = true :=
  match entries with
  | [] => List.forall_mem_nil _
  | (_, _) :: _ => List.forall_mem_cons.mpr ⟨deepEqual_refl h.1, deepEqual_entries_refl h.2⟩

end

/-- Two lists of properties of one length, one of which has every name of the other, have the same
names. -/
theorem keys_subset {entries others : List (Str × Json)} (hnodup : (entries.map Prod.fst).Nodup)
    (hlength : entries.length = others.length)
    (hsub : entries.map Prod.fst ⊆ others.map Prod.fst) :
    others.map Prod.fst ⊆ entries.map Prod.fst := by
  have hperm := (hnodup.subperm hsub).perm_of_length_le
    (by rw [List.length_map, List.length_map, hlength])
  exact hperm.symm.subset

theorem deepEqual_obj_symm {entries others : List (Str × Json)} (hv : (Json.obj entries).Proper)
    (hw : (Json.obj others).Proper)
    (hentries : ∀ e ∈ entries, ∀ w : Json, w.Proper → deepEqual e.2 w = true → deepEqual w e.2 = true)
    (h : deepEqual (.obj entries) (.obj others) = true) :
    deepEqual (.obj others) (.obj entries) = true := by
  obtain ⟨hlength, hall⟩ := Bool.and_eq_true_iff.mp h
  rw [decide_eq_true_iff] at hlength
  rw [deepEqualEntries_iff] at hall
  have hsub : entries.map Prod.fst ⊆ others.map Prod.fst := by
    intro key hkey
    obtain ⟨e, he, rfl⟩ := List.mem_map.mp hkey
    obtain ⟨other, hother, -⟩ := hall e he
    exact List.mem_map.mpr ⟨(e.1, other), mem_of_lookup hother, rfl⟩
  have hback := keys_subset (nodup_of_proper hv) hlength hsub
  refine Bool.and_eq_true_iff.mpr ⟨decide_eq_true hlength.symm, deepEqualEntries_iff.mpr ?_⟩
  intro f hf
  obtain ⟨e, he, hsame⟩ := List.mem_map.mp (hback (List.mem_map_of_mem hf))
  obtain ⟨other, hother, hequal⟩ := hall e he
  have hthere := lookup_of_mem (nodup_of_proper hw) hf
  rw [← hsame, hother] at hthere
  cases hthere
  refine ⟨e.2, ?_, hentries e he f.2 (properEntries_iff.mp hw.2 f hf) hequal⟩
  rw [← hsame]
  exact lookup_of_mem (nodup_of_proper hv) he

mutual

theorem deepEqual_symm {v w : Json} (hv : v.Proper) (hw : w.Proper) (h : deepEqual v w = true) :
    deepEqual w v = true :=
  match v, w with
  | .null, .null => rfl
  | .bool _, .bool _ => decide_eq_true (of_decide_eq_true h).symm
  | .num _, .num _ => decide_eq_true (of_decide_eq_true h).symm
  | .str _, .str _ => decide_eq_true (of_decide_eq_true h).symm
  | .arr _, .arr _ => deepEqualItems_symm hv hw h
  | .obj _, .obj _ => deepEqual_obj_symm hv hw (deepEqual_entries_symm hv.2) h

theorem deepEqualItems_symm {values others : List Json} (hv : ProperItems values)
    (hw : ProperItems others) (h : deepEqualItems values others = true) :
    deepEqualItems others values = true :=
  match values, others with
  | [], [] => rfl
  | _ :: _, _ :: _ =>
    have hboth := Bool.and_eq_true_iff.mp h
    Bool.and_eq_true_iff.mpr ⟨deepEqual_symm hv.1 hw.1 hboth.1, deepEqualItems_symm hv.2 hw.2 hboth.2⟩

theorem deepEqual_entries_symm {entries : List (Str × Json)} (h : ProperEntries entries) :
    ∀ e ∈ entries, ∀ w : Json, w.Proper → deepEqual e.2 w = true → deepEqual w e.2 = true :=
  match entries with
  | [] => List.forall_mem_nil _
  | (_, _) :: _ =>
    List.forall_mem_cons.mpr ⟨fun _ hw => deepEqual_symm h.1 hw, deepEqual_entries_symm h.2⟩

end

/-- An item that says what a block says. Arguments are read back as they are, unless a number in
them has no text of its own. -/
inductive Represents (block : Json) : Item → Prop
  | message id phase text : blockKind block = some .text → textField block "text" = some text →
      Represents block (.message id phase (some text))
  | reasoning id encrypted text : blockKind block = some .thinking →
      textField block "thinking" = some text → Represents block (.reasoning id encrypted (some text))
  | functionCall id callId name text ids arguments : blockKind block = some .toolCall →
      textField block "name" = some name → toolCallIds (fieldOf (some block) "id") = some ids →
      sameCall ids (.functionCall id callId name none) = true →
      fieldOf (some block) "arguments" = some arguments →
      (arguments.plain = true → ∃ parsed, Json.parse text = some parsed ∧
        deepEqual parsed arguments = true) →
      Represents block (.functionCall id callId name (some text))

variable {block : Json} {slot : Slot} {text : Str}

theorem blockKind_text (h : oneOf ["text"] (fieldOf (some block) "type") = true) :
    blockKind block = some .text := by
  unfold blockKind
  rw [oneOf_singleton h]
  rfl

theorem blockKind_thinking (h : oneOf ["thinking"] (fieldOf (some block) "type") = true) :
    blockKind block = some .thinking := by
  unfold blockKind
  rw [oneOf_singleton h]
  dsimp only
  rw [if_neg (by decide), if_pos rfl]

theorem blockKind_toolCall (h : oneOf ["toolCall"] (fieldOf (some block) "type") = true) :
    blockKind block = some .toolCall := by
  unfold blockKind
  rw [oneOf_singleton h]
  dsimp only
  rw [if_neg (by decide), if_neg (by decide), if_pos rfl]

theorem proper_field {value : Json} {name : String} (h : block.Proper)
    (hfield : fieldOf (some block) name = some value) : value.Proper := by
  cases block with
  | obj entries => exact properEntries_iff.mp h.2 _ (mem_of_lookup hfield)
  | null | bool | num | str | arr => cases hfield

/-- The text of arguments decodes to them. -/
theorem argumentsText_decodes (buffer : Str) {arguments : Json} (hproper : arguments.Proper)
    (hplain : arguments.plain = true) :
    ∃ parsed, Json.parse (argumentsText buffer arguments) = some parsed ∧
    deepEqual parsed arguments = true := by
  have hwritten : ∃ parsed, Json.parse arguments.stringify = some parsed ∧
      deepEqual parsed arguments = true :=
    ⟨arguments, parse_stringify hproper hplain, deepEqual_refl hproper⟩
  unfold argumentsText
  split
  · rename_i parsed hparse
    split_ifs at hparse with hempty
    split_ifs with hequal
    · exact ⟨parsed, hparse, hequal⟩
    · exact hwritten
  · exact hwritten

theorem toolArguments_eq_ok (h : toolArguments slot (some block) = .ok text) :
    ∃ ids name arguments, textField block "name" = some name ∧
    toolCallIds (fieldOf (some block) "id") = some ids ∧
      sameCall ids slot.item = true ∧ sameName name slot.item = true ∧
      fieldOf (some block) "arguments" = some arguments ∧
        text = argumentsText slot.buffer arguments := by
  unfold toolArguments at h
  split at h
  · rename_i arguments name _ harguments hname
    split at h
    · cases h
    · rename_i ids hids
      dsimp only at h
      split_ifs at h with hcall hsame hstart
      · cases h
      · cases h
      · cases h
        refine ⟨ids, name, .obj arguments, ?_, hids, (Bool.not_eq_false _).mp hcall,
          ?_, harguments, rfl⟩
        · unfold textField
          rw [hname]
          rfl
        · exact (Bool.not_eq_false _).mp fun hdiffers => hsame (Or.inr hdiffers)
      · cases h
  · cases h

/-- The item of a slot that is done says what the block says that it was last compared with. -/
theorem represents_validated (hproper : block.Proper) (hdone : slot.done = true)
    (htext : ∀ text ∈ slot.item.text, text = slot.buffer)
    (hvalid : validateFinishedSlot slot block = .ok ()) : Represents block slot.item := by
  unfold Slot.done at hdone
  unfold validateFinishedSlot at hvalid
  cases hitem : slot.item with
  | message id phase text =>
    rw [hitem] at hdone hvalid htext
    obtain ⟨text, rfl⟩ := Option.isSome_iff_exists.mp hdone
    have hbuffer := htext text rfl
    dsimp only at hvalid
    split_ifs at hvalid with hsame
    · refine .message id phase text (blockKind_text hsame.1) ?_
      rw [hbuffer]
      exact hsame.2
    · cases hvalid
  | reasoning id encrypted text =>
    rw [hitem] at hdone hvalid htext
    obtain ⟨text, rfl⟩ := Option.isSome_iff_exists.mp hdone
    have hbuffer := htext text rfl
    dsimp only at hvalid
    split_ifs at hvalid with hsame
    · refine .reasoning id encrypted text (blockKind_thinking hsame.1) ?_
      rw [hbuffer]
      exact hsame.2
    · cases hvalid
  | functionCall id callId name text =>
    rw [hitem] at hdone hvalid htext
    obtain ⟨text, rfl⟩ := Option.isSome_iff_exists.mp hdone
    dsimp only at hvalid
    split_ifs at hvalid with hsame
    · obtain ⟨htype, hname, hequal⟩ := hsame
      split at hvalid
      · cases hvalid
      rename_i ids hids
      split_ifs at hvalid with hcall
      · split at hequal
        · rename_i given parsed hgiven hparsed
          have hgivenProper := proper_field hproper hgiven
          have hsymm := deepEqual_symm hgivenProper (proper_of_parse hparsed) hequal
          exact .functionCall id callId name text ids given (blockKind_toolCall htype)
            hname hids hcall hgiven fun _ => ⟨parsed, hparsed, hsymm⟩
        · cases hequal
      · cases hvalid
    · cases hvalid

theorem text_of_filter {given : Option Str} {buffer : Str}
    (h : (given.filter fun text => Str.startsWith text buffer) = some text) : given = some text :=
  (Option.filter_eq_some_iff.mp h).1

theorem endingText_kind (h : endingText slot block = some text) :
    blockKind block = some slot.item.kind := by
  unfold endingText at h
  split_ifs at h with hkind
  exact hkind

/-- The item that a block completes says what the block says. -/
theorem represents_completed {item : Item} (hproper : block.Proper)
    (htext : endingText slot block = some text)
    (hitem : slot.item.Completes text item) : Represents block item := by
  have hkind := endingText_kind htext
  unfold endingText at htext
  rw [if_pos hkind] at htext
  generalize hbefore : slot.item = before at hitem
  rw [hbefore] at hkind htext
  cases hitem with
  | message id phase old phase' text => exact .message id phase' text hkind (text_of_filter htext)
  | reasoning id encrypted old encrypted' text =>
    exact .reasoning id encrypted' text hkind (text_of_filter htext)
  | functionCall id callId name old text =>
    dsimp only [Item.kind] at htext
    cases harguments : toolArguments slot (some block) with
    | error failure =>
      rw [harguments] at htext
      cases htext
    | ok given =>
      rw [harguments] at htext
      cases htext
      obtain ⟨ids, name', arguments, hname, hids, hcall, hsame, hfield, htext⟩ :=
        toolArguments_eq_ok harguments
      rw [hbefore] at hcall hsame
      have hnames : name' = name := of_decide_eq_true hsame
      rw [hnames] at hname
      refine .functionCall id callId name text ids arguments hkind hname hids hcall hfield ?_
      intro hplain
      rw [htext]
      exact argumentsText_decodes slot.buffer (proper_field hproper hfield) hplain

theorem Settles.represents {before : Option Slot} (h : Settles block before slot)
    (hproper : block.Proper) (htext : ∀ text ∈ slot.item.text, text = slot.buffer) :
    Represents block slot.item := by
  cases h with
  | kept slot hdone hvalid => exact represents_validated hproper hdone htext hvalid
  | finished before item text hopen hending hitem => exact represents_completed hproper hending hitem
  | made index k item item' text hbegins hending hitem =>
    exact represents_completed hproper hending hitem

end Cyclo.OpenAi
