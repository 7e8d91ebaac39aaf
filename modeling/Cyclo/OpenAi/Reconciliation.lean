import Cyclo.OpenAi.Ends

/-! What the reconciliation with the last message does for each of its blocks. -/
namespace Cyclo.OpenAi
open Js Process Process.Stateful

variable {idFactory : ℕ → Str → Str} {s t u : State} {index : ℕ} {block : Json} {slot slot' : Slot}
  {text : Str} {events events' : List Event} {X : Failure → State → Prop}

/-- A field of a block that is text. -/
def textField (block : Json) (name : String) : Option Str :=
  (fieldOf (some block) name).bind Json.asString

/-- The text that a block gives a slot that is not done. -/
def endingText (slot : Slot) (block : Json) : Option Str :=
  if blockKind block = some slot.item.kind then
    match slot.item.kind with
    | .text => (textField block "text").filter fun text => Str.startsWith text slot.buffer
    | .thinking => (textField block "thinking").filter fun text => Str.startsWith text slot.buffer
    | .toolCall => (toolArguments slot (some block)).toOption
  else none

/-- Whether a block can end the item that is started for it. -/
def endable (block : Json) : SlotKind → Bool
  | .text => (textField block "text").isSome
  | .thinking => (textField block "thinking").isSome
  | .toolCall =>
    match fieldOf (some block) "arguments" with
    | some (.obj _) => true
    | _ => false

/-- Whether an item is started for a block. -/
def startable (block : Json) : SlotKind → Bool
  | .toolCall => (toolStart (some block)).isOk
  | _ => true

inductive Verdict where
  /-- The item of the block is done and is not changed by it. -/
  | silent
  | emits
  | rejected
  /-- An item is announced, and the block is rejected then. -/
  | broken
  deriving DecidableEq

/-- What `reconcile` makes of a block, by the slots that it finds. -/
def verdict (slots : List Slot) (index : ℕ) (block : Json) : Verdict :=
  match slotAt slots index with
  | some slot =>
    if slot.done then if (validateFinishedSlot slot block).isOk then .silent else .rejected
    else if (endingText slot block).isSome then .emits
    else .rejected
  | none =>
    match blockKind block with
    | some kind =>
      if startable block kind then if endable block kind then .emits else .broken
      else .rejected
    | none => .rejected

theorem blockText_yields {name : String} {Q : Option Json → State → Prop}
    (hok : ∀ text, textField block name = some text → Q (some (.str text)) s)
    (hnone : textField block name = none → X .other s) :
    Yields (liftExcept (blockText block name)) s Q X := by
  unfold textField at hok hnone
  unfold blockText
  split
  · rename_i text hfield
    exact hok text (by rw [hfield]; rfl)
  · rename_i hfield
    refine hnone ?_
    cases hvalue : fieldOf (some block) name with
    | none => rfl
    | some value =>
      cases value with
      | str text => exact absurd hvalue (hfield text)
      | null | bool | num | arr | obj => rfl

theorem activeSlot_of (hslot : slotAt s.slots index = some slot) (hopen : slot.done = false) :
    activeSlot s.slots index slot.item.kind = .ok slot := activeSlot_eq_ok.mpr ⟨hslot, rfl, hopen⟩

theorem endBlock_yields (hs : s.Sound) (hslot : slotAt s.slots index = some slot)
    (hopen : slot.done = false) (block : Json) : Yields (endBlock index block slot.item.kind) s
      (fun events t => ∃ text, endingText slot block = some text ∧ Ended s slot text events t)
      fun _ t => t = s ∧ endingText slot block = none := by
  have hactive := activeSlot_of hslot hopen
  unfold endBlock endingText
  split
  · exact ⟨rfl, if_neg nofun⟩
  split_ifs with hkind
  · cases hslotKind : slot.item.kind with
    | text =>
      rw [hslotKind] at hactive
      refine Yields.bind (blockText_yields ?_ ?_)
      · intro text htext
        refine (endText_yields hs index _ _).weaken ?_ ?_
        · rintro events t ⟨slot', text', hslot', hcontent, hstart, hended⟩
          cases hactive.symm.trans hslot'
          cases hcontent
          exact ⟨text, by rw [htext, Option.filter_some, if_pos hstart], hended⟩
        · rintro _ _ ⟨rfl, hdiffers⟩
          have hstart := hdiffers slot hactive text rfl
          exact ⟨rfl, by rw [htext, Option.filter_some, hstart, if_neg nofun]⟩
      · intro hnone
        exact ⟨rfl, by rw [hnone, Option.filter_none]⟩
    | thinking =>
      rw [hslotKind] at hactive
      refine Yields.bind (blockText_yields ?_ ?_)
      · intro text htext
        refine (endThinking_yields hs index _ _).weaken ?_ ?_
        · rintro events t ⟨slot', text', hslot', hcontent, hstart, hended⟩
          cases hactive.symm.trans hslot'
          cases hcontent
          exact ⟨text, by rw [htext, Option.filter_some, if_pos hstart], hended⟩
        · rintro _ _ ⟨rfl, hdiffers⟩
          have hstart := hdiffers slot hactive text rfl
          exact ⟨rfl, by rw [htext, Option.filter_some, hstart, if_neg nofun]⟩
      · intro hnone
        exact ⟨rfl, by rw [hnone, Option.filter_none]⟩
    | toolCall =>
      rw [hslotKind] at hactive
      refine (endToolCall_yields hs index _).weaken ?_ ?_
      · rintro events t ⟨slot', text', hslot', harguments, hended⟩
        cases hactive.symm.trans hslot'
        refine ⟨text', ?_, hended⟩
        dsimp only
        rw [harguments]
        rfl
      · rintro _ _ ⟨rfl, hnone⟩
        refine ⟨rfl, ?_⟩
        dsimp only
        cases harguments : toolArguments slot (some block) with
        | error failure => rfl
        | ok text => exact absurd harguments (hnone slot hactive text)
  · exact ⟨rfl, rfl⟩

/-- The item that a block starts is of its kind, and of its call. -/
inductive Begins (block : Json) : Item → Prop
  | message id phase : blockKind block = some .text → Begins block (.message id phase none)
  | reasoning id encrypted : blockKind block = some .thinking →
    Begins block (.reasoning id encrypted none)
  | functionCall start id : blockKind block = some .toolCall → toolStart (some block) = .ok start →
      (∀ itemId ∈ start.ids.itemId, itemId = id) →
      Begins block (.functionCall id start.ids.callId start.name none)

theorem Begins.kind {item : Item} (h : Begins block item) : blockKind block = some item.kind := by
  cases h <;> assumption

theorem Begins.open {item : Item} (h : Begins block item) : item.completed = false := by
  cases h <;> rfl

theorem startBlock_yields (hs : s.Sound) (hnew : slotAt s.slots index = none) (block : Json) :
    Yields (startBlock idFactory index block) s
      (fun events t => ∃ item, Begins block item ∧ startable block item.kind = true ∧
        Started s index item events t)
      fun _ t => t = s ∧ ∀ kind, blockKind block = some kind → startable block kind = false := by
  unfold startBlock
  cases hkind : blockKind block with
  | none => exact ⟨rfl, nofun⟩
  | some kind =>
    cases kind with
    | text =>
      refine (startText_yields hs index _).weaken ?_ ?_
      · rintro events t ⟨id, phase, hstarted⟩
        exact ⟨_, .message id phase hkind, rfl, hstarted⟩
      · rintro _ _ ⟨rfl, hused⟩
        exact absurd hnew hused
    | thinking =>
      refine (startThinking_yields hs index _).weaken ?_ ?_
      · rintro events t ⟨id, encrypted, hstarted⟩
        exact ⟨_, .reasoning id encrypted hkind, rfl, hstarted⟩
      · rintro _ _ ⟨rfl, hused⟩
        exact absurd hnew hused
    | toolCall =>
      refine (startToolCall_yields hs index _).weaken ?_ ?_
      · rintro events t ⟨start, id, hstart, hid, hstarted⟩
        refine ⟨_, .functionCall start id hkind hstart hid, ?_, hstarted⟩
        show (toolStart (some block)).isOk = true
        rw [hstart]
        rfl
      · rintro _ _ ⟨rfl, hused | hinvalid⟩
        · exact absurd hnew hused
        · refine ⟨rfl, ?_⟩
          rintro kind hsame
          cases hsame
          show (toolStart (some block)).isOk = false
          cases hstart : toolStart (some block) with
          | error failure => rfl
          | ok start => exact absurd hstart (hinvalid start)

theorem startsWith_nil (text : Str) : Str.startsWith text [] = true :=
  Str.startsWith_iff.mpr (List.nil_prefix)

theorem sameCall_begun {start : ToolStart} {id : Str} (h : ∀ itemId ∈ start.ids.itemId, itemId = id) :
    sameCall start.ids (.functionCall id start.ids.callId start.name none) = true := by
  show (decide (start.ids.callId = start.ids.callId) && start.ids.itemId.all fun itemId =>
    itemId = id) = true
  rw [decide_eq_true rfl, Bool.true_and, Option.all_eq_true]
  exact fun itemId hitem => decide_eq_true (h itemId hitem)

/-- What a block that can be started says of the call. -/
theorem toolStart_eq_ok {start : ToolStart} (h : toolStart (some block) = .ok start) :
    ∃ fields, block = .obj fields ∧ fieldOf (some block) "name" = some (.str start.name) ∧
    start.name ≠ [] ∧
      toolCallIds (fieldOf (some block) "id") = some start.ids := by
  unfold toolStart at h
  split at h
  · rename_i fields c name hblock hname
    split_ifs at h
    · split at h
      · rename_i ids hids
        cases h
        exact ⟨fields, Option.some.inj hblock, hname, List.cons_ne_nil _ _, hids⟩
      · cases h
    · cases h
  · cases h

theorem toolArguments_begun {start : ToolStart} {id : Str} {k : ℕ}
    (hstart : toolStart (some block) = .ok start) (hid : ∀ itemId ∈ start.ids.itemId, itemId = id) :
    (toolArguments ⟨index, k, .functionCall id start.ids.callId start.name none, []⟩
      (some block)).isOk = endable block .toolCall := by
  obtain ⟨fields, rfl, hname, hne, hids⟩ := toolStart_eq_ok hstart
  unfold toolArguments endable
  rw [hname]
  cases harguments : fieldOf (some (.obj fields)) "arguments" with
  | none => rfl
  | some arguments =>
    cases arguments with
    | obj arguments =>
      have hsame : sameName start.name (.functionCall id start.ids.callId start.name none) = true :=
        decide_eq_true rfl
      dsimp only
      rw [hids]
      dsimp only
      rw [sameCall_begun hid, hsame, if_neg nofun, if_neg (by simp [hne]), startsWith_nil, if_pos rfl]
      rfl
    | null | bool | num | str | arr => rfl

theorem filter_startsWith_nil (given : Option Str) :
    (given.filter fun text => Str.startsWith text []) = given := by
  cases given with
  | none => rfl
  | some text => rw [Option.filter_some, startsWith_nil, if_pos rfl]

theorem endingText_begun {item : Item} {k : ℕ} (h : Begins block item) :
    (endingText ⟨index, k, item, []⟩ block).isSome = endable block item.kind := by
  unfold endingText
  rw [if_pos h.kind]
  cases h with
  | message id phase hkind =>
    dsimp only [Item.kind, endable]
    rw [filter_startsWith_nil]
  | reasoning id encrypted hkind =>
    dsimp only [Item.kind, endable]
    rw [filter_startsWith_nil]
  | functionCall start id hkind hstart hid =>
    show _ = endable block .toolCall
    rw [← toolArguments_begun hstart hid]
    dsimp only [Item.kind]
    cases toolArguments ⟨index, k, .functionCall id start.ids.callId start.name none, []⟩
      (some block) <;> rfl

/-- What the slot of a block is in the end, by what it was. -/
inductive Settles (block : Json) : Option Slot → Slot → Prop
  | kept slot : slot.done = true → validateFinishedSlot slot block = .ok () →
    Settles block (some slot) slot
  | finished slot item text : slot.done = false → endingText slot block = some text →
      slot.item.Completes text item →
      Settles block (some slot) ⟨slot.contentIndex, slot.outputIndex, item, text⟩
  | made index k item item' text : Begins block item →
    endingText ⟨index, k, item, []⟩ block = some text →
      item.Completes text item' → Settles block none ⟨index, k, item', text⟩

theorem Settles.done {before : Option Slot} (h : Settles block before slot) : slot.done = true := by
  cases h with
  | kept slot hdone => exact hdone
  | finished _ item text _ _ hitem =>
    show item.completed = true
    rw [Item.completed_eq, hitem.text_eq]
    rfl
  | made _ _ _ item' text _ _ hitem =>
    show item'.completed = true
    rw [Item.completed_eq, hitem.text_eq]
    rfl

/-- The content indexes of the slots once there is one for an index. -/
def withIndex (slots : List Slot) (index : ℕ) : List ℕ :=
  slots.map Slot.contentIndex ++ if slotAt slots index = none then [index] else []

/-- What a slot adds to the text of the response, once it is done. -/
def Slot.said (slot : Slot) : Str := if slot.done then spoken slot.item.kind slot.buffer else []

def State.saidAt (s : State) (index : ℕ) : Str := (slotAt s.slots index).elim [] Slot.said

/-- A block that `reconcile` accepts. -/
structure Reconciled (s : State) (index : ℕ) (block : Json) (events : List Event) (t : State) :
    Prop where
  encodes : Encodes s events t
  others : ∀ other, other ≠ index → slotAt t.slots other = slotAt s.slots other
  settles : ∃ slot, slotAt t.slots index = some slot ∧ Settles block (slotAt s.slots index) slot
  indexes : t.slots.map Slot.contentIndex = withIndex s.slots index
  said : t = s ∨ s.saidAt index = [] ∧ t.outputText = s.outputText ++ t.saidAt index

theorem Ended.said_eq {item : Item} (hopen : slot.done = false)
    (hslot : slotAt s.slots index = some slot)
    (h : Ended s slot text events t) (hitem : slot.item.Completes text item)
    (hthere : slotAt t.slots index = some ⟨slot.contentIndex, slot.outputIndex, item, text⟩) :
    s.saidAt index = [] ∧ t.outputText = s.outputText ++ t.saidAt index := by
  have hdone : item.completed = true := by
    rw [Item.completed_eq, hitem.text_eq]
    rfl
  refine ⟨?_, ?_⟩
  · unfold State.saidAt Slot.said
    rw [hslot, Option.elim_some, hopen, if_neg nofun]
  · unfold State.saidAt Slot.said Slot.done
    rw [h.outputText, hthere, Option.elim_some, hdone, if_pos rfl, hitem.kind_eq]

theorem Ended.slotAt_eq (hs : s.Sound) (hslot : slotAt s.slots index = some slot)
    (h : Ended s slot text events t) :
    (∃ item, slot.item.Completes text item ∧
      slotAt t.slots index = some ⟨slot.contentIndex, slot.outputIndex, item, text⟩) ∧
    (∀ other, other ≠ index → slotAt t.slots other = slotAt s.slots other) ∧
    t.slots.map Slot.contentIndex = s.slots.map Slot.contentIndex := by
  obtain ⟨item, hitem, hslots⟩ := h.slots
  have hindex := (slotAt_mem hslot).2
  have hget := hs.get hslot
  have hset := slotAt_set hs.distinct hget
    (rfl : (⟨slot.contentIndex, slot.outputIndex, item, text⟩ : Slot).contentIndex = slot.contentIndex)
  refine ⟨⟨item, hitem, ?_⟩, ?_, ?_⟩
  · rw [hslots, hset, if_pos hindex.symm]
  · intro other hother
    rw [hslots, hset, if_neg (hindex ▸ hother)]
  · rw [hslots, List.map_set]
    refine set_of_getElem? ?_
    rw [List.getElem?_map, hget]
    rfl

theorem Started.slotAt_eq {item : Item} (h : Started s index item events t) :
    slotAt t.slots index = some ⟨index, s.slots.length, item, []⟩ ∧
    (∀ other, other ≠ index → slotAt t.slots other = slotAt s.slots other) ∧
    t.slots.map Slot.contentIndex = withIndex s.slots index := by
  have happend : ∀ other, slotAt t.slots other =
      if other = index then some ⟨index, s.slots.length, item, []⟩ else slotAt s.slots other := by
    intro other
    rw [h.slots]
    exact slotAt_append h.new other
  refine ⟨?_, ?_, ?_⟩
  · rw [happend, if_pos rfl]
  · intro other hother
    rw [happend, if_neg hother]
  · unfold withIndex
    rw [h.slots, List.map_append, if_pos h.new]
    rfl

/-- What raising leaves: the events that were made are dropped. -/
structure Dropped (s : State) (dropped : List Event) (t : State) : Prop where
  emits : Emits s.ledger dropped t.ledger
  failureEmitted : t.failureEmitted = s.failureEmitted

theorem Encodes.dropped (h : Encodes s events t) : Dropped s events t :=
  ⟨h.emits, h.kept.failureEmitted⟩

theorem Dropped.none (s : State) : Dropped s [] s := ⟨.nil _, rfl⟩

theorem withIndex_old (h : slotAt s.slots index = some slot) :
    withIndex s.slots index = s.slots.map Slot.contentIndex := by
  unfold withIndex
  rw [h, if_neg nofun, List.append_nil]

theorem reconciled_kept (hs : s.Sound) (hslot : slotAt s.slots index = some slot)
    (hdone : slot.done = true) (hvalid : validateFinishedSlot slot block = .ok ()) :
    Reconciled s index block [] s := by
  refine ⟨.refl hs, fun _ _ => rfl, ⟨slot, hslot, ?_⟩, (withIndex_old hslot).symm, Or.inl rfl⟩
  rw [hslot]
  exact .kept slot hdone hvalid

theorem reconciled_finished (hs : s.Sound) (hslot : slotAt s.slots index = some slot)
    (hopen : slot.done = false) (htext : endingText slot block = some text)
    (h : Ended s slot text events t) : Reconciled s index block events t := by
  obtain ⟨⟨item, hitem, hthere⟩, hothers, hindexes⟩ := h.slotAt_eq hs hslot
  refine ⟨h.encodes, hothers, ⟨_, hthere, ?_⟩, ?_, Or.inr (h.said_eq hopen hslot hitem hthere)⟩
  · rw [hslot]
    exact .finished slot item text hopen htext hitem
  · rw [withIndex_old hslot, hindexes]

theorem reconciled_made {item : Item} (hitem : Begins block item) (h : Started s index item events t)
    (htext : endingText ⟨index, s.slots.length, item, []⟩ block = some text)
    (h' : Ended t ⟨index, s.slots.length, item, []⟩ text events' u) :
    Reconciled s index block (events ++ events') u := by
  obtain ⟨hthere, hothers, hindexes⟩ := h.slotAt_eq
  obtain ⟨⟨item', hitem', hthere'⟩, hothers', hindexes'⟩ := h'.slotAt_eq h.encodes.sound hthere
  have hopen : (⟨index, s.slots.length, item, []⟩ : Slot).done = false := hitem.open
  have hsaid := h'.said_eq hopen hthere hitem' hthere'
  rw [h.outputText] at hsaid
  refine ⟨h.encodes.trans h'.encodes, ?_, ⟨_, hthere', ?_⟩, ?_, Or.inr ⟨?_, hsaid.2⟩⟩
  · intro other hother
    rw [hothers' other hother, hothers other hother]
  · rw [h.new]
    exact .made index s.slots.length item item' text hitem htext hitem'
  · rw [hindexes', hindexes]
  · unfold State.saidAt
    rw [h.new, Option.elim_none]

theorem reconcileBlock_yields (hs : s.Sound) (index : ℕ) (block : Json) :
    Yields (reconcileBlock idFactory index block) s
      (fun events t => Reconciled s index block events t ∧
        (verdict s.slots index block = .silent ∧ events = [] ∨
          verdict s.slots index block = .emits ∧ events ≠ []))
      fun _ t => ∃ dropped, Dropped s dropped t ∧
        (verdict s.slots index block = .rejected ∧ dropped = [] ∨
          verdict s.slots index block = .broken ∧ dropped ≠ []) := by
  unfold reconcileBlock verdict
  refine Yields.bind (Yields.get ?_)
  cases hslot : slotAt s.slots index with
  | some slot =>
    refine Yields.bind (Yields.pure (Yields.bind (Yields.get ?_)))
    dsimp only
    rw [hslot]
    dsimp only
    cases hdone : slot.done with
    | true =>
      rw [if_pos rfl]
      cases hvalid : validateFinishedSlot slot block with
      | ok =>
        exact ⟨reconciled_kept hs hslot hdone hvalid, Or.inl ⟨rfl, rfl⟩⟩
      | error failure => exact ⟨[], .none s, Or.inl ⟨rfl, rfl⟩⟩
    | false =>
      rw [if_neg nofun]
      refine Yields.bind ((endBlock_yields hs hslot hdone block).weaken ?_ ?_)
      · rintro events t ⟨text, htext, hended⟩
        refine Yields.pure ⟨reconciled_finished hs hslot hdone htext hended,
          Or.inr ⟨?_, hended.nonempty⟩⟩
        rw [htext]
        rfl
      · rintro _ _ ⟨rfl, hnone⟩
        refine ⟨[], .none _, Or.inl ⟨?_, rfl⟩⟩
        rw [hnone]
        rfl
  | none =>
    refine Yields.bind ((startBlock_yields hs hslot block).weaken ?_ ?_)
    · rintro events t ⟨item, hbegins, hstartable, hstarted⟩
      have hthere := hstarted.slotAt_eq.1
      have hopen : (⟨index, s.slots.length, item, []⟩ : Slot).done = false := hbegins.open
      have hendable : (endingText ⟨index, s.slots.length, item, []⟩ block).isSome =
          endable block item.kind :=
        endingText_begun hbegins
      refine Yields.bind (Yields.get ?_)
      dsimp only
      rw [hthere]
      dsimp only
      rw [hopen, if_neg nofun, hbegins.kind]
      dsimp only
      rw [hstartable, if_pos rfl, ← hendable]
      refine Yields.bind ((endBlock_yields hstarted.encodes.sound hthere hopen block).weaken ?_ ?_)
      · rintro events' u ⟨text, htext, hended⟩
        refine Yields.pure ⟨reconciled_made hbegins hstarted htext hended, Or.inr ⟨?_, ?_⟩⟩
        · rw [htext]
          rfl
        · exact List.append_ne_nil_of_left_ne_nil hstarted.nonempty _
      · rintro _ _ ⟨rfl, hnone⟩
        refine ⟨events, hstarted.encodes.dropped, Or.inr ⟨?_, hstarted.nonempty⟩⟩
        rw [hnone]
        rfl
    · rintro _ _ ⟨rfl, hinvalid⟩
      refine ⟨[], .none _, Or.inl ⟨?_, rfl⟩⟩
      dsimp only
      split
      · rename_i kind hkind
        rw [hinvalid kind hkind, if_neg nofun]
      · rfl

end Cyclo.OpenAi
