import Cyclo.OpenAi.Encoder

/-! What the methods that extend an item and end it emit. -/
namespace Cyclo.OpenAi
open Js Process Process.Stateful

variable {s t u : State} {index : ℕ} {block : Option Json} {slot slot' : Slot} {text : Str}
  {events events' : List Event} {X : Failure → State → Prop}

theorem set_of_getElem? {α : Type} {l : List α} {k : ℕ} {a : α} (h : l[k]? = some a) :
    l.set k a = l := by
  obtain ⟨hk, rfl⟩ := List.getElem?_eq_some_iff.mp h
  exact List.set_getElem_self hk

/-- Events with the numbers from one on. -/
def numberFrom (n : ℕ) : List Body → List Event
  | [] => []
  | body :: bodies => ⟨body, n⟩ :: numberFrom (n + 1) bodies

theorem emits_lives {l : Ledger} {entry entry' : Entry} {bodies : List Body}
    (hentry : l.items[index]? = some entry) (h : Lives index (some entry) bodies (some entry')) :
    Emits l (numberFrom l.sequence bodies) ⟨l.sequence + bodies.length, l.items.set index entry'⟩ := by
  generalize hstart : some entry = start at h
  generalize hend : some entry' = last at h
  induction h generalizing l entry with
  | nil =>
    subst hstart
    cases hend
    rw [set_of_getElem? hentry]
    exact .nil l
  | @cons _ body next rest _ hstep _ ih =>
    subst hstart
    have hindex := (List.getElem?_eq_some_iff.mp hentry).1
    have hnext : (l.items.set index next)[index]? = some next := List.getElem?_set_self hindex
    have hrest := ih (l := ⟨l.sequence + 1, l.items.set index next⟩) hnext rfl hend
    have hfirst := (emits_step hentry hstep).append hrest
    rw [List.set_set] at hfirst
    rw [List.length_cons, show l.sequence + (rest.length + 1) = l.sequence + 1 + rest.length by omega]
    exact hfirst

theorem spokenIn_numberFrom (n : ℕ) (bodies : List Body) :
    spokenIn (numberFrom n bodies) = bodies.flatMap Body.spoken := by
  induction bodies generalizing n with
  | nil => rfl
  | cons body bodies ih => exact congrArg (body.spoken ++ ·) (ih (n + 1))

/-- A slot that is written back with events of its item. -/
theorem encodes_set {bodies : List Body} (hs : s.Sound)
    (hslot : s.slots[slot.outputIndex]? = some slot)
    (hcontent : slot'.contentIndex = slot.contentIndex) (hindex : slot'.outputIndex = slot.outputIndex)
    (htext : ∀ text ∈ slot'.item.text, text = slot'.buffer)
    (hlives : Lives slot.outputIndex (some slot.entry) bodies (some slot'.entry))
    (hevents : events = numberFrom s.sequence bodies)
    (hslots : t.slots = s.slots.set slot.outputIndex slot')
    (hsequence : t.sequence = s.sequence + bodies.length) (hkept : Kept s t)
    (houtput : t.outputText = s.outputText ++ spokenIn events) : Encodes s events t := by
  have hentry : s.ledger.items[slot.outputIndex]? = some slot.entry := by
    unfold State.ledger
    rw [List.getElem?_map, hslot]
    rfl
  have hledger : t.ledger =
      ⟨s.ledger.sequence + bodies.length, s.ledger.items.set slot.outputIndex slot'.entry⟩ := by
    unfold State.ledger
    rw [hslots, hsequence, List.map_set]
  refine ⟨?_, sound_set hs hslot hcontent hindex htext hslots, hkept, houtput⟩
  rw [hevents, hledger]
  exact emits_lives hentry hlives

theorem deltaEvent_final (kind : SlotKind) (text : Str) : (deltaEvent kind text).final = none := by
  cases kind <;> rfl

theorem deltaEvent_delta (kind : SlotKind) (text : Str) : (deltaEvent kind text).delta = text := by
  cases kind <;> rfl

/-- A slot whose text has grown. -/
structure Extended (s : State) (slot slot' : Slot) (text : Str) (events : List Event) (t : State) :
    Prop where
  slot_eq : slot' = { slot with buffer := slot.buffer ++ text }
  slots : t.slots = s.slots.set slot.outputIndex slot'
  outputText : t.outputText = s.outputText
  encodes : Encodes s events t

theorem extend_yields (hs : s.Sound) (hslot : s.slots[slot.outputIndex]? = some slot)
    (hopen : slot.done = false) (text : Str) :
    Yields (extend slot text) s (fun r t => r.2 ≠ [] ∧ Extended s slot r.1 text r.2 t) X := by
  let extended : Slot := { slot with buffer := slot.buffer ++ text }
  have htext : ∀ old ∈ extended.item.text, old = extended.buffer := by
    intro old hold
    unfold Slot.done at hopen
    rw [Item.completed_eq, Option.isSome_eq_false_iff, Option.isNone_iff_eq_none] at hopen
    cases hopen.symm.trans hold
  have hextended : extended.entry = ⟨slot.item.id, slot.buffer ++ text, .opened⟩ := entry_opened hopen
  have hlives : Lives slot.outputIndex (some slot.entry)
      [.progress slot.outputIndex slot.item.id (deltaEvent slot.item.kind text)]
      (some extended.entry) := by
    rw [entry_opened hopen, hextended]
    have hstep := @Step.extend slot.outputIndex slot.item.id slot.buffer
      (deltaEvent slot.item.kind text) (deltaEvent_final _ _)
    rw [deltaEvent_delta] at hstep
    exact .cons hstep (.nil _)
  exact ⟨List.cons_ne_nil _ _, rfl, rfl, rfl,
    encodes_set hs hslot (rfl : extended.contentIndex = _) rfl htext hlives rfl rfl rfl
      ⟨rfl, rfl, rfl, rfl⟩ (List.append_nil _).symm⟩

theorem extendBy_yields (hs : s.Sound) (hslot : s.slots[slot.outputIndex]? = some slot)
    (hopen : slot.done = false) (text : Str) :
    Yields (extendBy slot text) s (fun r t => Extended s slot r.1 text r.2 t) X := by
  unfold extendBy
  split_ifs with htext
  · subst htext
    have hbuffer : slot = { slot with buffer := slot.buffer ++ [] } := by rw [List.append_nil]
    exact Yields.pure ⟨hbuffer, (set_of_getElem? hslot).symm, rfl, .refl hs⟩
  · exact (extend_yields hs hslot hopen text).weaken (fun _ _ h => h.2) fun _ _ h => h

theorem activeSlot_eq_ok {slots : List Slot} {kind : SlotKind} :
    activeSlot slots index kind = .ok slot ↔
      slotAt slots index = some slot ∧ slot.item.kind = kind ∧ slot.done = false := by
  unfold activeSlot
  cases hslot : slotAt slots index with
  | none => exact iff_of_false nofun nofun
  | some other =>
    dsimp only
    split_ifs with hactive
    · constructor
      · intro h
        cases h
        exact ⟨rfl, hactive⟩
      · intro h
        cases h.1
        rfl
    · refine iff_of_false nofun ?_
      intro h
      cases h.1
      exact hactive h.2

theorem requireSlot_yields {kind : SlotKind} {Q : Slot → State → Prop}
    (hok : ∀ slot, activeSlot s.slots index kind = .ok slot → Q slot s)
    (hmissing : (∀ slot, activeSlot s.slots index kind ≠ .ok slot) → ∀ e, X e s) :
    Yields (requireSlot index kind) s Q X := by
  unfold requireSlot
  refine Yields.bind (Yields.get ?_)
  cases hslot : activeSlot s.slots index kind with
  | ok slot => exact hok slot hslot
  | error failure => exact hmissing (by rw [hslot]; nofun) failure

theorem delta_yields (hs : s.Sound) (kind : SlotKind) (given : Option Json) :
    Yields (delta index kind given) s
      (fun events t => ∃ slot slot' text, slotAt s.slots index = some slot ∧ slot.done = false ∧
        events ≠ [] ∧ Extended s slot slot' text events t)
      fun _ t => t = s := by
  unfold delta
  refine Yields.bind (requireSlot_yields ?_ fun _ _ => rfl)
  intro slot hactive
  obtain ⟨hslot, -, hopen⟩ := activeSlot_eq_ok.mp hactive
  split
  · rename_i text
    refine Yields.bind ((extend_yields hs (hs.get hslot) hopen text).weaken ?_ fun _ _ h => h)
    intro r t h
    exact Yields.pure ⟨slot, r.1, text, hslot, hopen, h.1, h.2⟩
  · exact rfl

/-- An item with the text it has in the end. -/
inductive Item.Completes : Item → Str → Item → Prop
  | message id phase old phase' text :
      Completes (.message id phase old) text (.message id phase' (some text))
  | reasoning id encrypted old encrypted' text :
      Completes (.reasoning id encrypted old) text (.reasoning id encrypted' (some text))
  | functionCall id callId name old text :
      Completes (.functionCall id callId name old) text (.functionCall id callId name (some text))

namespace Item.Completes
variable {item item' : Item}

theorem id_eq (h : item.Completes text item') : item'.id = item.id := by cases h <;> rfl

theorem kind_eq (h : item.Completes text item') : item'.kind = item.kind := by cases h <;> rfl

theorem text_eq (h : item.Completes text item') : item'.text = some text := by cases h <;> rfl

end Item.Completes

/-- What the end of an item adds to the text of a response. -/
def spoken (kind : SlotKind) (text : Str) : Str := if kind = .text then text else []

theorem Item.Completes.spoken_eq {item item' : Item} (h : item.Completes text item') (index : ℕ) :
    (Body.itemDone index item').spoken = spoken item.kind text := by
  cases h <;> rfl

/-- A slot that is done with a text. -/
structure Ended (s : State) (slot : Slot) (text : Str) (events : List Event) (t : State) : Prop where
  slots : ∃ item, slot.item.Completes text item ∧
    t.slots = s.slots.set slot.outputIndex ⟨slot.contentIndex, slot.outputIndex, item, text⟩
  outputText : t.outputText = s.outputText ++ spoken slot.item.kind text
  nonempty : events ≠ []
  encodes : Encodes s events t

/-- A slot that is done with the text it has, by events that give that text. -/
theorem ended_of {item : Item} (first : Progress) (closings : List Progress) (hs : s.Sound)
    (hslot : s.slots[slot.outputIndex]? = some slot) (hopen : slot.done = false)
    (hitem : slot.item.Completes slot.buffer item)
    (hclosings : ∀ p ∈ first :: closings, p.final = some slot.buffer)
    (hevents : events = numberFrom s.sequence
      (((first :: closings).map (.progress slot.outputIndex item.id)) ++
        [.itemDone slot.outputIndex item]))
    (hslots : t.slots = s.slots.set slot.outputIndex { slot with item := item })
    (hsequence : t.sequence = s.sequence + (closings.length + 2))
    (houtput : t.outputText = s.outputText ++ spoken slot.item.kind slot.buffer) (hkept : Kept s t) :
    Ended s slot slot.buffer events t := by
  let finished : Slot := { slot with item := item }
  have hdone : finished.done = true := by
    show item.completed = true
    rw [Item.completed_eq, hitem.text_eq]
    rfl
  have hfinish : Lives slot.outputIndex (some ⟨item.id, slot.buffer, .closing⟩)
      [.itemDone slot.outputIndex item] (some finished.entry) := by
    rw [entry_done hdone]
    exact .cons (.finish slot.buffer item hitem.text_eq) (.nil _)
  have hclosing : ∀ (ps : List Progress), (∀ p ∈ ps, p.final = some slot.buffer) →
      Lives slot.outputIndex (some ⟨item.id, slot.buffer, .closing⟩)
        (ps.map (.progress slot.outputIndex item.id) ++ [.itemDone slot.outputIndex item])
        (some finished.entry) := by
    intro ps hps
    induction ps with
    | nil => exact hfinish
    | cons p ps ih =>
      obtain ⟨hp, hps⟩ := List.forall_mem_cons.mp hps
      exact .cons (.close item.id slot.buffer p hp nofun) (ih hps)
  have hlives : Lives slot.outputIndex (some slot.entry)
      ((first :: closings).map (.progress slot.outputIndex item.id) ++
        [.itemDone slot.outputIndex item])
      (some finished.entry) := by
    obtain ⟨hfirst, hrest⟩ := List.forall_mem_cons.mp hclosings
    rw [entry_opened hopen, ← hitem.id_eq]
    exact .cons (.close item.id slot.buffer first hfirst nofun) (hclosing closings hrest)
  have htext : ∀ text ∈ finished.item.text, text = finished.buffer := by
    intro text htext
    exact (Option.some.inj (hitem.text_eq.symm.trans htext)).symm
  have hlength : t.sequence = s.sequence +
      ((first :: closings).map (Body.progress slot.outputIndex item.id)
      ++ [Body.itemDone slot.outputIndex item]).length := by
    rw [hsequence, List.length_append, List.length_map, List.length_cons, List.length_singleton]
  refine ⟨⟨item, hitem, hslots⟩, houtput, ?_, ?_⟩
  · rw [hevents]
    exact List.cons_ne_nil _ _
  · refine encodes_set hs hslot (rfl : finished.contentIndex = _) rfl htext hlives hevents
      hslots hlength hkept ?_
    rw [houtput, hevents, spokenIn_numberFrom]
    have hquiet : ((first :: closings).map (Body.progress slot.outputIndex item.id)).flatMap
        Body.spoken = [] := by
      rw [List.flatMap_eq_nil_iff]
      intro body hbody
      obtain ⟨p, -, rfl⟩ := List.mem_map.mp hbody
      rfl
    rw [List.flatMap_append, hquiet, List.flatMap_singleton, hitem.spoken_eq, List.nil_append]

theorem Extended.get (h : Extended s slot slot' text events t)
    (hslot : s.slots[slot.outputIndex]? = some slot) (hopen : slot.done = false) :
    t.slots[slot'.outputIndex]? = some slot' ∧ slot'.done = false := by
  have hindex := (List.getElem?_eq_some_iff.mp hslot).1
  have hslot' := h.slot_eq
  subst hslot'
  refine ⟨?_, hopen⟩
  rw [h.slots]
  exact List.getElem?_set_self hindex

theorem Extended.ended (h : Extended s slot slot' text events t)
    (h' : Ended t slot' slot'.buffer events' u) :
    Ended s slot (slot.buffer ++ text) (events ++ events') u := by
  obtain ⟨item, hitem, hslots⟩ := h'.slots
  have hslot := h.slot_eq
  subst hslot
  refine ⟨⟨item, hitem, ?_⟩, ?_, ?_, h.encodes.trans h'.encodes⟩
  · rw [hslots, h.slots, List.set_set]
  · rw [h'.outputText, h.outputText]
  · exact List.append_ne_nil_of_right_ne_nil _ h'.nonempty

theorem finishText_yields (hs : s.Sound) (hslot : s.slots[slot.outputIndex]? = some slot)
    (hopen : slot.done = false) (hkind : slot.item.kind = .text) (block : Option Json) :
    Yields (finishText slot block) s (Ended s slot slot.buffer) X := by
  cases hitem : slot.item with
  | message id phase old =>
    have hclosings : ∀ p ∈ [Progress.textDone slot.buffer, .contentPartDone slot.buffer],
        p.final = some slot.buffer :=
      List.forall_mem_cons.mpr ⟨rfl, List.forall_mem_singleton.mpr rfl⟩
    have hspoken : spoken slot.item.kind slot.buffer = slot.buffer := if_pos hkind
    unfold finishText
    refine Yields.bind (Yields.modify (Yields.bind (Yields.modify ?_)))
    rw [hitem]
    refine ended_of _ _ hs hslot hopen ?_ hclosings rfl rfl rfl ?_ ⟨rfl, rfl, rfl, rfl⟩
    · rw [hitem]
      exact .message id phase old _ slot.buffer
    · rw [hspoken]
  | reasoning id encrypted old =>
    rw [hitem] at hkind
    cases hkind
  | functionCall id callId name old =>
    rw [hitem] at hkind
    cases hkind

theorem finishThinking_yields (hs : s.Sound) (hslot : s.slots[slot.outputIndex]? = some slot)
    (hopen : slot.done = false) (hkind : slot.item.kind = .thinking) (block : Option Json) :
    Yields (finishThinking slot block) s (Ended s slot slot.buffer) X := by
  cases hitem : slot.item with
  | message id phase old =>
    rw [hitem] at hkind
    cases hkind
  | reasoning id encrypted old =>
    have hclosings : ∀ p ∈ [Progress.summaryDone slot.buffer, .summaryPartDone slot.buffer],
        p.final = some slot.buffer :=
      List.forall_mem_cons.mpr ⟨rfl, List.forall_mem_singleton.mpr rfl⟩
    have hspoken : spoken slot.item.kind slot.buffer = [] := by
      rw [hkind]
      rfl
    unfold finishThinking
    refine Yields.bind (Yields.get (Yields.bind (Yields.modify ?_)))
    rw [hitem]
    refine ended_of _ _ hs hslot hopen ?_ hclosings rfl rfl rfl ?_ ⟨rfl, rfl, rfl, rfl⟩
    · rw [hitem]
      exact .reasoning id encrypted old _ slot.buffer
    · rw [hspoken, List.append_nil]
  | functionCall id callId name old =>
    rw [hitem] at hkind
    cases hkind

theorem startsWith_append_drop {text buffer : Str} (h : Str.startsWith text buffer = true) :
    buffer ++ text.drop buffer.length = text := by
  obtain ⟨rest, rfl⟩ := Str.startsWith_iff.mp h
  rw [List.drop_left]

theorem missing_eq_ok {content : Option Json} {rest : Str} (h : missing slot content = .ok rest) :
    content = some (.str (slot.buffer ++ rest)) := by
  unfold missing at h
  split at h
  · rename_i text
    split_ifs at h with hstart
    · cases h
      rw [startsWith_append_drop hstart]
    · cases h
  · cases h

theorem missing_eq_error {content : Option Json} {failure : Failure}
    (h : missing slot content = .error failure) :
    ∀ text, content = some (.str text) → Str.startsWith text slot.buffer = false := by
  rintro text rfl
  unfold missing at h
  dsimp only at h
  split_ifs at h with hstart
  exact Bool.eq_false_iff.mpr hstart

theorem endText_yields (hs : s.Sound) (index : ℕ) (content block : Option Json) :
    Yields (endText index content block) s
      (fun events t => ∃ slot text, activeSlot s.slots index .text = .ok slot ∧
        content = some (.str text) ∧ Str.startsWith text slot.buffer = true ∧
        Ended s slot text events t)
      fun _ t => t = s ∧ ∀ slot, activeSlot s.slots index .text = .ok slot →
        ∀ text, content = some (.str text) → Str.startsWith text slot.buffer = false := by
  unfold endText
  refine Yields.bind (requireSlot_yields ?_ ?_)
  · intro slot hactive
    obtain ⟨hslot, hkind, hopen⟩ := activeSlot_eq_ok.mp hactive
    have hget := hs.get hslot
    cases hmissing : missing slot content with
    | error failure =>
      refine ⟨rfl, ?_⟩
      intro other hother
      cases hactive.symm.trans hother
      exact missing_eq_error hmissing
    | ok rest =>
      refine Yields.bind (Yields.pure (Yields.bind
        ((extendBy_yields hs hget hopen rest).weaken ?_ fun _ _ h => h)))
      intro r t hextended
      obtain ⟨hget', hopen'⟩ := hextended.get hget hopen
      have hkind' : r.1.item.kind = .text := by
        rw [hextended.slot_eq]
        exact hkind
      have hsound := hextended.encodes.sound
      refine Yields.bind ((finishText_yields hsound hget' hopen' hkind' block).weaken
        ?_ fun _ _ h => h)
      intro events u hended
      exact ⟨slot, slot.buffer ++ rest, hactive, missing_eq_ok hmissing,
        Str.startsWith_iff.mpr (List.prefix_append _ _), hextended.ended hended⟩
  · intro hinactive _
    exact ⟨rfl, fun slot hactive => absurd hactive (hinactive slot)⟩

theorem endThinking_yields (hs : s.Sound) (index : ℕ) (content block : Option Json) :
    Yields (endThinking index content block) s
      (fun events t => ∃ slot text, activeSlot s.slots index .thinking = .ok slot ∧
        content = some (.str text) ∧ Str.startsWith text slot.buffer = true ∧
        Ended s slot text events t)
      fun _ t => t = s ∧ ∀ slot, activeSlot s.slots index .thinking = .ok slot →
        ∀ text, content = some (.str text) → Str.startsWith text slot.buffer = false := by
  unfold endThinking
  refine Yields.bind (requireSlot_yields ?_ ?_)
  · intro slot hactive
    obtain ⟨hslot, hkind, hopen⟩ := activeSlot_eq_ok.mp hactive
    have hget := hs.get hslot
    cases hmissing : missing slot content with
    | error failure =>
      refine ⟨rfl, ?_⟩
      intro other hother
      cases hactive.symm.trans hother
      exact missing_eq_error hmissing
    | ok rest =>
      refine Yields.bind (Yields.pure (Yields.bind ((extendBy_yields hs hget hopen rest).weaken ?_
        fun _ _ h => h)))
      intro r t hextended
      obtain ⟨hget', hopen'⟩ := hextended.get hget hopen
      have hkind' : r.1.item.kind = .thinking := by
        rw [hextended.slot_eq]
        exact hkind
      have hsound := hextended.encodes.sound
      refine Yields.bind ((finishThinking_yields hsound hget' hopen' hkind' block).weaken
        ?_ fun _ _ h => h)
      intro events u hended
      exact ⟨slot, slot.buffer ++ rest, hactive, missing_eq_ok hmissing,
        Str.startsWith_iff.mpr (List.prefix_append _ _), hextended.ended hended⟩
  · intro hinactive _
    exact ⟨rfl, fun slot hactive => absurd hactive (hinactive slot)⟩

theorem toolArguments_startsWith {text : Str} (h : toolArguments slot block = .ok text) :
    Str.startsWith text slot.buffer = true := by
  unfold toolArguments at h
  split at h
  · split at h
    · cases h
    · dsimp only at h
      split_ifs at h with _ _ hstart
      · cases h
      · cases h
      · cases h
        exact hstart
      · cases h
  · cases h

theorem endToolCall_yields (hs : s.Sound) (index : ℕ) (block : Option Json) :
    Yields (endToolCall index block) s
      (fun events t => ∃ slot text, activeSlot s.slots index .toolCall = .ok slot ∧
        toolArguments slot block = .ok text ∧ Ended s slot text events t)
      fun _ t => t = s ∧ ∀ slot, activeSlot s.slots index .toolCall = .ok slot →
        ∀ text, toolArguments slot block ≠ .ok text := by
  unfold endToolCall
  refine Yields.bind (requireSlot_yields ?_ ?_)
  · intro slot hactive
    obtain ⟨hslot, hkind, hopen⟩ := activeSlot_eq_ok.mp hactive
    have hget := hs.get hslot
    cases harguments : toolArguments slot block with
    | error failure =>
      refine ⟨rfl, ?_⟩
      intro other hother
      cases hactive.symm.trans hother
      rw [harguments]
      nofun
    | ok text =>
      have hbuffer := startsWith_append_drop (toolArguments_startsWith harguments)
      refine Yields.bind (Yields.pure (Yields.bind ((extendBy_yields hs hget hopen _).weaken ?_
        fun _ _ h => h)))
      intro r t hextended
      obtain ⟨hget', hopen'⟩ := hextended.get hget hopen
      have hslot' := hextended.slot_eq
      have hsame : r.1.buffer = text := by
        rw [hslot']
        exact hbuffer
      have hitem' : r.1.item = slot.item := by rw [hslot']
      have hsound := hextended.encodes.sound
      cases hitem : slot.item with
      | message id phase old =>
        rw [hitem] at hkind
        cases hkind
      | reasoning id encrypted old =>
        rw [hitem] at hkind
        cases hkind
      | functionCall id callId name old =>
        refine Yields.bind (Yields.modify ?_)
        have hended : ∀ events u, Ended t r.1 r.1.buffer events u →
            Ended s slot text (r.2 ++ events) u := by
          intro events u h
          have hboth := hextended.ended h
          rw [hbuffer] at hboth
          exact hboth
        rw [hitem', hitem]
        have hclosings : ∀ p ∈ [Progress.argumentsDone name text], p.final = some r.1.buffer :=
          List.forall_mem_singleton.mpr (congrArg some hsame.symm)
        have hspoken : spoken r.1.item.kind r.1.buffer = [] := by
          rw [hitem', hkind]
          rfl
        refine ⟨slot, text, hactive, harguments, hended _ _ ?_⟩
        refine ended_of _ _ hsound hget' hopen' ?_ hclosings rfl rfl rfl ?_ ⟨rfl, rfl, rfl, rfl⟩
        · rw [hitem', hitem, hsame]
          exact .functionCall id callId name old text
        · rw [hspoken, List.append_nil]
  · intro hinactive _
    exact ⟨rfl, fun slot hactive => absurd hactive (hinactive slot)⟩

end Cyclo.OpenAi
