import Cyclo.OpenAi.Protocol

/-! What the methods of the encoder emit: they follow the protocol, and one that raises changes
nothing. -/
namespace Cyclo.OpenAi
open Js Process Process.Stateful

variable {idFactory : ℕ → Str → Str} {s t u : State} {index : ℕ} {block : Option Json} {slot : Slot}
  {events events' : List Event}

def Slot.entry (slot : Slot) : Entry :=
  ⟨slot.item.id, slot.buffer, if slot.done then .done else .opened⟩

def State.ledger (s : State) : Ledger := ⟨s.sequence, s.slots.map Slot.entry⟩

/-- Slots are at their output index, and no two have one content index. -/
structure State.Sound (s : State) : Prop where
  position : ∀ (k : ℕ) (slot : Slot), s.slots[k]? = some slot → slot.outputIndex = k
  distinct : (s.slots.map Slot.contentIndex).Nodup
  text : ∀ slot ∈ s.slots, ∀ text ∈ slot.item.text, text = slot.buffer

theorem slotAt_mem {slots : List Slot} (h : slotAt slots index = some slot) :
    slot ∈ slots ∧ slot.contentIndex = index := by
  unfold slotAt at h
  have hfound := List.find?_some h
  exact ⟨List.mem_of_find?_eq_some h, of_decide_eq_true hfound⟩

theorem State.Sound.get (hs : s.Sound) (h : slotAt s.slots index = some slot) :
    s.slots[slot.outputIndex]? = some slot := by
  obtain ⟨k, hk⟩ := List.mem_iff_getElem?.mp (slotAt_mem h).1
  rw [hs.position k slot hk]
  exact hk

theorem slotAt_none_iff {slots : List Slot} :
    slotAt slots index = none ↔ index ∉ slots.map Slot.contentIndex := by
  unfold slotAt
  rw [List.find?_eq_none, List.mem_map]
  constructor
  · rintro h ⟨slot, hslot, rfl⟩
    exact h slot hslot (decide_eq_true rfl)
  · intro h slot hslot hsame
    exact h ⟨slot, hslot, of_decide_eq_true hsame⟩

theorem slotAt_append {slots : List Slot} (hnew : slotAt slots slot.contentIndex = none) (other : ℕ) :
    slotAt (slots ++ [slot]) other =
      if other = slot.contentIndex then some slot else slotAt slots other := by
  unfold slotAt at hnew ⊢
  rw [List.find?_append]
  by_cases hother : other = slot.contentIndex
  · rw [if_pos hother, hother, hnew, List.find?_singleton, if_pos (decide_eq_true rfl)]
    rfl
  · rw [if_neg hother, List.find?_singleton, if_neg, Option.or_none]
    rw [decide_eq_true_iff]
    exact fun hsame => hother hsame.symm

/-- A slot that is replaced by one of the same content. -/
theorem slotAt_set {slots : List Slot} {slot' : Slot} {k : ℕ}
    (hdistinct : (slots.map Slot.contentIndex).Nodup) (hslot : slots[k]? = some slot)
    (hsame : slot'.contentIndex = slot.contentIndex) (other : ℕ) :
    slotAt (slots.set k slot') other =
      if other = slot.contentIndex then some slot' else slotAt slots other := by
  unfold slotAt
  induction slots generalizing k with
  | nil => cases hslot
  | cons first rest ih =>
    rw [List.map_cons, List.nodup_cons] at hdistinct
    cases k with
    | zero =>
      have hfirst : first = slot := Option.some.inj hslot
      subst hfirst
      rw [List.set_cons_zero, List.find?_cons, List.find?_cons, hsame]
      by_cases hother : first.contentIndex = other
      · rw [decide_eq_true hother, if_pos hother.symm]
      · rw [decide_eq_false hother, if_neg fun h => hother h.symm]
    | succ k =>
      have hmem : slot ∈ rest := List.mem_of_getElem? hslot
      have hfirst : first.contentIndex ≠ slot.contentIndex := by
        intro h
        exact hdistinct.1 (List.mem_map.mpr ⟨slot, hmem, h.symm⟩)
      rw [List.set_cons_succ, List.find?_cons, List.find?_cons]
      by_cases hother : first.contentIndex = other
      · rw [decide_eq_true hother, if_neg fun h => hfirst (hother.trans h)]
      · rw [decide_eq_false hother]
        exact ih hdistinct.2 hslot

/-- Nothing but the items, the numbers and the ids has changed. -/
structure Kept (s t : State) : Prop where
  includeEncryptedReasoning : t.includeEncryptedReasoning = s.includeEncryptedReasoning
  started : t.started = s.started
  terminal : t.terminal = s.terminal
  failureEmitted : t.failureEmitted = s.failureEmitted

theorem Kept.trans (h : Kept s t) (h' : Kept t u) : Kept s u :=
  ⟨h'.includeEncryptedReasoning.trans h.includeEncryptedReasoning, h'.started.trans h.started,
    h'.terminal.trans h.terminal, h'.failureEmitted.trans h.failureEmitted⟩

/-- The text of a message that is done. -/
def Body.spoken : Body → Str
  | .itemDone _ (.message _ _ (some text)) => text
  | _ => []

/-- The texts of the messages that are done, one after the other. -/
def spokenIn (events : List Event) : Str := events.flatMap fun event => event.body.spoken

theorem spokenIn_append (events events' : List Event) :
    spokenIn (events ++ events') = spokenIn events ++ spokenIn events' := List.flatMap_append

structure Encodes (s : State) (events : List Event) (t : State) : Prop where
  emits : Emits s.ledger events t.ledger
  sound : t.Sound
  kept : Kept s t
  outputText : t.outputText = s.outputText ++ spokenIn events

theorem Encodes.refl (hs : s.Sound) : Encodes s [] s :=
  ⟨.nil _, hs, ⟨rfl, rfl, rfl, rfl⟩, (List.append_nil _).symm⟩

theorem Encodes.trans (h : Encodes s events t) (h' : Encodes t events' u) :
    Encodes s (events ++ events') u :=
  ⟨h.emits.append h'.emits, h'.sound, h.kept.trans h'.kept, by
    rw [h'.outputText, h.outputText, spokenIn_append, List.append_assoc]⟩

/-- A slot is new: it is at the end, with an item that is announced. -/
structure Started (s : State) (index : ℕ) (item : Item) (events : List Event) (t : State) : Prop where
  new : slotAt s.slots index = none
  slots : t.slots = s.slots ++ [⟨index, s.slots.length, item, []⟩]
  outputText : t.outputText = s.outputText
  nonempty : events ≠ []
  encodes : Encodes s events t

theorem sound_append {item : Item} (hs : s.Sound) (hnew : slotAt s.slots index = none)
    (hitem : item.text = none) (hslots : t.slots = s.slots ++ [⟨index, s.slots.length, item, []⟩]) :
    t.Sound := by
  constructor
  · intro k slot hslot
    rw [hslots] at hslot
    rcases Nat.lt_or_ge k s.slots.length with hk | hk
    · rw [List.getElem?_append_left hk] at hslot
      exact hs.position k slot hslot
    · rw [List.getElem?_append_right hk] at hslot
      have hlast : k - s.slots.length = 0 := by
        have hlt := (List.getElem?_eq_some_iff.mp hslot).1
        rw [List.length_singleton] at hlt
        omega
      rw [hlast] at hslot
      cases hslot
      dsimp only
      omega
  · rw [hslots, List.map_append, List.nodup_append]
    refine ⟨hs.distinct, List.nodup_singleton _, ?_⟩
    intro i hi j hj
    rw [List.map_singleton, List.mem_singleton] at hj
    intro hsame
    have hindex : i = index := hsame.trans hj
    rw [hindex] at hi
    exact slotAt_none_iff.mp hnew hi
  · rw [hslots]
    intro slot hslot text htext
    rcases List.mem_append.mp hslot with hslot | hslot
    · exact hs.text slot hslot text htext
    · rw [List.mem_singleton] at hslot
      rw [hslot, hitem] at htext
      cases htext

theorem sound_set {slot' : Slot} {k : ℕ} (hs : s.Sound) (hslot : s.slots[k]? = some slot)
    (hcontent : slot'.contentIndex = slot.contentIndex)
    (houtput : slot'.outputIndex = slot.outputIndex)
    (htext : ∀ text ∈ slot'.item.text, text = slot'.buffer) (hslots : t.slots = s.slots.set k slot') :
    t.Sound := by
  constructor
  · intro j other hother
    rw [hslots] at hother
    by_cases hj : k = j
    · subst hj
      rw [List.getElem?_set_self (List.getElem?_eq_some_iff.mp hslot).1] at hother
      cases hother
      rw [houtput]
      exact hs.position k slot hslot
    · rw [List.getElem?_set_ne hj] at hother
      exact hs.position j other hother
  · have hsame : (s.slots.set k slot').map Slot.contentIndex = s.slots.map Slot.contentIndex := by
      rw [List.map_set, hcontent]
      have hhere : (s.slots.map Slot.contentIndex)[k]? = some slot.contentIndex := by
        rw [List.getElem?_map, hslot]
        rfl
      refine List.ext_getElem? fun j => ?_
      by_cases hj : k = j
      · subst hj
        rw [List.getElem?_set_self (List.getElem?_eq_some_iff.mp hhere).1, hhere]
      · rw [List.getElem?_set_ne hj]
    rw [hslots, hsame]
    exact hs.distinct
  · rw [hslots]
    intro other hother
    rcases List.mem_or_eq_of_mem_set hother with hmem | rfl
    · exact hs.text other hmem
    · exact htext

theorem Item.completed_eq (item : Item) : item.completed = item.text.isSome := by
  cases item <;> rfl

theorem entry_opened (hopen : slot.done = false) :
    slot.entry = ⟨slot.item.id, slot.buffer, .opened⟩ := by
  unfold Slot.entry
  rw [hopen]
  rfl

theorem entry_done (hdone : slot.done = true) : slot.entry = ⟨slot.item.id, slot.buffer, .done⟩ := by
  unfold Slot.entry
  rw [hdone]
  rfl

theorem emits_announce (l : Ledger) (item : Item) :
    Emits l [⟨.itemAdded l.items.length item, l.sequence⟩]
      ⟨l.sequence + 1, l.items ++ [⟨item.id, [], .opened⟩]⟩ := by
  have hnone : l.items[l.items.length]? = none := List.getElem?_eq_none le_rfl
  have hput : ∀ entry, put l.items l.items.length entry = l.items ++ [entry] :=
    fun _ => if_neg (lt_irrefl _)
  refine .cons le_rfl (hnone ▸ Step.announce item) ?_
  rw [hput]
  exact .nil _

theorem emits_step {l : Ledger} {body : Body} {entry entry' : Entry}
    (hentry : l.items[index]? = some entry) (hstep : Step index (some entry) body entry') :
    Emits l [⟨body, l.sequence⟩] ⟨l.sequence + 1, l.items.set index entry'⟩ := by
  have hindex := (List.getElem?_eq_some_iff.mp hentry).1
  have hput : put l.items index entry' = l.items.set index entry' := if_pos hindex
  refine .cons hindex.le (hentry ▸ hstep) ?_
  rw [hput]
  exact .nil _

/-- A first part of an item that was announced. -/
theorem emits_part (items : List Entry) (n : ℕ) (id : Json) {p : Progress} (hfinal : p.final = none)
    (hdelta : p.delta = []) :
    Emits ⟨n, items ++ [⟨id, [], .opened⟩]⟩ [⟨.progress items.length id p, n⟩]
      ⟨n + 1, items ++ [⟨id, [], .opened⟩]⟩ := by
  have hhere : (items ++ [(⟨id, [], .opened⟩ : Entry)])[items.length]? = some ⟨id, [], .opened⟩ :=
    List.getElem?_concat_length
  have hset : (items ++ [(⟨id, [], .opened⟩ : Entry)]).set items.length ⟨id, [] ++ p.delta, .opened⟩ =
      items ++ [⟨id, [], .opened⟩] := by
    rw [hdelta, List.set_append_right _ _ le_rfl, Nat.sub_self]
    rfl
  have hstep := emits_step (l := ⟨n, items ++ [⟨id, [], .opened⟩]⟩) hhere (Step.extend id [] p hfinal)
  dsimp only at hstep
  rw [hset] at hstep
  exact hstep

/-- An item is announced, and a first part of it too if it has parts. -/
theorem started_of {item : Item} {progress : Option Progress} (hs : s.Sound)
    (hnew : slotAt s.slots index = none) (hitem : item.text = none)
    (hprogress : ∀ p ∈ progress, p.final = none ∧ p.delta = [])
    (hevents : events = ⟨.itemAdded s.slots.length item, s.sequence⟩ ::
      progress.toList.map fun p => ⟨.progress s.slots.length item.id p, s.sequence + 1⟩)
    (hslots : t.slots = s.slots ++ [⟨index, s.slots.length, item, []⟩])
    (hsequence : t.sequence = s.sequence + 1 + progress.toList.length)
    (houtput : t.outputText = s.outputText) (hkept : Kept s t) : Started s index item events t := by
  have hlength : s.ledger.items.length = s.slots.length := List.length_map _
  have hnotDone : (⟨index, s.slots.length, item, []⟩ : Slot).done = false := by
    unfold Slot.done
    rw [Item.completed_eq, hitem]
    rfl
  have hledger : t.ledger =
      ⟨s.sequence + 1 + progress.toList.length, s.ledger.items ++ [⟨item.id, [], .opened⟩]⟩ := by
    unfold State.ledger
    rw [hslots, hsequence, List.map_append, List.map_singleton, entry_opened hnotDone]
  have hfirst := emits_announce s.ledger item
  rw [hlength] at hfirst
  refine ⟨hnew, hslots, houtput, ?_, ?_, sound_append hs hnew hitem hslots, hkept, ?_⟩
  · rw [hevents]
    exact List.cons_ne_nil _ _
  · rw [hevents, hledger]
    cases progress with
    | none => exact hfirst
    | some p =>
      obtain ⟨hfinal, hdelta⟩ := hprogress p rfl
      have hsecond := emits_part s.ledger.items (s.sequence + 1) item.id hfinal hdelta
      rw [hlength] at hsecond
      exact hfirst.append hsecond
  · rw [hevents, houtput]
    cases progress <;> exact (List.append_nil _).symm

theorem requireNewSlot_yields {Q : Unit → State → Prop} {X : Failure → State → Prop}
    (hnew : slotAt s.slots index = none → Q () s) (hused : slotAt s.slots index ≠ none → ∀ e, X e s) :
    Yields (requireNewSlot index) s Q X := by
  unfold requireNewSlot
  refine Yields.bind (Yields.get ?_)
  cases hslot : slotAt s.slots index with
  | none => exact hnew hslot
  | some slot => exact hused (by rw [hslot]; nofun) _

theorem startText_yields (hs : s.Sound) (index : ℕ) (block : Option Json) :
    Yields (startText idFactory index block) s
      (fun events t => ∃ id phase, Started s index (.message id phase none) events t)
      fun _ t => t = s ∧ slotAt s.slots index ≠ none := by
  unfold startText
  refine Yields.bind (requireNewSlot_yields ?_ fun hused _ => ⟨rfl, hused⟩)
  intro hnew
  have hprogress : ∀ p ∈ some Progress.contentPartAdded, p.final = none ∧ p.delta = [] := by
    intro p hp
    cases hp
    exact ⟨rfl, rfl⟩
  dsimp only
  cases (textSignatureParts (fieldOf block "textSignature")).bind fun signature =>
      truthy (some (.str signature.id)) with
  | some id => exact ⟨id, _, started_of hs hnew rfl hprogress rfl rfl rfl rfl ⟨rfl, rfl, rfl, rfl⟩⟩
  | none => exact ⟨_, _, started_of hs hnew rfl hprogress rfl rfl rfl rfl ⟨rfl, rfl, rfl, rfl⟩⟩

theorem startThinking_yields (hs : s.Sound) (index : ℕ) (block : Option Json) :
    Yields (startThinking idFactory index block) s
      (fun events t => ∃ id encrypted, Started s index (.reasoning id encrypted none) events t)
      fun _ t => t = s ∧ slotAt s.slots index ≠ none := by
  unfold startThinking
  refine Yields.bind (requireNewSlot_yields ?_ fun hused _ => ⟨rfl, hused⟩)
  intro hnew
  have hprogress : ∀ p ∈ some Progress.summaryPartAdded, p.final = none ∧ p.delta = [] := by
    intro p hp
    cases hp
    exact ⟨rfl, rfl⟩
  dsimp only
  cases truthy ((reasoningSignature (fieldOf block "thinkingSignature")).bind
    ReasoningSignature.id) with
  | some id => exact ⟨id, _, started_of hs hnew rfl hprogress rfl rfl rfl rfl ⟨rfl, rfl, rfl, rfl⟩⟩
  | none => exact ⟨_, _, started_of hs hnew rfl hprogress rfl rfl rfl rfl ⟨rfl, rfl, rfl, rfl⟩⟩

theorem startToolCall_yields (hs : s.Sound) (index : ℕ) (block : Option Json) :
    Yields (startToolCall idFactory index block) s
      (fun events t => ∃ start id, toolStart block = .ok start ∧
        (∀ itemId ∈ start.ids.itemId, itemId = id) ∧
        Started s index (.functionCall id start.ids.callId start.name none) events t)
      fun _ t => t = s ∧ (slotAt s.slots index ≠ none ∨ ∀ start, toolStart block ≠ .ok start) := by
  unfold startToolCall
  refine Yields.bind (requireNewSlot_yields ?_ fun hused _ => ⟨rfl, Or.inl hused⟩)
  intro hnew
  cases hstart : toolStart block with
  | error failure => exact ⟨rfl, Or.inr nofun⟩
  | ok start =>
    have hprogress : ∀ p ∈ (none : Option Progress), p.final = none ∧ p.delta = [] := nofun
    cases hid : start.ids.itemId with
    | some id =>
      refine Yields.bind (Yields.pure ?_)
      dsimp only
      rw [hid]
      refine ⟨start, id, rfl, ?_, started_of hs hnew rfl hprogress rfl rfl rfl rfl
        ⟨rfl, rfl, rfl, rfl⟩⟩
      intro other hother
      exact Option.some.inj (hother.symm.trans hid)
    | none =>
      refine Yields.bind (Yields.pure ?_)
      dsimp only
      rw [hid]
      refine ⟨start, _, rfl, ?_, started_of hs hnew rfl hprogress rfl rfl rfl rfl ⟨rfl, rfl, rfl, rfl⟩⟩
      intro other hother
      cases hid.symm.trans hother

end Cyclo.OpenAi
