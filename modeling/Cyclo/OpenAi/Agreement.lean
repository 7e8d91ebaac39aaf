import Cyclo.OpenAi.Representation
import Cyclo.OpenAi.WellFormed

/-! A completed response agrees with the last message of the provider, and with its own events. -/
namespace Cyclo.OpenAi
open Js Js.Json Process Process.Stateful

variable {idFactory : ℕ → Str → Str} {s t u : State} {index : ℕ} {slot : Slot}
  {events events' : List Event} {started started' : List ℕ} {bodies : List Body}

/-- What an event adds to the text of its item. -/
def Body.delta : Body → Str
  | .progress _ _ p => p.delta
  | _ => []

/-- The whole text of its item that an event gives. -/
def Body.final : Body → Option Str
  | .progress _ _ p => p.final
  | .itemDone _ item => item.text
  | _ => none

theorem Progress.delta_of_final {progress : Progress} {text : Str} (h : progress.final = some text) :
    progress.delta = [] := by
  cases progress <;> first | rfl | cases h

theorem Lives.closed_text {entry entry' : Entry} (h : Lives index (some entry) bodies (some entry'))
    (hclosed : entry.phase ≠ .opened) : entry'.text = entry.text := by
  generalize hstart : some entry = start at h
  generalize hend : some entry' = last at h
  induction h generalizing entry with
  | nil =>
    subst hstart
    cases hend
    rfl
  | cons hstep _ ih =>
    subst hstart
    cases hstep with
    | extend => exact absurd rfl hclosed
    | close id text => exact @ih ⟨id, text, .closing⟩ nofun rfl hend
    | finish text item => exact @ih ⟨item.id, text, .done⟩ nofun rfl hend

/-- The text of an item is that of its deltas, one after the other. -/
theorem Lives.text_eq {entry entry' : Entry} (h : Lives index (some entry) bodies (some entry')) :
    entry'.text = entry.text ++ bodies.flatMap Body.delta := by
  generalize hstart : some entry = start at h
  generalize hend : some entry' = last at h
  induction h generalizing entry with
  | nil =>
    subst hstart
    cases hend
    exact (List.append_nil _).symm
  | cons hstep _ ih =>
    subst hstart
    have hrest := ih rfl hend
    rw [hrest, List.flatMap_cons, ← List.append_assoc]
    congr 1
    cases hstep with
    | extend => rfl
    | close id text progress hfinal =>
      show text = text ++ progress.delta
      rw [Progress.delta_of_final hfinal, List.append_nil]
    | finish => exact (List.append_nil _).symm

/-- Every event that gives the whole text of an item gives the one that it has in the end. -/
theorem Lives.final_eq {entry entry' : Entry} (h : Lives index (some entry) bodies (some entry')) :
    ∀ body ∈ bodies, ∀ text ∈ body.final, text = entry'.text := by
  generalize hstart : some entry = start at h
  generalize hend : some entry' = last at h
  induction h generalizing entry with
  | nil => exact List.forall_mem_nil _
  | cons hstep hrest ih =>
    subst hstart
    subst hend
    refine List.forall_mem_cons.mpr ⟨?_, ih rfl rfl⟩
    intro text htext
    cases hstep with
    | extend id old progress hfinal => cases hfinal.symm.trans htext
    | close id old progress hfinal =>
      cases hfinal.symm.trans htext
      exact (hrest.closed_text nofun).symm
    | finish old item hitem =>
      cases hitem.symm.trans htext
      exact (hrest.closed_text nofun).symm

/-- An item that is done was done by an event with its id and its text. -/
theorem Lives.finished {entry entry' : Entry} (h : Lives index (some entry) bodies (some entry'))
    (hopen : entry.phase ≠ .done) (hdone : entry'.phase = .done) :
    ∃ item, .itemDone index item ∈ bodies ∧ item.id = entry'.id ∧ item.text = some entry'.text := by
  generalize hstart : some entry = start at h
  generalize hend : some entry' = last at h
  induction h generalizing entry with
  | nil =>
    subst hstart
    cases hend
    exact absurd hdone hopen
  | cons hstep hrest ih =>
    subst hstart
    subst hend
    cases hstep with
    | finish text item htext =>
      obtain ⟨-, hsame⟩ := hrest.of_done rfl
      cases hsame
      exact ⟨item, List.mem_cons_self, rfl, htext⟩
    | extend =>
      obtain ⟨item, hitem, hitem'⟩ := ih (by nofun) rfl rfl
      exact ⟨item, List.mem_cons_of_mem _ hitem, hitem'⟩
    | close =>
      obtain ⟨item, hitem, hitem'⟩ := ih (by nofun) rfl rfl
      exact ⟨item, List.mem_cons_of_mem _ hitem, hitem'⟩

/-- An item that an announcement opens and that is done in the end. -/
theorem Lives.whole {entry : Entry} (h : Lives index none bodies (some entry))
    (hdone : entry.phase = .done) : bodies.flatMap Body.delta = entry.text ∧
    (∀ body ∈ bodies, ∀ text ∈ body.final, text = entry.text) ∧
      ∃ item, .itemDone index item ∈ bodies ∧ item.id = entry.id ∧ item.text = some entry.text := by
  cases h with
  | cons hstep hrest =>
    cases hstep with
    | announce item =>
      refine ⟨hrest.text_eq.symm, List.forall_mem_cons.mpr ⟨nofun, hrest.final_eq⟩, ?_⟩
      obtain ⟨finished, hmem, hsame⟩ := hrest.finished nofun hdone
      exact ⟨finished, List.mem_cons_of_mem _ hmem, hsame⟩

/-- What events of the provider have made, with the content indexes of the blocks that they start. -/
structure Advances (s : State) (started : List ℕ) (events : List Event) (t : State) : Prop where
  emits : Emits s.ledger events t.ledger
  goes : t.Open
  outputText : t.outputText = s.outputText ++ spokenIn events
  indexes : t.slots.map Slot.contentIndex = s.slots.map Slot.contentIndex ++ started

theorem Advances.nil (hs : s.Open) : Advances s [] [] s :=
  ⟨.nil _, hs, (List.append_nil _).symm, (List.append_nil _).symm⟩

theorem Advances.trans (h : Advances s started events t) (h' : Advances t started' events' u) :
    Advances s (started ++ started') (events ++ events') u := by
  refine ⟨h.emits.append h'.emits, h'.goes, ?_, ?_⟩
  · rw [h'.outputText, h.outputText, spokenIn_append, List.append_assoc]
  · rw [h'.indexes, h.indexes, List.append_assoc]

theorem Encodes.advances (hs : s.Open) (h : Encodes s events t)
    (hindexes : t.slots.map Slot.contentIndex = s.slots.map Slot.contentIndex ++ started) :
    Advances s started events t := ⟨h.emits, hs.of_encodes h, h.outputText, hindexes⟩

theorem Extended.advances {slot' : Slot} {text : Str} (hs : s.Open)
    (hslot : slotAt s.slots index = some slot)
    (h : Extended s slot slot' text events t) : Advances s [] events t := by
  refine h.encodes.advances hs ?_
  rw [h.slots, List.map_set, List.append_nil]
  refine set_of_getElem? ?_
  rw [List.getElem?_map, hs.sound.get hslot, h.slot_eq]
  rfl

theorem Ended.advances {text : Str} (hs : s.Open) (hslot : slotAt s.slots index = some slot)
    (h : Ended s slot text events t) : Advances s [] events t := by
  refine h.encodes.advances hs ?_
  rw [(h.slotAt_eq hs.sound hslot).2.2, List.append_nil]

theorem Started.advances {item : Item} (hs : s.Open) (h : Started s index item events t) :
    Advances s [index] events t := by
  refine h.encodes.advances hs ?_
  rw [h.slots, List.map_append]
  rfl

/-- The types of the events that start a block. -/
def startTypes : List Str := ["text_start", "thinking_start", "toolcall_start"].map lit

/-- The content index of the block that an event starts. -/
def startedBy (given : Json) : List ℕ :=
  match given.field (lit "type"), contentIndex given with
  | some (.str type), .ok index => if type ∈ startTypes then [index] else []
  | _, _ => []

theorem content_advances (hs : s.Open) (type : Str) (given : Json) (index : ℕ) :
    Yields (content idFactory type given index) s
      (Advances s (if type ∈ startTypes then [index] else [])) fun _ _ => True := by
  have hdelta : ∀ kind given, Yields (delta index kind given) s (Advances s []) fun _ _ => True := by
    intro kind given
    refine (delta_yields hs.sound kind given).weaken ?_ fun _ _ _ => trivial
    rintro events t ⟨slot, slot', text, hslot, -, -, h⟩
    exact h.advances hs hslot
  have hstart : type ∈ startTypes ↔ type = lit "text_start" ∨ type = lit "thinking_start" ∨
      type = lit "toolcall_start" := by
    unfold startTypes
    simp only [List.map_cons, List.map_nil, List.mem_cons, List.not_mem_nil, or_false]
  generalize hstarted : (if type ∈ startTypes then [index] else []) = started
  have hstarts : type ∈ startTypes → started = [index] := fun h => by rw [← hstarted, if_pos h]
  have hother : type ∉ startTypes → started = [] := fun h => by rw [← hstarted, if_neg h]
  unfold content
  dsimp only
  split_ifs with h₁ h₂ h₃ h₄ h₅ h₆ h₇ h₈
  · rw [hstarts (hstart.mpr (Or.inl h₁))]
    refine (startText_yields hs.sound index _).weaken ?_ fun _ _ _ => trivial
    rintro events t ⟨id, phase, h⟩
    exact h.advances hs
  · rw [hother (by rw [h₂]; decide)]
    exact hdelta .text _
  · rw [hother (by rw [h₃]; decide)]
    refine (endText_yields hs.sound index _ _).weaken ?_ fun _ _ _ => trivial
    rintro events t ⟨slot, text, hactive, -, -, h⟩
    exact h.advances hs (activeSlot_eq_ok.mp hactive).1
  · rw [hstarts (hstart.mpr (Or.inr (Or.inl h₄)))]
    refine (startThinking_yields hs.sound index _).weaken ?_ fun _ _ _ => trivial
    rintro events t ⟨id, encrypted, h⟩
    exact h.advances hs
  · rw [hother (by rw [h₅]; decide)]
    exact hdelta .thinking _
  · rw [hother (by rw [h₆]; decide)]
    refine (endThinking_yields hs.sound index _ _).weaken ?_ fun _ _ _ => trivial
    rintro events t ⟨slot, text, hactive, -, -, h⟩
    exact h.advances hs (activeSlot_eq_ok.mp hactive).1
  · rw [hstarts (hstart.mpr (Or.inr (Or.inr h₇)))]
    refine (startToolCall_yields hs.sound index _).weaken ?_ fun _ _ _ => trivial
    rintro events t ⟨start, id, -, -, h⟩
    exact h.advances hs
  · rw [hother (by rw [h₈]; decide)]
    exact hdelta .toolCall _
  · rw [hother fun h => (hstart.mp h).elim h₁ fun h => h.elim h₄ h₇]
    refine (endToolCall_yields hs.sound index _).weaken ?_ fun _ _ _ => trivial
    rintro events t ⟨slot, text, hactive, -, h⟩
    exact h.advances hs (activeSlot_eq_ok.mp hactive).1

/-- An event that is taken is the last one, or the state goes on. -/
theorem accept_advances (idFactory : ℕ → Str → Str) (hs : s.Open) (given : Json) :
    Yields (accept idFactory given) s
      (fun events t => t.terminal = false → Advances s (startedBy given) events t) fun _ _ =>
        True := by
  unfold accept
  refine Yields.bind (Yields.get ?_)
  rw [hs.terminal, if_neg Bool.false_ne_true]
  split
  · rename_i type htype
    have hstarted : ∀ index, contentIndex given = .ok index →
        startedBy given = if type ∈ startTypes then [index] else [] := by
      intro index hindex
      unfold startedBy
      rw [htype, hindex]
    by_cases hstart : type = lit "start"
    · have hnone : startedBy given = [] := by
        unfold startedBy
        rw [htype, hstart]
        cases contentIndex given with
        | error => rfl
        | ok index => exact if_neg (by decide)
      rw [if_pos hstart, hnone]
      split_ifs
      · trivial
      · exact fun _ => ⟨.nil _, ⟨⟨hs.sound.position, hs.sound.distinct, hs.sound.text⟩, rfl,
          hs.failureEmitted⟩, (List.append_nil _).symm, (List.append_nil _).symm⟩
    rw [if_neg hstart]
    by_cases hopened : s.started = true
    swap
    · rw [Bool.eq_false_iff.mpr hopened, Bool.not_false, if_pos rfl]
      trivial
    rw [hopened, Bool.not_true, if_neg Bool.false_ne_true]
    by_cases hdone : type = lit "done"
    · rw [if_pos hdone]
      refine (done_yields hs.sound hs.failureEmitted given).weaken ?_ fun _ _ _ => trivial
      rintro events t ⟨hterminal, -⟩ hgoes
      cases hterminal.symm.trans hgoes
    rw [if_neg hdone]
    by_cases herror : type = lit "error"
    · rw [if_pos herror]
      refine (error_yields hs.sound hs.failureEmitted given).weaken ?_ fun _ _ _ => trivial
      rintro events t ⟨hterminal, -⟩ hgoes
      cases hterminal.symm.trans hgoes
    rw [if_neg herror]
    split
    · refine Yields.bind ?_
      cases hindex : contentIndex given with
      | error failure => trivial
      | ok index =>
        rw [hstarted index hindex]
        exact Yields.pure ((content_advances hs type given index).weaken
          (fun _ _ h _ => h) fun _ _ h => h)
    · trivial
  · trivial

/-- A run whose last event ends it with a message that `reconcile` has accepted. -/
structure Finishes (s : State) (before : List Json) (message : Json) (response : Response)
    (events : List Event) : Prop where
  closed : ∃ streamed t kept u, Advances s (before.flatMap startedBy) streamed t ∧
    Accepted t message kept u ∧ Closed u (streamed ++ kept) response events

theorem failed_status {message : Str} (hs : s.failureEmitted = false) {event : Event}
    {response : Response} (hevent : event ∈ failed message s)
    (hbody : event.body = .ended response) : response.status = .failed := by
  have h := fail_yields (X := fun _ _ => False) hs message
  unfold Yields at h
  unfold failed at hevent
  rcases hrun : (fail message).run s with ⟨result, t⟩
  rw [hrun] at h hevent
  cases result with
  | ok events =>
    obtain ⟨-, last, hstatus, hclosed⟩ := h
    have hlast : event = ⟨.ended last, s.sequence⟩ := by
      rw [hclosed.events] at hevent
      exact List.mem_singleton.mp hevent
    rw [hlast] at hbody
    cases hbody
    exact hstatus
  | error failure => cases h

theorem Closed.response_eq {kept : List Event} {last response : Response} {event : Event}
    (h : Closed t kept last events) (hkept : ∀ event ∈ kept, event.body.isEnded = false)
    (hevent : event ∈ events) (hbody : event.body = .ended response) : last = response := by
  rw [h.events] at hevent
  rcases List.mem_append.mp hevent with hevent | hevent
  · have hended := hkept event hevent
    rw [hbody] at hended
    cases hended
  · cases List.mem_singleton.mp hevent
    cases hbody
    rfl

theorem Finishes.cons {given : Json} {before : List Json} {message : Json} {response : Response}
    (h : Advances s (startedBy given) events t) (h' : Finishes t before message response events') :
    Finishes s (given :: before) message response (events ++ events') := by
  obtain ⟨streamed, u, kept, v, hstreamed, haccepted, hclosed⟩ := h'
  refine ⟨events ++ streamed, u, kept, v, h.trans hstreamed, haccepted, ?_, hclosed.output,
    hclosed.outputText, hclosed.status⟩
  rw [hclosed.events, List.append_assoc, List.append_assoc, List.append_assoc]

/-- A run that ends with a response that has not failed ends with a done event. -/
theorem pump_finishes (idFactory : ℕ → Str → Str) (hs : s.Open) (ending : Ending)
    (given : List (Option Json)) {event : Event} {response : Response}
    (hevent : event ∈ pump idFactory ending s given)
    (hbody : event.body = .ended response) (hstatus : response.status ≠ .failed) :
    ∃ before last after message, given = before.map some ++ some last :: after ∧
      messageOf last = some message ∧
      Finishes s before message response (pump idFactory ending s given) := by
  induction given generalizing s with
  | nil =>
    unfold pump at hevent
    cases ending <;> exact absurd (failed_status hs.failureEmitted hevent hbody) hstatus
  | cons first rest ih =>
    cases first with
    | none => exact absurd (failed_status hs.failureEmitted hevent hbody) hstatus
    | some first =>
      have h := accept_yields idFactory hs first
      have h' := accept_advances idFactory hs first
      unfold Yields at h h'
      unfold pump at hevent ⊢
      rcases hrun : (accept idFactory first).run s with ⟨result, t⟩
      rw [hrun] at h h' hevent
      cases result with
      | error failure =>
        obtain ⟨dropped, hdropped, -⟩ := h
        have hfail : t.failureEmitted = false := hdropped.failureEmitted.trans hs.failureEmitted
        exact absurd (failed_status hfail hevent hbody) hstatus
      | ok events =>
        obtain ⟨-, htakes⟩ := h
        dsimp only at hevent h' ⊢
        cases htakes with
        | goes hopen hemits =>
          rw [hopen.terminal, if_neg Bool.false_ne_true] at hevent
          have hadvances := h' hopen.terminal
          have hrest : event ∈ pump idFactory ending t rest := by
            rcases List.mem_append.mp hevent with hevent | hevent
            · have hended := hemits.not_ended event hevent
              rw [hbody] at hended
              cases hended
            · exact hevent
          obtain ⟨before, last, after, message, hgiven, hmessage, hfinishes⟩ := ih hopen hrest
          refine ⟨first :: before, last, after, message, ?_, hmessage, ?_⟩
          · rw [hgiven]
            rfl
          · rw [hopen.terminal, if_neg Bool.false_ne_true]
            exact .cons hadvances hfinishes
        | ends message last hterminal hconcluded hreason =>
          obtain ⟨kept, u, haccepted, hclosed⟩ := hconcluded
          rw [hterminal, if_pos rfl] at hevent ⊢
          have hlast := hclosed.response_eq haccepted.blocks.encodes.emits.not_ended hevent hbody
          subst hlast
          refine ⟨[], first, rest, message, rfl, hreason.resolve_left hstatus, ?_⟩
          exact ⟨[], s, kept, u, .nil hs, haccepted, hclosed⟩

/-- The content indexes in the order in which a response has their blocks: those that are streamed
first, in the order of their starts, then the others. -/
def outputOrder (started : List ℕ) (length : ℕ) : List ℕ :=
  started ++ (List.range length).filter (· ∉ started)

/-- A response has every block of a message once, and says of it what the events have said. -/
structure Agrees (started : List ℕ) (message : Json) (response : Response) (events : List Event) :
    Prop where
  once : (outputOrder started (contentOf message).length).Perm (List.range (contentOf message).length)
  blocks : List.Forall₂ (fun index item => ∃ block, (contentOf message)[index]? = some block ∧
    Represents block item) (outputOrder started (contentOf message).length) response.output
  texts : ∀ index item, response.output[index]? = some item → ∃ text, item.text = some text ∧
    (bodiesAt index events).flatMap Body.delta = text ∧
    (∀ body ∈ bodiesAt index events, ∀ whole ∈ body.final, whole = text) ∧
    ∃ finished, .itemDone index finished ∈ events.map Event.body ∧ finished.id = item.id ∧
      finished.text = some text
  outputText : response.outputText = spokenIn events

/-- After an accepted message every slot is done and has its block. -/
theorem Accepted.settles {message : Json} (hs : s.Sound) (h : Accepted s message events t)
    (hslot : slot ∈ t.slots) : slot.done = true ∧ ∃ block before,
    (contentOf message)[slot.contentIndex]? = some block ∧
      Settles block before slot := by
  have hall : ¬(t.slots.length ≠ (contentOf message).length ∨
      (t.slots.any fun slot => !slot.done) = true) := by
    rw [h.blocks.omits_iff hs, h.complete]
    nofun
  have hthere := slotAt_of_mem h.blocks.encodes.sound.distinct hslot
  have hindex : slot.contentIndex < (contentOf message).length := by
    by_contra hout
    have hold := h.blocks.others slot.contentIndex (Or.inr (by omega))
    rw [hthere] at hold
    have homits : omits s.slots (contentOf message) = true :=
      List.any_eq_true.mpr ⟨slot, (slotAt_mem hold.symm).1, decide_eq_true (by omega)⟩
    rw [h.complete] at homits
    cases homits
  obtain ⟨other, hother, hsettles⟩ := h.blocks.settles slot.contentIndex _
    (List.getElem?_eq_getElem hindex)
  rw [Nat.zero_add, hthere] at hother
  cases hother
  exact ⟨hsettles.done, _, _, List.getElem?_eq_getElem hindex, hsettles⟩

/-- The content indexes of the slots after an accepted message. -/
theorem Accepted.indexes {message : Json} (h : Accepted s message events t) :
    t.slots.map Slot.contentIndex =
      outputOrder (s.slots.map Slot.contentIndex) (contentOf message).length := by
  rw [h.blocks.indexes]
  unfold outputOrder
  rw [List.range_eq_range']
  refine congrArg _ (List.filter_congr fun k _ => ?_)
  rw [Bool.eq_iff_iff, Option.isNone_iff_eq_none, slotAt_none_iff, decide_eq_true_iff]

theorem Accepted.once {message : Json} (hs : s.Sound) (h : Accepted s message events t) :
    (t.slots.map Slot.contentIndex).Perm (List.range (contentOf message).length) := by
  refine (List.perm_ext_iff_of_nodup h.blocks.encodes.sound.distinct List.nodup_range).mpr fun k => ?_
  rw [List.mem_range]
  constructor
  · intro hk
    obtain ⟨slot, hslot, rfl⟩ := List.mem_map.mp hk
    obtain ⟨-, block, -, hblock, -⟩ := h.settles hs hslot
    exact (List.getElem?_eq_some_iff.mp hblock).1
  · intro hk
    obtain ⟨slot, hslot, -⟩ := h.blocks.settles k _ (List.getElem?_eq_getElem hk)
    rw [Nat.zero_add] at hslot
    obtain ⟨hmem, hindex⟩ := slotAt_mem hslot
    exact List.mem_map.mpr ⟨slot, hmem, hindex⟩

theorem properItems_iff {values : List Json} : ProperItems values ↔
    ∀ value ∈ values, value.Proper := by
  induction values with
  | nil => exact iff_of_true trivial (List.forall_mem_nil _)
  | cons value values ih => rw [List.forall_mem_cons, ← ih]; rfl

theorem proper_content {given message block : Json} (hgiven : given.Proper)
    (hmessage : messageOf given = some message)
    (hblock : block ∈ contentOf message) : block.Proper := by
  have hproper : message.Proper := by
    unfold messageOf at hmessage
    split at hmessage
    · rename_i fields hfield
      cases hmessage
      exact proper_field hgiven hfield
    · cases hmessage
  unfold contentOf at hblock
  split at hblock
  · rename_i content hcontent
    exact properItems_iff.mp (proper_field hproper hcontent) block hblock
  · cases hblock

theorem spokenIn_framed (created inProgress : Response) (kept : List Event)
    (response : Response) (n : ℕ) : spokenIn (framed created inProgress kept response n) =
      spokenIn kept := by
  show spokenIn (kept ++ [_]) = _
  rw [spokenIn_append]
  exact List.append_nil _

theorem Finishes.agrees {document last message : Json} {before : List Json}
    {response created inProgress : Response}
    (hproper : last.Proper) (hmessage : messageOf last = some message)
    (h : Finishes (State.opened document) before message response events) :
    Agrees (before.flatMap startedBy) message response
      (⟨.created created, 0⟩ :: ⟨.inProgress inProgress, 1⟩ :: events) := by
  obtain ⟨streamed, t, kept, u, hstreamed, haccepted, hclosed⟩ := h
  have hs := hstreamed.goes.sound
  have hsound := haccepted.blocks.encodes.sound
  have hstarted : t.slots.map Slot.contentIndex = before.flatMap startedBy := hstreamed.indexes
  have horder := haccepted.indexes
  rw [hstarted] at horder
  have hemits := hstreamed.emits.append haccepted.blocks.encodes.emits
  have hstream : (⟨.created created, 0⟩ :: ⟨.inProgress inProgress, 1⟩ :: events : List Event) =
      framed created inProgress (streamed ++ kept) response u.sequence :=
    congrArg (fun events => _ :: _ :: events) hclosed.events
  rw [hstream]
  refine ⟨?_, ?_, ?_, ?_⟩
  · rw [← horder]
    exact haccepted.once hs
  · rw [← horder, hclosed.output, List.forall₂_map_left_iff, List.forall₂_map_right_iff,
      List.forall₂_same]
    intro slot hslot
    obtain ⟨-, block, before, hblock, hsettles⟩ := haccepted.settles hs hslot
    have hblockProper := proper_content hproper hmessage (List.mem_of_getElem? hblock)
    exact ⟨block, hblock, hsettles.represents hblockProper (hsound.text slot hslot)⟩
  · intro index item hitem
    rw [hclosed.output, List.getElem?_map, Option.map_eq_some_iff] at hitem
    obtain ⟨slot, hslot, rfl⟩ := hitem
    obtain ⟨hdone, -⟩ := haccepted.settles hs (List.mem_of_getElem? hslot)
    obtain ⟨text, htext⟩ : ∃ text, slot.item.text = some text := by
      unfold Slot.done at hdone
      rw [Item.completed_eq] at hdone
      exact Option.isSome_iff_exists.mp hdone
    have hbuffer := hsound.text slot (List.mem_of_getElem? hslot) text htext
    have hlives := hemits.lives index
    have hentry : u.ledger.items[index]? = some ⟨slot.item.id, text, .done⟩ := by
      show (u.slots.map Slot.entry)[index]? = _
      rw [List.getElem?_map, hslot, hbuffer]
      exact congrArg some (entry_done hdone)
    rw [hentry] at hlives
    obtain ⟨hdeltas, hfinal, finished, hmem, hid, hfinished⟩ := hlives.whole rfl
    refine ⟨text, htext, ?_, ?_, finished, ?_, hid, hfinished⟩
    · rw [bodiesAt_framed]
      exact hdeltas
    · rw [bodiesAt_framed]
      exact hfinal
    · have hframed : bodiesAt index (framed created inProgress (streamed ++ kept)
          response u.sequence) = bodiesAt index (streamed ++ kept) := bodiesAt_framed index
      rw [← hframed] at hmem
      exact (List.mem_filter.mp hmem).1
  · rw [hclosed.outputText, haccepted.blocks.encodes.outputText, hstreamed.outputText,
      List.append_assoc, ← spokenIn_append, spokenIn_framed]
    rfl

/-- `decodePayload`: a payload that is no text is not decoded. -/
def decodePayload (payload : Option Str) : Option Json := payload.bind Json.parse

theorem proper_of_decodePayload {payload : Option Str} {value : Json}
    (h : decodePayload payload = some value) : value.Proper := by
  obtain ⟨text, -, htext⟩ := Option.bind_eq_some_iff.mp h
  exact proper_of_parse htext

/-- A response that has not failed has every block of the last message once and says of it what was
streamed. -/
theorem completed_agrees (idFactory : ℕ → Str → Str) (document : Json) (payloads : List (Option Str))
    (ending : Ending) {event : Event} {response : Response}
    (hevent : event ∈ streamOpenAIResponse idFactory document (payloads.map decodePayload) ending)
    (hbody : event.body = .ended response) (hstatus : response.status ≠ .failed) :
    ∃ (before : List Json) (last : Json) (after : List (Option Json)) (message : Json),
      payloads.map decodePayload = before.map some ++ some last :: after ∧
      messageOf last = some message ∧ Agrees (before.flatMap startedBy) message response
        (streamOpenAIResponse idFactory document (payloads.map decodePayload) ending) := by
  have hpump : event ∈ pump idFactory ending (State.opened document) (payloads.map decodePayload) := by
    rcases List.mem_cons.mp hevent with rfl | hevent
    · cases hbody
    rcases List.mem_cons.mp hevent with rfl | hevent
    · cases hbody
    · exact hevent
  obtain ⟨before, last, after, message, hgiven, hmessage, hfinishes⟩ :=
    pump_finishes idFactory (opened_open document) ending _ hpump hbody hstatus
  have hproper : last.Proper := by
    have hmem : some last ∈ payloads.map decodePayload := by
      rw [hgiven]
      exact List.mem_append_right _ List.mem_cons_self
    obtain ⟨payload, -, hpayload⟩ := List.mem_map.mp hmem
    exact proper_of_decodePayload hpayload
  exact ⟨before, last, after, message, hgiven, hmessage, hfinishes.agrees hproper hmessage⟩

/-- An event of the text at the second place of the message. -/
def secondText (type : String) (fields : List (Str × Json)) : Json :=
  .obj ((lit "type", .str (lit type)) :: (lit "contentIndex", .num (.finite 1)) :: fields)

/-- The texts of payloads that stream the second block of a message, and end with both of them. -/
def greeting : List (Option Str) :=
  [some startEvent.stringify, some (secondText "text_start" []).stringify,
    some (secondText "text_delta" [(lit "delta", .str (lit "H"))]).stringify,
    some (doneEvent [textBlock, textBlock]).stringify]

/-- The response that an event ends with. -/
def Body.response : Body → Option Response
  | .ended response => some response
  | _ => none

theorem greeting_agrees : ∃ (response : Response) (before : List Json) (last : Json)
    (after : List (Option Json)) (message : Json), response.status = .completed ∧
    greeting.map decodePayload = before.map some ++ some last :: after ∧
    messageOf last = some message ∧ Agrees (before.flatMap startedBy) message response
      (streamOpenAIResponse (fun _ name => name) helloRequest (greeting.map decodePayload)
        .finished) := by
  have hlast : (((streamOpenAIResponse (fun _ name => name) helloRequest (greeting.map decodePayload)
      .finished)[15]?).bind fun event => event.body.response.map Response.status) =
        some .completed := by
    decide +kernel
  obtain ⟨event, hevent, hresponse⟩ := Option.bind_eq_some_iff.mp hlast
  obtain ⟨response, hbody, hcompleted⟩ := Option.map_eq_some_iff.mp hresponse
  have hended : event.body = .ended response := by
    unfold Body.response at hbody
    split at hbody
    · rename_i last hlast
      cases hbody
      exact hlast
    · cases hbody
  obtain ⟨before, last, after, message, hgiven, hmessage, hagrees⟩ :=
    completed_agrees (fun _ name => name) helloRequest greeting .finished
      (List.mem_of_getElem? hevent) hended (by rw [hcompleted]; nofun)
  exact ⟨response, before, last, after, message, hcompleted, hgiven, hmessage, hagrees⟩

end Cyclo.OpenAi
