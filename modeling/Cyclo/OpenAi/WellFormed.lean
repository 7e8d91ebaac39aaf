import Cyclo.OpenAi.Conversation
import Cyclo.OpenAi.Terminal

/-! Which streams of a response are well formed: those that drop no events. -/
namespace Cyclo.OpenAi
open Js Process Process.Stateful

variable {idFactory : ℕ → Str → Str} {s t u : State} {index : ℕ} {given : Json} {slot slot' : Slot}
  {events events' : List Event} {X : Failure → State → Prop}

/-- Whether an event is a last one that is rejected once blocks of its message have made events. -/
def drops (s : State) (given : Json) : Bool :=
  if s.started then
    match given.field (lit "type") with
    | some (.str type) =>
      if type = lit "done" then doneDrops s.slots given
      else if type = lit "error" then errorDrops s.slots given
      else false
    | _ => false
  else false

/-- A state that takes events of the provider. -/
structure State.Open (s : State) : Prop where
  sound : s.Sound
  terminal : s.terminal = false
  failureEmitted : s.failureEmitted = false

theorem State.Open.of_encodes (hs : s.Open) (h : Encodes s events t) : t.Open :=
  ⟨h.sound, h.kept.terminal.trans hs.terminal, h.kept.failureEmitted.trans hs.failureEmitted⟩

/-- The events of the content of a message. -/
def content (idFactory : ℕ → Str → Str) (type : Str) (given : Json) (index : ℕ) :
    Encoding (List Event) :=
  let block := partialBlock given index
  let delta' := given.field (lit "delta")
  let content := given.field (lit "content")
  if type = lit "text_start" then startText idFactory index block
  else if type = lit "text_delta" then delta index .text delta'
  else if type = lit "text_end" then endText index content block
  else if type = lit "thinking_start" then startThinking idFactory index block
  else if type = lit "thinking_delta" then delta index .thinking delta'
  else if type = lit "thinking_end" then endThinking index content block
  else if type = lit "toolcall_start" then startToolCall idFactory index block
  else if type = lit "toolcall_delta" then delta index .toolCall delta'
  else endToolCall index (given.field (lit "toolCall"))

theorem content_yields (hs : s.Sound) (type : Str) (given : Json) (index : ℕ) :
    Yields (content idFactory type given index) s (Encodes s) fun _ t => t = s := by
  have hdelta : ∀ kind given, Yields (delta index kind given) s (Encodes s) fun _ t => t = s := by
    intro kind given
    refine (delta_yields hs kind given).weaken ?_ fun _ _ h => h
    rintro events t ⟨slot, slot', text, -, -, -, h⟩
    exact h.encodes
  unfold content
  dsimp only
  split_ifs
  · refine (startText_yields hs index _).weaken ?_ fun _ _ h => h.1
    rintro events t ⟨id, phase, h⟩
    exact h.encodes
  · exact hdelta .text _
  · refine (endText_yields hs index _ _).weaken ?_ fun _ _ h => h.1
    rintro events t ⟨slot, text, -, -, -, h⟩
    exact h.encodes
  · refine (startThinking_yields hs index _).weaken ?_ fun _ _ h => h.1
    rintro events t ⟨id, encrypted, h⟩
    exact h.encodes
  · exact hdelta .thinking _
  · refine (endThinking_yields hs index _ _).weaken ?_ fun _ _ h => h.1
    rintro events t ⟨slot, text, -, -, -, h⟩
    exact h.encodes
  · refine (startToolCall_yields hs index _).weaken ?_ fun _ _ h => h.1
    rintro events t ⟨start, id, -, -, h⟩
    exact h.encodes
  · exact hdelta .toolCall _
  · refine (endToolCall_yields hs index _).weaken ?_ fun _ _ h => h.1
    rintro events t ⟨slot, text, -, -, h⟩
    exact h.encodes

/-- What `accept` makes of an event that it takes. -/
inductive Takes (s : State) (given : Json) (events : List Event) (t : State) : Prop
  | goes : t.Open → Emits s.ledger events t.ledger → Takes s given events t
  | ends message response : t.terminal = true → Concluded s message response events →
      (response.status = .failed ∨ messageOf given = some message) → Takes s given events t

theorem accept_yields (idFactory : ℕ → Str → Str) (hs : s.Open) (given : Json) :
    Yields (accept idFactory given) s
      (fun events t => drops s given = false ∧ Takes s given events t)
      fun _ t => ∃ dropped, Dropped s dropped t ∧ (dropped = [] ↔ drops s given = false) := by
  have hkept : drops s given = false → ∃ dropped, Dropped s dropped s ∧
      (dropped = [] ↔ drops s given = false) :=
    fun h => ⟨[], .none s, iff_of_true rfl h⟩
  unfold accept
  refine Yields.bind (Yields.get ?_)
  rw [hs.terminal, if_neg nofun]
  split
  · rename_i type htype
    by_cases hstart : type = lit "start"
    · have hdrops : drops s given = false := by
        unfold drops
        rw [htype]
        dsimp only
        rw [hstart, if_neg (by decide : lit "start" ≠ lit "done"),
          if_neg (by decide : lit "start" ≠ lit "error"), ite_self]
      rw [if_pos hstart]
      split_ifs with hstarted
      · exact hkept hdrops
      · exact ⟨hdrops, .goes ⟨⟨hs.sound.position, hs.sound.distinct, hs.sound.text⟩, rfl,
          hs.failureEmitted⟩ (.nil _)⟩
    rw [if_neg hstart]
    cases hstarted : s.started with
    | false =>
      have hdrops : drops s given = false := by
        unfold drops
        rw [hstarted, if_neg nofun]
      exact hkept hdrops
    | true =>
      have hdrops : drops s given = if type = lit "done" then doneDrops s.slots given
          else if type = lit "error" then errorDrops s.slots given else false := by
        unfold drops
        rw [hstarted, if_pos rfl, htype]
      rw [Bool.not_true, if_neg nofun, hdrops]
      by_cases hdone : type = lit "done"
      · rw [if_pos hdone, if_pos hdone]
        refine (done_yields hs.sound hs.failureEmitted given).weaken ?_ fun _ _ h => h
        rintro events t ⟨hterminal, hclean, message, response, hmessage, hconcluded⟩
        exact ⟨hclean, .ends message response hterminal hconcluded (Or.inr hmessage)⟩
      rw [if_neg hdone, if_neg hdone]
      by_cases herror : type = lit "error"
      · rw [if_pos herror, if_pos herror]
        refine (error_yields hs.sound hs.failureEmitted given).weaken ?_ fun _ _ h => h
        rintro events t ⟨hterminal, hclean, response, hstatus, hconcluded⟩
        exact ⟨hclean, .ends _ response hterminal hconcluded (Or.inl hstatus)⟩
      rw [if_neg herror, if_neg herror]
      have hnone : ∃ dropped, Dropped s dropped s ∧ (dropped = [] ↔ false = false) :=
        ⟨[], .none s, iff_of_true rfl rfl⟩
      split
      · refine Yields.bind ?_
        cases hindex : contentIndex given with
        | error failure => exact hnone
        | ok index =>
          refine Yields.pure ((content_yields hs.sound type given index).weaken ?_ ?_)
          · intro events t h
            exact ⟨rfl, .goes (hs.of_encodes h) h.emits⟩
          · rintro _ _ rfl
            exact hnone
      · exact hnone
  · rename_i hnone
    have hdrops : drops s given = false := by
      unfold drops
      split_ifs
      · split
        · rename_i type htype
          exact absurd htype (hnone type)
        · rfl
      · rfl
    exact hkept hdrops

/-- No event of a run is a last one that is rejected once blocks of its message have made events. -/
def clean (idFactory : ℕ → Str → Str) : State → List (Option Json) → Bool
  | _, [] => true
  | _, none :: _ => true
  | s, some given :: rest =>
    !drops s given &&
      match (accept idFactory given).run s with
      | (.ok _, t) => t.terminal || clean idFactory t rest
      | (.error _, _) => true

/-- The events of a run: what was made, but for what was dropped, and the end. -/
structure Run (s : State) (clean : Bool) (events : List Event) : Prop where
  closed : ∃ kept dropped t response, Emits s.ledger (kept ++ dropped) t.ledger ∧
    Closed t kept response events ∧ (dropped = [] ↔ clean = true)

theorem failed_closed (hfail : s.failureEmitted = false) (message : Str) :
    ∃ response, Closed s [] response (failed message s) := by
  have h := fail_yields (X := fun _ _ => False) hfail message
  unfold Yields at h
  unfold failed
  rcases hrun : (fail message).run s with ⟨result, t⟩
  rw [hrun] at h
  cases result with
  | ok events =>
    obtain ⟨-, response, -, hclosed⟩ := h
    exact ⟨response, hclosed⟩
  | error failure => cases h

theorem Run.of_failed (hs : s.Open) (message : Str) : Run s true (failed message s) := by
  obtain ⟨response, hclosed⟩ := failed_closed hs.failureEmitted message
  exact ⟨[], [], s, response, .nil _, hclosed, iff_of_true rfl rfl⟩

theorem Run.of_dropped {dropped : List Event} {drops : Bool} (hs : s.Open) (h : Dropped s dropped t)
    (hdrops : dropped = [] ↔ drops = false) (message : Str) : Run s (!drops) (failed message t) := by
  obtain ⟨response, hclosed⟩ := failed_closed (h.failureEmitted.trans hs.failureEmitted) message
  refine ⟨[], dropped, t, response, h.emits, hclosed, ?_⟩
  rw [hdrops, Bool.not_eq_true']

theorem Run.cons {clean : Bool} (h : Emits s.ledger events t.ledger) (h' : Run t clean events') :
    Run s clean (events ++ events') := by
  obtain ⟨kept, dropped, u, response, hemits, hclosed, hclean⟩ := h'
  refine ⟨events ++ kept, dropped, u, response, ?_, ⟨?_, hclosed.output, hclosed.outputText,
    hclosed.status⟩, hclean⟩
  · rw [List.append_assoc]
    exact h.append hemits
  · rw [hclosed.events, List.append_assoc]

theorem pump_run (idFactory : ℕ → Str → Str) (hs : s.Open) (ending : Ending)
    (given : List (Option Json)) : Run s (clean idFactory s given)
    (pump idFactory ending s given) := by
  induction given generalizing s with
  | nil =>
    unfold pump clean
    cases ending with
    | finished => exact .of_failed hs _
    | raised => exact .of_failed hs _
  | cons event rest ih =>
    cases event with
    | none => exact .of_failed hs _
    | some event =>
      have h := accept_yields idFactory hs event
      unfold Yields at h
      unfold pump clean
      rcases hrun : (accept idFactory event).run s with ⟨result, t⟩
      rw [hrun] at h
      cases result with
      | error failure =>
        obtain ⟨dropped, hdropped, hempty⟩ := h
        dsimp only
        rw [Bool.and_true]
        exact .of_dropped hs hdropped hempty _
      | ok events =>
        obtain ⟨hdrops, htakes⟩ := h
        dsimp only
        rw [hdrops, Bool.not_false, Bool.true_and]
        cases htakes with
        | goes hopen hemits =>
          rw [hopen.terminal, if_neg nofun, Bool.false_or]
          exact .cons hemits (ih hopen)
        | ends message response hterminal hconcluded =>
          obtain ⟨kept, u, haccepted, hclosed⟩ := hconcluded
          rw [hterminal, if_pos rfl, Bool.true_or]
          refine ⟨kept, [], u, response, ?_, hclosed, iff_of_true rfl rfl⟩
          rw [List.append_nil]
          exact haccepted.blocks.encodes.emits

structure WellFormed (events : List Event) : Prop where
  opening : ∃ created inProgress rest,
    events.map Event.body = .created created :: .inProgress inProgress :: rest
  ending : ∃ before last response, events = before ++ [last] ∧ last.body = .ended response ∧
    response.status ≠ .inProgress ∧ ∀ event ∈ before, event.body.isEnded = false
  numbered : ∀ (i : ℕ) (event : Event), events[i]? = some event → event.sequenceNumber = i
  lives : ∀ index, Life index (bodiesAt index events)
  announced : ∀ event ∈ events, ∀ response, event.body = .ended response →
    ∀ (index : ℕ) (item : Item), response.output[index]? = some item →
      ∃ announced, .itemAdded index announced ∈ events.map Event.body ∧ announced.id = item.id

/-- The state that the first event of a provider finds. -/
def State.opened (document : Json) : State := { State.initial document with sequence := 2 }

theorem opened_open (document : Json) : (State.opened document).Open :=
  ⟨⟨nofun, List.nodup_nil, List.forall_mem_nil _⟩, rfl, rfl⟩

section
variable {kept : List Event} {l : Ledger} {created inProgress response : Response} {n : ℕ}

/-- A stream of a response by its first two events, its events and its last one. -/
def framed (created inProgress : Response) (kept : List Event) (response : Response) (n : ℕ) :
    List Event :=
  ⟨.created created, 0⟩ :: ⟨.inProgress inProgress, 1⟩ :: (kept ++ [⟨.ended response, n⟩])

theorem bodiesAt_framed (index : ℕ) :
    bodiesAt index (framed created inProgress kept response n) = bodiesAt index kept := by
  have hcreated : (Body.created created).outputIndex ≠ some index := nofun
  have hinProgress : (Body.inProgress inProgress).outputIndex ≠ some index := nofun
  have hended : (Body.ended response).outputIndex ≠ some index := nofun
  unfold framed
  rw [bodiesAt_other hcreated, bodiesAt_other hinProgress, bodiesAt_append, bodiesAt_other hended]
  exact List.append_nil _

/-- There is one last event. -/
theorem ended_framed (h : ∀ event ∈ kept, event.body.isEnded = false) {event : Event} {last : Response}
    (hevent : event ∈ framed created inProgress kept response n) (hbody : event.body = .ended last) :
    last = response := by
  unfold framed at hevent
  rcases List.mem_cons.mp hevent with rfl | hevent
  · cases hbody
  rcases List.mem_cons.mp hevent with rfl | hevent
  · cases hbody
  rcases List.mem_append.mp hevent with hevent | hevent
  · have hended := h event hevent
    rw [hbody] at hended
    cases hended
  · cases List.mem_singleton.mp hevent
    cases hbody
    rfl

theorem getElem?_framed :
    (framed created inProgress kept response n)[2 + kept.length]? = some ⟨.ended response, n⟩ := by
  unfold framed
  rw [show 2 + kept.length = kept.length + 1 +
    1 by omega, List.getElem?_cons_succ, List.getElem?_cons_succ]
  exact List.getElem?_concat_length

theorem numbered_framed (h : Emits ⟨2, []⟩ kept l) (i : ℕ) {event : Event}
    (hevent : (framed created inProgress kept response l.sequence)[i]? = some event) :
    event.sequenceNumber = i := by
  unfold framed at hevent
  match i with
  | 0 => cases hevent; rfl
  | 1 => cases hevent; rfl
  | i + 2 =>
    rw [List.getElem?_cons_succ, List.getElem?_cons_succ] at hevent
    rcases Nat.lt_or_ge i kept.length with hi | hi
    · rw [List.getElem?_append_left hi] at hevent
      rw [h.numbered i hevent]
      dsimp only
      omega
    · rw [List.getElem?_append_right hi] at hevent
      have hlast : i - kept.length = 0 := by
        have hlt := (List.getElem?_eq_some_iff.mp hevent).1
        rw [List.length_singleton] at hlt
        omega
      rw [hlast] at hevent
      cases hevent
      dsimp only
      rw [h.sequence]
      dsimp only
      omega

theorem wellFormed_framed (h : Emits ⟨2, []⟩ kept l) (hstatus : response.status ≠ .inProgress)
    (houtput : response.output.map Item.id = l.items.map Entry.id) :
    WellFormed (framed created inProgress kept response l.sequence) := by
  refine ⟨⟨created, inProgress, _, rfl⟩, ⟨_ :: _ :: kept, _, response, rfl, rfl, hstatus, ?_⟩,
    fun i event => numbered_framed h i, ?_, ?_⟩
  · intro event hevent
    rcases List.mem_cons.mp hevent with rfl | hevent
    · rfl
    rcases List.mem_cons.mp hevent with rfl | hevent
    · rfl
    · exact h.not_ended event hevent
  · intro index
    rw [bodiesAt_framed]
    exact (h.lives index).life
  · intro event hevent last hbody index item hitem
    have hlast := ended_framed h.not_ended hevent hbody
    subst hlast
    have hid : (l.items.map Entry.id)[index]? = some item.id := by
      rw [← houtput, List.getElem?_map, hitem]
      rfl
    rw [List.getElem?_map, Option.map_eq_some_iff] at hid
    obtain ⟨entry, hentry, hid⟩ := hid
    have hlives := h.lives index
    rw [hentry] at hlives
    obtain ⟨announced, hannounced, hsame⟩ := hlives.announced
    refine ⟨announced, ?_, hsame.trans hid⟩
    have hframed : bodiesAt index (framed created inProgress kept last l.sequence) =
        bodiesAt index kept :=
      bodiesAt_framed index
    rw [← hframed] at hannounced
    exact (List.mem_filter.mp hannounced).1

end

/-- A stream is well formed exactly when it drops no events. -/
theorem wellFormed_iff (idFactory : ℕ → Str → Str) (document : Json) (first : Option Json)
    (rest : List (Option Json)) (ending : Ending) :
    WellFormed (streamOpenAIResponse idFactory document (first :: rest) ending) ↔
      clean idFactory (State.opened document) (first :: rest) = true := by
  obtain ⟨kept, dropped, t, response, hemits, hclosed, hclean⟩ :=
    pump_run idFactory (opened_open document) ending (first :: rest)
  have hstream : streamOpenAIResponse idFactory document (first :: rest) ending =
      framed ((State.initial document).response .inProgress none)
        ((State.initial document).response .inProgress none) kept response t.sequence :=
    congrArg (fun events => _ :: _ :: events) hclosed.events
  have hsequence : t.sequence = 2 + (kept ++ dropped).length := hemits.sequence
  rw [hstream, ← hclean]
  constructor
  · intro h
    have hnumber : t.sequence = 2 + kept.length := h.numbered _ _ getElem?_framed
    rw [List.length_append] at hsequence
    exact List.length_eq_zero_iff.mp (by omega)
  · rintro rfl
    rw [List.append_nil] at hemits
    refine wellFormed_framed hemits hclosed.status ?_
    rw [hclosed.output]
    show _ = (t.slots.map Slot.entry).map Entry.id
    rw [List.map_map, List.map_map]
    rfl

def helloRequest : Json := .obj [(lit "model", .str (lit "work/model")),
    (lit "input", .str (lit "Hello"))]

def startEvent : Json := .obj [(lit "type", .str (lit "start"))]

def textBlock : Json := .obj [(lit "type", .str (lit "text")), (lit "text", .str (lit "Hi"))]

def imageBlock : Json := .obj [(lit "type", .str (lit "image"))]

def doneEvent (blocks : List Json) : Json :=
  .obj [(lit "type", .str (lit "done")), (lit "reason", .str (lit "stop")),
    (lit "message", .obj [(lit "content", .arr blocks)])]

/-- The text of a message is dropped when its image is rejected. -/
theorem image_not_wellFormed :
    (prepareOpenAIRequest helloRequest textModel).isOk = true ∧
      ¬ WellFormed (streamOpenAIResponse (fun _ name => name) helloRequest
        [some startEvent, some (doneEvent [textBlock, imageBlock])] .finished) := by
  refine ⟨rfl, fun h => ?_⟩
  have hlast : ((streamOpenAIResponse (fun _ name => name) helloRequest
      [some startEvent, some (doneEvent [textBlock, imageBlock])] .finished)[2]?.map
        Event.sequenceNumber) = some 8 := by decide +kernel
  obtain ⟨event, hevent, hnumber⟩ := Option.map_eq_some_iff.mp hlast
  have hsame := h.numbered 2 event hevent
  omega

end Cyclo.OpenAi
